import Stratagem.Proofs.Number.Conversion
import Stratagem.Proofs.Script.Evaluation

/-! Finite numbers as rationals. Comparison is that of the rationals, the number of an integer is a
nearest one, and a number other than zero is the only one of its value. -/

namespace Stratagem

namespace Binary64

variable {x y : Binary64} {n : Int}

theorem exists_units (h : x.isFinite = true) : ∃ u, x.units? = some u := by
  cases x with
  | finite => exact ⟨_, rfl⟩
  | _ => cases h

theorem toRat_of_units {u : Int} (h : x.units? = some u) : x.toRat = (u : ℚ) / unit := by
  rw [toRat, h, Option.getD_some]

theorem zero_lt_unit_rat : (0 : ℚ) < unit := Nat.cast_pos.mpr zero_lt_unit

theorem lt_iff (hx : x.isFinite = true) (hy : y.isFinite = true) :
    x.lt y = true ↔ x.toRat < y.toRat := by
  obtain ⟨u, hu⟩ := exists_units hx
  obtain ⟨v, hv⟩ := exists_units hy
  have hlt : x.lt y = decide (u < v) := by
    cases x <;> cases y <;> simp_all [lt, isFinite]
  rw [hlt, decide_eq_true_eq, toRat_of_units hu, toRat_of_units hv,
    div_lt_div_iff_of_pos_right zero_lt_unit_rat, Int.cast_lt]

theorem ltInt_iff (hx : x.isFinite = true) (n : Int) : x.ltInt n = true ↔ x.toRat < n := by
  obtain ⟨u, hu⟩ := exists_units hx
  have hlt : x.ltInt n = decide (u < n * (unit : Int)) := by
    cases x with
    | finite => rw [ltInt, hu, Option.any_some]
    | _ => cases hx
  rw [hlt, decide_eq_true_eq, toRat_of_units hu, div_lt_iff₀ zero_lt_unit_rat]
  exact_mod_cast Iff.rfl

theorem gtInt_iff (hx : x.isFinite = true) (n : Int) : x.gtInt n = true ↔ n < x.toRat := by
  obtain ⟨u, hu⟩ := exists_units hx
  have hlt : x.gtInt n = decide (n * (unit : Int) < u) := by
    cases x with
    | finite => rw [gtInt, hu, Option.any_some]
    | _ => cases hx
  rw [hlt, decide_eq_true_eq, toRat_of_units hu, lt_div_iff₀ zero_lt_unit_rat]
  exact_mod_cast Iff.rfl

theorem toRat_of_isIntegral (h : x.isIntegral = true) (hn : x.truncate? = some n) :
    x.toRat = n := by
  cases hu : x.units? with
  | none =>
    rw [truncate?, hu] at hn
    cases hn
  | some u =>
    rw [isIntegral, hu, Option.any_some, beq_iff_eq] at h
    rw [truncate?, hu, Option.map_some, Option.some.injEq] at hn
    have hwhole : u = n * unit := by
      rw [← hn, Int.tdiv_mul_cancel (Int.dvd_of_emod_eq_zero h)]
    rw [toRat_of_units hu, hwhole]
    push_cast
    exact mul_div_cancel_right₀ _ zero_lt_unit_rat.ne'

theorem isIntegral_of_toRat (hx : x.isFinite = true) (h : x.toRat = n) :
    x.isIntegral = true ∧ x.truncate? = some n := by
  obtain ⟨u, hu⟩ := exists_units hx
  rw [toRat_of_units hu, div_eq_iff zero_lt_unit_rat.ne'] at h
  have hwhole : u = n * (unit : Int) := by exact_mod_cast h
  have hne : (unit : Int) ≠ 0 := Int.natCast_ne_zero.mpr zero_lt_unit.ne'
  constructor
  · rw [isIntegral, hu, Option.any_some, hwhole, Int.mul_emod_left, beq_self_eq_true]
  · rw [truncate?, hu, Option.map_some, hwhole, Int.mul_tdiv_cancel _ hne]

private theorem scaled_distance {q : ℚ} (hq : 0 < q) (a b : ℚ) :
    |b / q - a| = |a * q - b| / q := by
  have hdiff : b / q - a = -((a * q - b) / q) := by
    rw [sub_div, mul_div_cancel_right₀ a hq.ne', neg_sub]
  rw [hdiff, abs_neg, abs_div, abs_of_pos hq]

/-- No float is nearer to an integer than its own. -/
theorem ofInt?_nearest_rat (h : ofInt? n = some x) (hy : y.isFinite = true) :
    |x.toRat - n| ≤ |y.toRat - n| := by
  obtain ⟨u, hu⟩ := exists_units (ofInt?_eq_some h).2
  obtain ⟨v, hv⟩ := exists_units hy
  have hnear : |(n : ℚ) * unit - u| ≤ |(n : ℚ) * unit - v| := by
    exact_mod_cast ofInt?_nearest h hu hv
  rw [toRat_of_units hu, toRat_of_units hv, scaled_distance zero_lt_unit_rat,
    scaled_distance zero_lt_unit_rat]
  exact div_le_div_of_nonneg_right hnear zero_lt_unit_rat.le

/-! ## Small integers -/

private theorem exponent_le {m e m' e' : Nat} (hc : Canonical m e) (hc' : Canonical m' e')
    (h : m * 2 ^ e = m' * 2 ^ e') : e' ≤ e := by
  by_contra hlt
  have hsplit : m = m' * 2 ^ (e' - e) := by
    refine Nat.eq_of_mul_eq_mul_right (Nat.two_pow_pos e) ?_
    rw [h, Nat.mul_assoc, ← Nat.pow_add, Nat.sub_add_cancel (by omega)]
  have htop : 2 ^ 52 ≤ m' := hc'.2.2.resolve_right (by omega)
  have htwo : 2 ^ 1 ≤ 2 ^ (e' - e) := Nat.pow_le_pow_right (by decide) (by omega)
  have hm : 2 ^ 52 * 2 ^ 1 ≤ m := hsplit ▸ Nat.mul_le_mul htop htwo
  have := hc.1
  omega

theorem canonical_unique {m e m' e' : Nat} (hc : Canonical m e) (hc' : Canonical m' e')
    (h : m * 2 ^ e = m' * 2 ^ e') : m = m' ∧ e = e' := by
  obtain rfl : e = e' := Nat.le_antisymm (exponent_le hc' hc h.symm) (exponent_le hc hc' h)
  exact ⟨Nat.eq_of_mul_eq_mul_right (Nat.two_pow_pos e) h, rfl⟩

/-- Zero alone is there twice. -/
theorem eq_of_toRat (hx : x.isFinite = true) (hy : y.isFinite = true) (h : x.toRat = y.toRat)
    (hzero : x.toRat ≠ 0) : x = y := by
  cases x with
  | finite sx m e hc =>
    cases y with
    | finite sy m' e' hc' =>
      rw [toRat_of_units rfl] at hzero
      rw [toRat_of_units rfl, toRat_of_units rfl, div_left_inj' zero_lt_unit_rat.ne',
        Int.cast_inj] at h
      have hne : m * 2 ^ e ≠ 0 := by
        intro h0
        rw [h0, Nat.cast_zero, neg_zero, ite_self, Int.cast_zero, zero_div] at hzero
        exact hzero rfl
      have hsame : sx = sy ∧ m * 2 ^ e = m' * 2 ^ e' := by
        generalize m * 2 ^ e = a at h hne
        generalize m' * 2 ^ e' = b at h
        cases sx <;> cases sy <;>
          simp only [Bool.false_eq_true, if_false, if_true, true_and, reduceCtorEq,
            false_and] at * <;> omega
      obtain ⟨rfl, hmul⟩ := hsame
      obtain ⟨rfl, rfl⟩ := canonical_unique hc hc' hmul
      rfl
    | _ => cases hy
  | _ => cases hx

theorem exists_toRat_eq {n : Nat} (hn : n < 2 ^ 53) :
    ∃ x : Binary64, x.isFinite = true ∧ x.toRat = n := by
  by_cases hzero : n = 0
  · have hunits : zero.units? = some 0 := rfl
    refine ⟨zero, rfl, ?_⟩
    rw [toRat_of_units hunits, hzero, Int.cast_zero, zero_div, Nat.cast_zero]
  · have hk : n.log2 ≤ 52 := Nat.lt_succ_iff.mp ((Nat.log2_lt hzero).mpr hn)
    have hsplit : 2 ^ n.log2 * 2 ^ (52 - n.log2) = 2 ^ 52 := by
      rw [← Nat.pow_add, Nat.add_sub_cancel' hk]
    have hc : Canonical (n * 2 ^ (52 - n.log2)) (1022 + n.log2) := by
      refine ⟨?_, by omega, .inl ?_⟩
      · calc n * 2 ^ (52 - n.log2) < 2 ^ (n.log2 + 1) * 2 ^ (52 - n.log2) :=
              Nat.mul_lt_mul_of_pos_right Nat.lt_log2_self (Nat.two_pow_pos _)
          _ = 2 ^ 53 := by rw [Nat.pow_succ, Nat.mul_right_comm, hsplit, ← Nat.pow_succ]
      · rw [← hsplit]
        exact Nat.mul_le_mul_right _ (Nat.log2_self_le hzero)
    have hunits : n * 2 ^ (52 - n.log2) * 2 ^ (1022 + n.log2) = n * unit := by
      rw [Nat.mul_assoc, ← Nat.pow_add, show 52 - n.log2 + (1022 + n.log2) = 1074 by omega]
      rfl
    refine ⟨.finite false _ _ hc, rfl, ?_⟩
    rw [toRat_of_units rfl, if_neg Bool.false_ne_true, hunits]
    push_cast
    exact mul_div_cancel_right₀ _ zero_lt_unit_rat.ne'

/-- A positive number below `2 ^ 53 - 1` that is nearest to an integer is the number of it. -/
theorem ofInt?_of_nearest (hx : x.isFinite = true) (hpos : 0 < x.toRat)
    (hsmall : x.toRat < 2 ^ 53 - 1)
    (h : ∀ y : Binary64, y.isFinite = true → |x.toRat - n| ≤ |y.toRat - n|) :
    ofInt? n = some x := by
  -- An integer out of reach has the nearest small number on the way to it.
  have hlow : 0 < n := by
    by_contra hn
    have hn : (n : ℚ) ≤ 0 := by exact_mod_cast not_lt.mp hn
    obtain ⟨y, hy, hvalue⟩ := exists_toRat_eq (n := 0) (by decide)
    have hnear := h y hy
    rw [hvalue, abs_of_pos (by linarith), abs_of_nonneg (by push_cast; linarith)] at hnear
    push_cast at hnear
    linarith
  have hhigh : n < 2 ^ 53 - 1 := by
    by_contra hn
    have hn : (2 ^ 53 - 1 : ℚ) ≤ n := by exact_mod_cast not_lt.mp hn
    obtain ⟨y, hy, hvalue⟩ := exists_toRat_eq (n := 2 ^ 53 - 1) (by decide)
    have hnear := h y hy
    rw [hvalue, abs_of_neg (by linarith), abs_of_nonpos (by push_cast; linarith)] at hnear
    push_cast at hnear
    linarith
  have hexact : x.toRat = n := by
    obtain ⟨y, hy, hvalue⟩ := exists_toRat_eq (n := n.toNat) (by omega)
    have hcast : ((n.toNat : Nat) : ℚ) = n := by exact_mod_cast Int.toNat_of_nonneg hlow.le
    have hnear := h y hy
    rw [hvalue, hcast, sub_self, abs_zero] at hnear
    exact sub_eq_zero.mp (abs_nonpos_iff.mp hnear)
  cases hof : ofInt? n with
  | none =>
    have hbeyond := (ofInt?_eq_none_iff n).mp hof
    have hreach : 2 ^ 53 ≤ (2 ^ 54 - 1) * 2 ^ 970 :=
      Nat.le_trans (by decide : 2 ^ 53 ≤ 2 ^ 54 - 1) (Nat.le_mul_of_pos_right _ (Nat.two_pow_pos _))
    omega
  | some z =>
    have hz := (ofInt?_eq_some hof).2
    have hnear := ofInt?_nearest_rat hof hx
    rw [hexact, sub_self, abs_zero] at hnear
    have hvalue : x.toRat = z.toRat := by
      rw [hexact, sub_eq_zero.mp (abs_nonpos_iff.mp hnear)]
    rw [eq_of_toRat hx hz hvalue hpos.ne']

end Binary64

end Stratagem
