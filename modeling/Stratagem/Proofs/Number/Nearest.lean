import Mathlib.Algebra.Order.Field.Power
import Mathlib.Data.Rat.Cast.Order
import Mathlib.Tactic.FieldSimp
import Mathlib.Tactic.Linarith
import Mathlib.Tactic.NormNum
import Mathlib.Tactic.Positivity
import Stratagem.Proofs.Number.Digits

/-! Shortest decimals round back. A magnitude is rounded to from all rationals of an interval around
it (`Rounds`); rounding a ratio of that interval gives the magnitude, the search for the shortest
decimal only tries decimals of that interval, and with seventeen digits it finds one. -/

namespace Stratagem

variable {d : Decimal}

namespace Binary64

variable {den num m e : Nat}

/-! ## Rounding to the nearest integer -/

/-- A rounded quotient is one of the two integers around the quotient: the nearer one, or between
them the even one. -/
theorem roundDiv_cases (num : Nat) (hden : 0 < den) :
    ∃ q r, num = den * q + r ∧ r < den ∧
      (roundDiv num den = q ∧ 2 * r ≤ den ∧ (2 * r = den → q % 2 = 0) ∨
        roundDiv num den = q + 1 ∧ den ≤ 2 * r ∧ (2 * r = den → q % 2 = 1)) := by
  refine ⟨num / den, num % den, (Nat.div_add_mod num den).symm, Nat.mod_lt num hden, ?_⟩
  unfold roundDiv
  dsimp only
  split
  · exact .inl ⟨rfl, by omega, by omega⟩
  · split
    · exact .inr ⟨rfl, by omega, by omega⟩
    · split
      · exact .inl ⟨rfl, by omega, fun _ => by assumption⟩
      · exact .inr ⟨rfl, by omega, by omega⟩

/-- An integer is the nearest one when the number is at most a half away, and less if it is odd. -/
theorem roundDiv_eq {n : Nat} (hden : 0 < den) (hlow : 2 * n * den ≤ 2 * num + den)
    (hhigh : 2 * num ≤ 2 * n * den + den)
    (hodd : n % 2 = 1 → 2 * n * den < 2 * num + den ∧ 2 * num < 2 * n * den + den) :
    roundDiv num den = n := by
  obtain ⟨q, r, rfl, hr, hcases⟩ := roundDiv_cases num hden
  have hle : q ≤ n := by
    by_contra h
    have : (n + 1) * den ≤ q * den := Nat.mul_le_mul_right den (by omega)
    nlinarith
  have hge : n ≤ q + 1 := by
    by_contra h
    have : (q + 2) * den ≤ n * den := Nat.mul_le_mul_right den (by omega)
    nlinarith
  obtain rfl | rfl : n = q ∨ n = q + 1 := by omega
  · obtain ⟨h, -, -⟩ | ⟨-, hhalf, htie⟩ := hcases
    · exact h
    · have hmiddle : 2 * r = den := Nat.le_antisymm (by nlinarith) hhalf
      have := (hodd (htie hmiddle)).2
      nlinarith
  · obtain ⟨-, hhalf, htie⟩ | ⟨h, -, -⟩ := hcases
    · have hmiddle : 2 * r = den := Nat.le_antisymm hhalf (by nlinarith)
      have hq := htie hmiddle
      have := (hodd (by omega)).1
      nlinarith
    · exact h

/-! ## The interval of a magnitude -/

/-- What the gap below a magnitude amounts to, in quarters of a unit in the last place. -/
def below (m e : Nat) : Nat := if m = 2 ^ 52 ∧ e ≠ 0 then 1 else 2

/-- A rational is rounded to a magnitude. -/
def Rounds (m e : Nat) (q : ℚ) : Prop :=
  ((4 * m - below m e : ℕ) : ℚ) * 2 ^ e ≤ 4 * (q * unit) ∧
    4 * (q * unit) ≤ (4 * m + 2 : ℕ) * 2 ^ e ∧
    (m % 2 = 1 → ((4 * m - below m e : ℕ) : ℚ) * 2 ^ e < 4 * (q * unit) ∧
      4 * (q * unit) < (4 * m + 2 : ℕ) * 2 ^ e)

/-- The same of a ratio, in integers. -/
private theorem rounds_ratio (hden : 0 < den) (h : Rounds m e ((num : ℚ) / den)) :
    (4 * m - below m e) * 2 ^ e * den ≤ 4 * (num * unit) ∧
      4 * (num * unit) ≤ (4 * m + 2) * 2 ^ e * den ∧
      (m % 2 = 1 → (4 * m - below m e) * 2 ^ e * den < 4 * (num * unit) ∧
        4 * (num * unit) < (4 * m + 2) * 2 ^ e * den) := by
  have hpos : (0 : ℚ) < den := by exact_mod_cast hden
  have hscale : 4 * ((num : ℚ) / den * unit) = ((4 * (num * unit) : ℕ) : ℚ) / den := by
    push_cast
    ring
  unfold Rounds at h
  rw [hscale] at h
  simp only [le_div_iff₀ hpos, div_le_iff₀ hpos, lt_div_iff₀ hpos, div_lt_iff₀ hpos] at h
  exact_mod_cast h

/-- A ratio of the interval of a magnitude, on the scale of the magnitude itself. -/
private theorem roundDiv_of_rounds {a x : Nat} (hx : 0 < x) (hlow : (4 * m - 2) * x ≤ 4 * a)
    (hhigh : 4 * a ≤ (4 * m + 2) * x)
    (hodd : m % 2 = 1 → (4 * m - 2) * x < 4 * a ∧ 4 * a < (4 * m + 2) * x) : roundDiv a x = m := by
  have hsplit : 4 * m * x ≤ (4 * m - 2) * x + 2 * x := by
    rw [← Nat.add_mul]
    exact Nat.mul_le_mul_right x (by omega)
  refine roundDiv_eq hx (by nlinarith) (by nlinarith) fun hm => ?_
  obtain ⟨h1, h2⟩ := hodd hm
  exact ⟨by nlinarith, by nlinarith⟩

private theorem ofRatio_eq (hc : Canonical m e) (negative : Bool)
    (hexp : ((num * unit) / den).log2 - 52 = e) (hround : roundDiv (num * unit) (den * 2 ^ e) = m) :
    ofRatio negative num den = .finite negative m e hc := by
  have hne : m ≠ 2 ^ 53 := by
    have := hc.1
    omega
  unfold unit at hexp hround
  simp only [ofRatio, hexp, hround, if_neg hne, ofParts, dif_pos hc]

private theorem log2_eq_of_bounds {a k : Nat} (hlow : 2 ^ k ≤ a) (hhigh : a < 2 ^ (k + 1)) :
    a.log2 = k := by
  have hne : a ≠ 0 := by
    rintro rfl
    exact absurd hlow (by simp)
  exact (Nat.log2_eq_iff hne).2 ⟨hlow, hhigh⟩

theorem ofRatio_zero (negative : Bool) (hc : Canonical 0 0) :
    ofRatio negative 0 1 = .finite negative 0 0 hc :=
  ofRatio_eq hc negative (by rw [Nat.zero_mul]; rfl) (by rw [Nat.zero_mul]; rfl)

/-- Just below a power of two the gaps are half as wide, and rounding up reaches it. -/
private theorem ofRatio_of_below {f : Nat} (hden : 0 < den) (hc : Canonical (2 ^ 52) (f + 1))
    (hlow : (4 * 2 ^ 52 - 1) * 2 ^ (f + 1) * den ≤ 4 * (num * unit))
    (hhigh : num * unit < 2 ^ (52 + (f + 1)) * den) (negative : Bool) :
    ofRatio negative num den = .finite negative (2 ^ 52) (f + 1) hc := by
  generalize ha : num * unit = a at hlow hhigh
  have hx : 0 < den * 2 ^ f := Nat.mul_pos hden (Nat.two_pow_pos f)
  have hlow : (4 * 2 ^ 53 - 2) * (den * 2 ^ f) ≤ 4 * a := by
    refine le_trans (le_of_eq ?_) hlow
    rw [Nat.pow_succ]
    ring
  have hhigh : a < 2 ^ 53 * (den * 2 ^ f) := by
    refine lt_of_lt_of_eq hhigh ?_
    rw [show 52 + (f + 1) = 53 + f by omega, Nat.pow_add]
    ring
  have hexp : (a / den).log2 - 52 = f := by
    have hlog : (a / den).log2 = 52 + f := by
      refine log2_eq_of_bounds ?_ ?_
      · rw [Nat.le_div_iff_mul_le hden, Nat.pow_add, Nat.mul_assoc, Nat.mul_comm (2 ^ f)]
        omega
      · rw [Nat.div_lt_iff_lt_mul hden, show 52 + f + 1 = 53 + f by omega, Nat.pow_add]
        nlinarith
    omega
  have hround : roundDiv a (den * 2 ^ f) = 2 ^ 53 :=
    roundDiv_of_rounds hx hlow (by nlinarith) fun h => absurd h (by decide)
  unfold unit at ha
  simp only [ofRatio, ha, hexp, hround, if_true, ofParts, dif_pos hc]

/-- **Rounding a ratio of the interval of a magnitude gives that magnitude.** -/
theorem ofRatio_of_rounds (hden : 0 < den) (hc : Canonical m e) (h : Rounds m e ((num : ℚ) / den))
    (negative : Bool) : ofRatio negative num den = .finite negative m e hc := by
  obtain ⟨hlow, hhigh, hodd⟩ := rounds_ratio hden h
  have hx : 0 < den * 2 ^ e := Nat.mul_pos hden (Nat.two_pow_pos e)
  have hbelow : 4 * m - 2 ≤ 4 * m - below m e := by
    have : below m e ≤ 2 := by unfold below; split <;> omega
    omega
  have hlow2 : (4 * m - 2) * (den * 2 ^ e) ≤ (4 * m - below m e) * 2 ^ e * den :=
    (Nat.mul_le_mul_right _ hbelow).trans (le_of_eq (by ring))
  have hhigh2 : (4 * m + 2) * 2 ^ e * den = (4 * m + 2) * (den * 2 ^ e) := by ring
  rw [hhigh2] at hhigh hodd
  have hupper : num * unit / den < 2 ^ (52 + e + 1) := by
    rw [Nat.div_lt_iff_lt_mul hden, show 52 + e + 1 = 53 + e by omega, Nat.pow_add]
    have h1 : (4 * m + 2) * (den * 2 ^ e) < 4 * 2 ^ 53 * (den * 2 ^ e) :=
      Nat.mul_lt_mul_of_pos_right (by have := hc.1; omega) hx
    nlinarith
  by_cases hbig : 2 ^ (52 + e) ≤ num * unit / den ∨ e = 0
  · refine ofRatio_eq hc negative ?_ ?_
    · rcases hbig with hbig | rfl
      · rw [log2_eq_of_bounds hbig hupper]
        omega
      · by_cases hzero : num * unit / den = 0
        · simp [hzero]
        · have := (Nat.log2_lt hzero).2 hupper
          omega
    · exact roundDiv_of_rounds hx (hlow2.trans hlow) hhigh fun hm =>
        ⟨lt_of_le_of_lt hlow2 (hodd hm).1, (hodd hm).2⟩
  · -- The exponent is one less than that of the magnitude, which is a power of two then.
    obtain ⟨hsmall, he⟩ := not_or.1 hbig
    rw [Nat.not_le, Nat.div_lt_iff_lt_mul hden] at hsmall
    have hm : m = 2 ^ 52 := by
      have hle : 2 ^ 52 ≤ m := hc.2.2.resolve_right he
      by_contra hne
      have h1 : (4 * 2 ^ 52 + 2) * (den * 2 ^ e) ≤ (4 * m - 2) * (den * 2 ^ e) :=
        Nat.mul_le_mul_right _ (by omega)
      have h2 : 2 ^ (52 + e) * den = 2 ^ 52 * (den * 2 ^ e) := by
        rw [Nat.pow_add]
        ring
      nlinarith
    obtain ⟨f, rfl⟩ := Nat.exists_eq_succ_of_ne_zero he
    subst hm
    refine ofRatio_of_below hden hc ?_ hsmall negative
    simpa [below] using hlow

/-! ## Ratios as rationals -/

namespace Ratio

variable {x : Ratio}

def value (x : Ratio) : ℚ := x.num / x.den

theorem le_iff {y : Ratio} (hx : 0 < x.den) (hy : 0 < y.den) :
    x.le y = true ↔ x.value ≤ y.value := by
  have hx' : (0 : ℚ) < x.den := by exact_mod_cast hx
  have hy' : (0 : ℚ) < y.den := by exact_mod_cast hy
  rw [value, value, div_le_div_iff₀ hx' hy', le, decide_eq_true_eq]
  exact_mod_cast Iff.rfl

theorem lt_iff {y : Ratio} (hx : 0 < x.den) (hy : 0 < y.den) :
    x.lt y = true ↔ x.value < y.value := by
  have hx' : (0 : ℚ) < x.den := by exact_mod_cast hx
  have hy' : (0 : ℚ) < y.den := by exact_mod_cast hy
  rw [value, value, div_lt_div_iff₀ hx' hy', lt, decide_eq_true_eq]
  exact_mod_cast Iff.rfl

theorem shift_den_pos (hx : 0 < x.den) (k : Int) : 0 < (x.shift k).den := by
  unfold shift
  split
  · exact hx
  · exact Nat.mul_pos hx (Nat.two_pow_pos _)

theorem scale_den_pos (hx : 0 < x.den) (k : Int) : 0 < (x.scale k).den := by
  unfold scale
  split
  · exact hx
  · exact Nat.mul_pos hx (Nat.pow_pos (by decide))

/-- A power with an exponent of either sign. -/
private theorem zpow_toNat (b : ℚ) {k : Int} (hk : 0 ≤ k) : b ^ k = b ^ k.toNat := by
  rw [← zpow_natCast, Int.toNat_of_nonneg hk]

private theorem zpow_neg_toNat (b : ℚ) {k : Int} (hk : ¬ 0 ≤ k) : b ^ k = (b ^ (-k).toNat)⁻¹ := by
  rw [← zpow_natCast, Int.toNat_of_nonneg (by omega), zpow_neg, inv_inv]

theorem shift_value (x : Ratio) (k : Int) : (x.shift k).value = x.value * 2 ^ k := by
  unfold shift
  split
  · rename_i hk
    rw [zpow_toNat 2 hk, value, value]
    push_cast
    ring
  · rename_i hk
    rw [zpow_neg_toNat 2 hk, value, value]
    push_cast
    field_simp

theorem scale_value (x : Ratio) (k : Int) : (x.scale k).value = x.value * 10 ^ k := by
  unfold scale
  split
  · rename_i hk
    rw [zpow_toNat 10 hk, value, value]
    push_cast
    ring
  · rename_i hk
    rw [zpow_neg_toNat 10 hk, value, value]
    push_cast
    field_simp

end Ratio

private theorem unit_eq : (unit : ℚ) = 2 ^ (1074 : Int) := by
  have h (n : Nat) (hn : unit = 2 ^ n) : (unit : ℚ) = 2 ^ (n : Int) := by rw [hn]; simp
  exact h 1074 unit.eq_1

private theorem unit_pos : (0 : ℚ) < unit := by
  rw [unit_eq]
  exact zpow_pos (by norm_num) _

/-- A quarter of a unit in the last place. -/
private theorem quarter_mul_unit (e : Nat) : (2 : ℚ) ^ ((e : Int) - 1076) * (4 * unit) = 2 ^ e := by
  have hfour : (4 : ℚ) = 2 ^ (2 : Int) := by norm_num
  rw [hfour, unit_eq, ← zpow_add₀ (by norm_num), ← zpow_add₀ (by norm_num), ← zpow_natCast]
  congr 1
  omega

theorem holds_basin_iff {x : Ratio} (hx : 0 < x.den) :
    (basin m e).holds x = true ↔ Rounds m e x.value := by
  have hp : (0 : ℚ) < 4 * unit := mul_pos (by norm_num) unit_pos
  have hden (n : Nat) : 0 < (Ratio.shift ⟨n, 1⟩ ((e : Int) - 1076)).den :=
    Ratio.shift_den_pos Nat.one_pos _
  have hat (n : Nat) : (Ratio.shift ⟨n, 1⟩ ((e : Int) - 1076)).value * (4 * unit) = n * 2 ^ e := by
    rw [Ratio.shift_value, mul_assoc, quarter_mul_unit]
    simp [Ratio.value]
  have hbelow : (if m = 2 ^ 52 && e != 0 then 1 else 2) = below m e := by simp [below]
  have hscale : 4 * (x.value * unit) = x.value * (4 * unit) := by ring
  unfold Basin.holds basin Rounds
  simp only [hbelow, hscale]
  rw [← hat, ← hat]
  simp only [mul_le_mul_iff_left₀ hp, mul_lt_mul_iff_left₀ hp]
  split
  · rename_i heven
    have heven : ¬ m % 2 = 1 := by
      have : m % 2 = 0 := by simpa using heven
      omega
    simp [Ratio.le_iff (hden _) hx, Ratio.le_iff hx (hden _), heven]
  · rename_i hodd
    have hodd : m % 2 = 1 := by
      have : ¬ m % 2 = 0 := by simpa using hodd
      omega
    simp only [Bool.and_eq_true, Ratio.lt_iff (hden _) hx, Ratio.lt_iff hx (hden _), hodd,
      forall_const]
    exact ⟨fun h => ⟨h.1.le, h.2.le, h⟩, fun h => h.2.2⟩

end Binary64

/-! ## The search for the shortest decimal -/

def Decimal.value (d : Decimal) : ℚ := d.digits * 10 ^ d.exponent

namespace Binary64

variable {m e : Nat} {x : Ratio}

private theorem value_scale_nat (d : Nat) (k : Int) :
    (Ratio.scale ⟨d, 1⟩ k).value = (Decimal.mk d k).value := by
  rw [Ratio.scale_value]
  simp [Ratio.value, Decimal.value]

/-- Only decimals of the interval are candidates. -/
private theorem rounds_of_candidate {top : Int} {count : Nat} {d : Decimal}
    (h : candidate? (basin m e) x top count = some d) : Rounds m e d.value := by
  have hat {n : Nat} {k : Int} (hn : (basin m e).holds (Ratio.scale ⟨n, 1⟩ k) = true) :
      Rounds m e (Decimal.mk n k).value := by
    rw [← value_scale_nat]
    exact (holds_basin_iff (Ratio.scale_den_pos Nat.one_pos _)).1 hn
  unfold candidate? at h
  dsimp only at h
  split at h
  · rename_i hboth
    rw [Bool.and_eq_true] at hboth
    obtain rfl := Option.some.inj h
    split
    · exact hat hboth.2
    · exact hat hboth.1
  · split at h
    · rename_i hlow
      obtain rfl := Option.some.inj h
      exact hat hlow
    · split at h
      · rename_i hhigh
        obtain rfl := Option.some.inj h
        exact hat hhigh
      · cases h

/-- A candidate is found when one of the two neighbours is in the interval. -/
private theorem candidate_isSome {top : Int} {count n : Nat}
    (hn : ((x.scale (-(top - count + 1))).num / (x.scale (-(top - count + 1))).den) = n)
    (h : Rounds m e (Decimal.mk n (top - count + 1)).value ∨
      Rounds m e (Decimal.mk (n + 1) (top - count + 1)).value) :
    (candidate? (basin m e) x top count).isSome = true := by
  have hat {n : Nat} {k : Int} (hd : Rounds m e (Decimal.mk n k).value) :
      (basin m e).holds (Ratio.scale ⟨n, 1⟩ k) = true := by
    rw [holds_basin_iff (Ratio.scale_den_pos Nat.one_pos _), value_scale_nat]
    exact hd
  unfold candidate?
  dsimp only
  rw [hn]
  split
  · rfl
  · split
    · rfl
    · split
      · rfl
      · rcases h with h | h <;> simp_all [hat h]

/-! ## Seventeen digits suffice -/

private theorem ten_pow_le_two_pow :
    ∀ j < 1024, 10 ^ (j * 30103 / 100000) ≤ 10 * 2 ^ j := by decide +kernel

private theorem two_pow_le_ten_pow :
    ∀ j < 1075, 2 ^ j ≤ 10 ^ ((j * 30103 + 99999) / 100000 + 1) := by decide +kernel

/-- The estimate of a decimal exponent is too large by one at most. -/
private theorem ten_pow_guess_le {k : Int} (hlow : -1074 ≤ k) (hhigh : k < 1024) :
    (10 : ℚ) ^ ((k * 30103).fdiv 100000 - 1) ≤ 2 ^ k := by
  rw [Int.fdiv_eq_ediv_of_nonneg _ (by decide)]
  by_cases hk : 0 ≤ k
  · obtain ⟨j, rfl⟩ := Int.eq_ofNat_of_zero_le hk
    have h := ten_pow_le_two_pow j (by omega)
    have hguess : (j : Int) * 30103 / 100000 - 1 = ((j * 30103 / 100000 : ℕ) : Int) - 1 := by omega
    have hcast : (10 : ℚ) ^ (j * 30103 / 100000) ≤ 10 * 2 ^ j := by exact_mod_cast h
    rw [hguess, zpow_sub₀ (by norm_num), zpow_natCast, zpow_one, zpow_natCast,
      div_le_iff₀ (by norm_num)]
    linarith
  · obtain ⟨j, rfl⟩ : ∃ j : ℕ, k = -j := ⟨(-k).toNat, by omega⟩
    have h := two_pow_le_ten_pow j (by omega)
    have hguess : -(j : Int) * 30103 / 100000 - 1 =
        -(((j * 30103 + 99999) / 100000 + 1 : ℕ) : Int) := by omega
    have hcast : (2 : ℚ) ^ j ≤ 10 ^ ((j * 30103 + 99999) / 100000 + 1) := by exact_mod_cast h
    rw [hguess, zpow_neg, zpow_neg, zpow_natCast, zpow_natCast]
    exact inv_anti₀ (by positivity) hcast

private theorem log2_shift (hm : m ≠ 0) (k : Int) :
    ((Ratio.shift ⟨m, 1⟩ k).num.log2 : Int) - (Ratio.shift ⟨m, 1⟩ k).den.log2 = m.log2 + k := by
  unfold Ratio.shift
  split
  · rename_i hk
    have hlog : (m * 2 ^ k.toNat).log2 = m.log2 + k.toNat := by
      refine log2_eq_of_bounds ?_ ?_
      · rw [Nat.pow_add]
        exact Nat.mul_le_mul_right _ (Nat.log2_self_le hm)
      · rw [Nat.add_right_comm, Nat.pow_add]
        exact Nat.mul_lt_mul_of_pos_right Nat.lt_log2_self (Nat.two_pow_pos _)
    simp only [hlog]
    have : Nat.log2 1 = 0 := rfl
    omega
  · simp only [Nat.one_mul, Nat.log2_two_pow]
    omega

/-- A magnitude as a ratio. -/
def ratio (m e : Nat) : Ratio := Ratio.shift ⟨m, 1⟩ ((e : Int) - 1074)

theorem ratio_den_pos (m e : Nat) : 0 < (ratio m e).den := Ratio.shift_den_pos Nat.one_pos _

theorem ratio_value (m e : Nat) : (ratio m e).value = m * 2 ^ ((e : Int) - 1074) := by
  rw [ratio, Ratio.shift_value]
  simp [Ratio.value]

private theorem ten_pow_leading_le (hm : m ≠ 0) (hc : Canonical m e) :
    (10 : ℚ) ^ (ratio m e).leading ≤ (ratio m e).value := by
  have hlog : m.log2 < 53 := (Nat.log2_lt hm).2 hc.1
  have he : e ≤ 2045 := hc.2.1
  have hlow : (2 : ℚ) ^ ((m.log2 : Int) + ((e : Int) - 1074)) ≤ (ratio m e).value := by
    rw [ratio_value, zpow_add₀ (by norm_num), zpow_natCast]
    have : ((2 ^ m.log2 : ℕ) : ℚ) ≤ m := by exact_mod_cast Nat.log2_self_le hm
    push_cast at this
    gcongr
  have hat (j : Int) : Ratio.le (Ratio.scale ⟨1, 1⟩ j) (ratio m e) = true →
      (10 : ℚ) ^ j ≤ (ratio m e).value := by
    rw [Ratio.le_iff (Ratio.scale_den_pos Nat.one_pos _) (ratio_den_pos m e), Ratio.scale_value]
    simp [Ratio.value]
  unfold Ratio.leading
  rw [show ((ratio m e).num.log2 : Int) - (ratio m e).den.log2 = _ from log2_shift hm _]
  dsimp only
  split
  · exact hat _ ‹_›
  · split
    · exact hat _ ‹_›
    · exact (ten_pow_guess_le (by omega) (by omega)).trans hlow

/-- Within half a unit in the last place, or a quarter below a power of two, lies the interval. -/
private theorem rounds_of_near {q : ℚ} (hm : m ≠ 0)
    (hlow : ((m : ℚ) - below m e / 4) * 2 ^ ((e : Int) - 1074) < q)
    (hhigh : q < ((m : ℚ) + 1 / 2) * 2 ^ ((e : Int) - 1074)) : Rounds m e q := by
  have hscale : (2 : ℚ) ^ ((e : Int) - 1074) * unit = 2 ^ e := by
    rw [unit_eq, ← zpow_add₀ (by norm_num), ← zpow_natCast]
    congr 1
    omega
  have hbelow : ((4 * m - below m e : ℕ) : ℚ) = 4 * m - below m e := by
    have : below m e ≤ 4 * m := by
      unfold below
      split <;> omega
    push_cast [this]
    ring
  have h1 : ((4 * m - below m e : ℕ) : ℚ) * 2 ^ e < 4 * (q * unit) := by
    rw [hbelow, ← hscale]
    have := mul_lt_mul_of_pos_right hlow unit_pos
    linarith
  have h2 : 4 * (q * unit) < (4 * m + 2 : ℕ) * 2 ^ e := by
    rw [← hscale]
    have := mul_lt_mul_of_pos_right hhigh unit_pos
    push_cast
    linarith
  exact ⟨h1.le, h2.le, fun _ => ⟨h1, h2⟩⟩

/-- The grid of seventeen digits is finer than the interval is wide. -/
private theorem grid_lt (hm : m < 2 ^ 53) {g w : ℚ} (hw : 0 < w) (hg : 10 ^ 16 * g ≤ m * w) :
    g / 2 < below m e / 4 * w ∧ g / 2 < 1 / 2 * w := by
  have hm' : (m : ℚ) < 2 ^ 53 := by exact_mod_cast hm
  have hwide : g < w := by nlinarith
  refine ⟨?_, by linarith⟩
  unfold below
  split
  · rename_i hpow
    have : (m : ℚ) = 2 ^ 52 := by exact_mod_cast hpow.1
    rw [this] at hg
    push_cast
    linarith
  · push_cast
    linarith

private theorem floor_bounds (hx : 0 < x.den) :
    ((x.num / x.den : ℕ) : ℚ) ≤ x.value ∧ x.value < ((x.num / x.den : ℕ) : ℚ) + 1 := by
  have hpos : (0 : ℚ) < x.den := by exact_mod_cast hx
  rw [Ratio.value, le_div_iff₀ hpos, div_lt_iff₀ hpos]
  constructor
  · exact_mod_cast Nat.div_mul_le_self x.num x.den
  · rw [add_one_mul]
    exact_mod_cast Nat.lt_div_mul_add hx

private theorem candidate_seventeen (hm : m ≠ 0) (hc : Canonical m e) :
    (candidate? (basin m e) (ratio m e) (ratio m e).leading 17).isSome = true := by
  generalize htop : (ratio m e).leading = top
  have hlead : (10 : ℚ) ^ top ≤ m * 2 ^ ((e : Int) - 1074) := by
    rw [← htop, ← ratio_value]
    exact ten_pow_leading_le hm hc
  have hfloor := floor_bounds (Ratio.scale_den_pos (ratio_den_pos m e) (-(top - (17 : ℕ) + 1)))
  rw [Ratio.scale_value, ratio_value] at hfloor
  refine candidate_isSome rfl ?_
  generalize (Ratio.scale (ratio m e) (-(top - (17 : ℕ) + 1))).num /
    (Ratio.scale (ratio m e) (-(top - (17 : ℕ) + 1))).den = n at hfloor ⊢
  generalize hw : (2 : ℚ) ^ ((e : Int) - 1074) = w at hlead hfloor
  have hwpos : 0 < w := hw ▸ zpow_pos (by norm_num) _
  have hten : (10 : ℚ) ^ top = 10 ^ 16 * 10 ^ (top - (17 : ℕ) + 1) := by
    rw [← zpow_natCast, ← zpow_add₀ (by norm_num)]
    congr 1
    omega
  have hvalue (d : Nat) :
      (Decimal.mk d (top - (17 : ℕ) + 1)).value = d * 10 ^ (top - (17 : ℕ) + 1) := rfl
  rw [hvalue, hvalue]
  rw [zpow_neg] at hfloor
  rw [hten] at hlead
  generalize hg : (10 : ℚ) ^ (top - (17 : ℕ) + 1) = g at hfloor hlead ⊢
  have hgpos : 0 < g := hg ▸ zpow_pos (by norm_num) _
  rw [← div_eq_mul_inv, le_div_iff₀ hgpos, div_lt_iff₀ hgpos] at hfloor
  obtain ⟨hbelow, habove⟩ := grid_lt (e := e) hc.1 hwpos hlead
  -- The nearer one of the two neighbours is in the interval.
  by_cases hnear : m * w - n * g ≤ g / 2
  · refine .inl (rounds_of_near hm ?_ ?_) <;> rw [hw] <;> nlinarith
  · refine .inr (rounds_of_near hm ?_ ?_) <;> rw [hw] <;> push_cast <;> nlinarith

/-- **The shortest decimal of a magnitude is rounded to it.** -/
theorem shortestMagnitude_rounds (hm : m ≠ 0) (hc : Canonical m e) :
    Rounds m e (shortestMagnitude m e).value := by
  have hfound : ((List.range 17).findSome? fun i =>
      candidate? (basin m e) (ratio m e) (ratio m e).leading (i + 1)).isSome = true := by
    rw [List.findSome?_isSome_iff]
    exact ⟨16, by decide, candidate_seventeen hm hc⟩
  obtain ⟨d, hd⟩ := Option.isSome_iff_exists.1 hfound
  obtain ⟨i, -, hi⟩ := List.exists_of_findSome?_eq_some hd
  have hshort : shortestMagnitude m e = d := by
    unfold shortestMagnitude
    rw [show Ratio.shift ⟨m, 1⟩ ((e : Int) - 1074) = ratio m e from rfl]
    dsimp only
    rw [hd, Option.getD_some]
  rw [hshort]
  exact rounds_of_candidate hi

/-! ## Reading a decimal -/

private theorem two_zpow_le_ten_zpow : (2 : ℚ) ^ (1200 : Int) ≤ 10 ^ (400 : Int) := by
  have h : ((2 : ℚ) ^ 3) ^ 400 ≤ 10 ^ 400 := pow_le_pow_left₀ (by norm_num) (by norm_num) 400
  rwa [← pow_mul, ← zpow_natCast, ← zpow_natCast] at h

/-- What is rounded to a magnitude is neither very small nor very large. -/
private theorem bounds_of_rounds {q : ℚ} (hm : m ≠ 0) (hc : Canonical m e) (h : Rounds m e q) :
    (10 : ℚ) ^ (-400 : Int) < q ∧ q < 10 ^ (400 : Int) := by
  have hunit (k : Int) : (2 : ℚ) ^ k = 2 ^ (k + 1074) / unit := by
    rw [unit_eq, eq_div_iff (zpow_ne_zero _ (by norm_num)), ← zpow_add₀ (by norm_num)]
  have hmono {j k : Int} (hjk : j < k) : (2 : ℚ) ^ j < 2 ^ k :=
    zpow_lt_zpow_right₀ (by norm_num) hjk
  have hq : q = q * unit / unit := (mul_div_cancel_right₀ q unit_pos.ne').symm
  constructor
  · have hlow : (1 : ℚ) / 2 ≤ q * unit := by
      have hone : (1 : ℚ) ≤ 2 ^ e := one_le_pow₀ (by norm_num)
      have htwo : (2 : ℚ) ≤ (4 * m - below m e : ℕ) := by
        have : 2 ≤ 4 * m - below m e := by
          unfold below
          split <;> omega
        exact_mod_cast this
      nlinarith [h.1]
    have hhalf : (2 : ℚ) ^ (-1 : Int) ≤ q * unit := by
      rw [zpow_neg_one, ← one_div]
      exact hlow
    calc (10 : ℚ) ^ (-400 : Int) = (10 ^ (400 : Int))⁻¹ := zpow_neg _ _
      _ ≤ (2 ^ (1200 : Int))⁻¹ := inv_anti₀ (zpow_pos (by norm_num) _) two_zpow_le_ten_zpow
      _ = 2 ^ (-1200 : Int) := (zpow_neg _ _).symm
      _ < 2 ^ (-1075 : Int) := hmono (by norm_num)
      _ = 2 ^ (-1 : Int) / unit := hunit _
      _ ≤ q * unit / unit := div_le_div_of_nonneg_right hhalf unit_pos.le
      _ = q := hq.symm
  · have hhigh : q * unit ≤ 2 ^ (2098 : Int) := by
      have hm53 : (4 * m + 2 : ℚ) ≤ 4 * 2 ^ 53 := by
        have : 4 * m + 2 ≤ 4 * 2 ^ 53 := by
          have := hc.1
          omega
        exact_mod_cast this
      have he : (2 : ℚ) ^ e ≤ 2 ^ (2045 : Int) := by
        rw [← zpow_natCast]
        exact zpow_le_zpow_right₀ (by norm_num) (by exact_mod_cast hc.2.1)
      have hsplit : (2 : ℚ) ^ (2098 : Int) = 2 ^ 53 * 2 ^ (2045 : Int) := by
        rw [← zpow_natCast, ← zpow_add₀ (by norm_num)]
        norm_num
      have hpos : (0 : ℚ) < 2 ^ e := by positivity
      have hscaled := h.2.1
      push_cast at hscaled
      rw [hsplit]
      have := mul_le_mul hm53 he hpos.le (by norm_num)
      linarith
    calc q = q * unit / unit := hq
      _ ≤ 2 ^ (2098 : Int) / unit := div_le_div_of_nonneg_right hhigh unit_pos.le
      _ = 2 ^ (1024 : Int) := (hunit 1024).symm
      _ < 2 ^ (1200 : Int) := hmono (by norm_num)
      _ ≤ 10 ^ (400 : Int) := two_zpow_le_ten_zpow

private theorem value_bounds {d : Decimal} (hd : d.digits ≠ 0) :
    (10 : ℚ) ^ (d.exponent + (Nat.toDigits 10 d.digits).length - 1) ≤ d.value ∧
      d.value < 10 ^ (d.exponent + (Nat.toDigits 10 d.digits).length) := by
  generalize hlen : (Nat.toDigits 10 d.digits).length = len
  have hpos : 0 < len := hlen ▸ Nat.length_toDigits_pos
  have hp : (0 : ℚ) < 10 ^ d.exponent := zpow_pos (by norm_num) _
  have hupper : d.digits < 10 ^ len :=
    (Nat.length_toDigits_le_iff (by decide) hpos).1 hlen.le
  have hlower : 10 ^ (len - 1) ≤ d.digits := by
    by_cases hone : len - 1 = 0
    · rw [hone]
      omega
    · by_contra hlt
      have := (Nat.length_toDigits_le_iff (by decide) (Nat.pos_of_ne_zero hone)).2
        (Nat.lt_of_not_le hlt)
      omega
  constructor
  · rw [add_sub_assoc, add_comm, zpow_add₀ (by norm_num), Decimal.value]
    refine mul_le_mul_of_nonneg_right ?_ hp.le
    rw [show (len : Int) - 1 = ((len - 1 : ℕ) : Int) by omega, zpow_natCast]
    exact_mod_cast hlower
  · rw [add_comm, zpow_add₀ (by norm_num), Decimal.value, zpow_natCast]
    refine mul_lt_mul_of_pos_right ?_ hp
    exact_mod_cast hupper

end Binary64

open Binary64

theorem Decimal.toBinary64_zero (hd : d.digits = 0) (negative : Bool) (hc : Canonical 0 0) :
    d.toBinary64 negative = .finite negative 0 0 hc := by
  unfold Decimal.toBinary64
  rw [if_pos hd]
  exact ofRatio_zero negative hc

theorem Decimal.digits_ne_zero {m e : Nat} (hm : m ≠ 0) (hc : Canonical m e)
    (h : Rounds m e d.value) : d.digits ≠ 0 := by
  intro hzero
  have hpos : (0 : ℚ) < 10 ^ (-400 : Int) := zpow_pos (by norm_num) _
  have hvalue : d.value = 0 := by simp [Decimal.value, hzero]
  linarith [(bounds_of_rounds hm hc h).1]

/-- **A decimal of the interval of a magnitude is read as that magnitude.** -/
theorem Decimal.toBinary64_of_rounds {m e : Nat} (hm : m ≠ 0) (hc : Canonical m e)
    (h : Rounds m e d.value) (negative : Bool) :
    d.toBinary64 negative = .finite negative m e hc := by
  obtain ⟨hlow, hhigh⟩ := bounds_of_rounds hm hc h
  have hd := d.digits_ne_zero hm hc h
  obtain ⟨hl, hu⟩ := value_bounds hd
  have hleast : -400 < d.exponent + (Nat.toDigits 10 d.digits).length :=
    (zpow_lt_zpow_iff_right₀ (by norm_num : (1 : ℚ) < 10)).1 (hlow.trans hu)
  have hmost : d.exponent + (Nat.toDigits 10 d.digits).length - 1 < 400 :=
    (zpow_lt_zpow_iff_right₀ (by norm_num : (1 : ℚ) < 10)).1 (hl.trans_lt hhigh)
  unfold Decimal.toBinary64 Decimal.reach
  dsimp only
  rw [if_neg hd, if_neg (by omega), if_neg (by omega)]
  split
  · rename_i hexp
    refine ofRatio_of_rounds Nat.one_pos hc ?_ negative
    have hvalue : ((d.digits * 10 ^ d.exponent.toNat : ℕ) : ℚ) / (1 : ℕ) = d.value := by
      rw [Decimal.value, Ratio.zpow_toNat 10 hexp]
      simp
    rwa [hvalue]
  · rename_i hexp
    refine ofRatio_of_rounds (Nat.pow_pos (by decide)) hc ?_ negative
    have hvalue : (d.digits : ℚ) / (10 ^ (-d.exponent).toNat : ℕ) = d.value := by
      rw [Decimal.value, Ratio.zpow_neg_toNat 10 hexp]
      simp [div_eq_mul_inv]
    rwa [hvalue]

end Stratagem
