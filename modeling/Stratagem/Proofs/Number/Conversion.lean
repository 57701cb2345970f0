import Stratagem.Proofs.Number.Nearest

/-! Integers as floats. The float of an integer is nearest to it among all finite floats, and there
is none exactly from the middle of the last gap below `2 ^ 1024` on. Everything is counted in units
of `2 ^ -1074`, in which both are integers. -/

namespace Stratagem

/-! ## Division to the nearest integer -/

/-- A rounded quotient is at most a half off. -/
theorem roundDiv_half (num : Nat) {den : Nat} (hden : 0 < den) :
    2 * |(num : Int) - roundDiv num den * den| ≤ den := by
  obtain ⟨q, r, rfl, hr, ⟨h, hhalf, -⟩ | ⟨h, hhalf, -⟩⟩ := Binary64.roundDiv_cases num hden
  · have hlow : ((den * q + r : Nat) : Int) - q * den = r := by
      push_cast
      ring
    rw [h, hlow, abs_of_nonneg (by omega)]
    omega
  · have hhigh : ((den * q + r : Nat) : Int) - (q + 1 : Nat) * den = r - den := by
      push_cast
      ring
    rw [h, hhigh, abs_of_nonpos (by omega)]
    omega

/-- No multiple of the divisor is nearer than that by the rounded quotient. -/
theorem roundDiv_nearest (num k : Nat) {den : Nat} (hden : 0 < den) :
    |(num : Int) - roundDiv num den * den| ≤ |(num : Int) - k * den| := by
  have hhalf := roundDiv_half num hden
  generalize roundDiv num den = m at hhalf
  by_cases hk : k = m
  · rw [hk]
  · have hgap : (den : Int) ≤ |((k : Int) - m) * den| := by
      rw [abs_mul, Nat.abs_cast]
      have : 1 ≤ |(k : Int) - m| := Int.one_le_abs (by omega)
      nlinarith
    have htriangle : |((k : Int) - m) * den| ≤
        |(num : Int) - m * den| + |(num : Int) - k * den| := by
      have hsplit : ((k : Int) - m) * den = ((num : Int) - m * den) - (num - k * den) := by ring
      rw [hsplit]
      exact abs_sub _ _
    omega

/-- From the middle before an even number on, a quotient is rounded to it or further. -/
theorem le_roundDiv_iff {num den k : Nat} (hden : 0 < den) (hk : k % 2 = 0) (hpos : 0 < k) :
    k ≤ roundDiv num den ↔ (2 * k - 1) * den ≤ 2 * num := by
  obtain ⟨q, r, rfl, hr, hcases⟩ := Binary64.roundDiv_cases num hden
  generalize roundDiv (den * q + r) den = m at hcases
  obtain ⟨j, rfl⟩ : ∃ j, k = j + 1 := ⟨k - 1, by omega⟩
  have hmiddle : (2 * (j + 1) - 1) * den = 2 * (den * j) + den := by
    rw [show 2 * (j + 1) - 1 = 2 * j + 1 by omega]
    ring
  rw [hmiddle]
  -- Only the number right after the quotient depends on the remainder.
  rcases Nat.lt_trichotomy j q with hj | rfl | hj
  · have hless : den * (j + 1) ≤ den * q := Nat.mul_le_mul_left den hj
    rw [Nat.mul_succ] at hless
    omega
  · omega
  · have hmore : den * (q + 1) ≤ den * j := Nat.mul_le_mul_left den hj
    rw [Nat.mul_succ] at hmore
    omega

theorem div_le_roundDiv (num den : Nat) :
    num / den ≤ roundDiv num den ∧ roundDiv num den ≤ num / den + 1 := by
  unfold roundDiv
  dsimp only
  split <;> [skip; split <;> [skip; split]] <;> omega

namespace Binary64

/-! ## Magnitudes -/

theorem zero_lt_unit : 0 < unit := by
  unfold unit
  positivity

/-- The exponent that an integral number of units is rounded at. -/
def exponentOf (units : Nat) : Nat := units.log2 - 52

/-- An integral number of units, rounded to a magnitude. -/
def rounded (units : Nat) : Nat := roundDiv units (2 ^ exponentOf units) * 2 ^ exponentOf units

theorem exponentOf_cases (units : Nat) :
    exponentOf units = 0 ∨ 2 ^ (52 + exponentOf units) ≤ units := by
  unfold exponentOf
  by_cases hlog : units.log2 ≤ 52
  · exact .inl (by omega)
  · refine .inr ?_
    rw [show 52 + (units.log2 - 52) = units.log2 by omega]
    refine Nat.log2_self_le ?_
    rintro rfl
    simp at hlog

/-- No magnitude is nearer than the rounded one. A magnitude of a smaller exponent is not above the
power of two below the number, which is a multiple of the divisor as well. -/
theorem rounded_nearest (units : Nat) {m e : Nat} (hc : Canonical m e) :
    |(units : Int) - rounded units| ≤ |(units : Int) - (m * 2 ^ e : Nat)| := by
  have hnear (k : Nat) : |(units : Int) - rounded units| ≤
      |(units : Int) - (k * 2 ^ exponentOf units : Nat)| := by
    have h := roundDiv_nearest units k (Nat.two_pow_pos (exponentOf units))
    rw [rounded]
    exact_mod_cast h
  by_cases he : exponentOf units ≤ e
  · have hsplit : m * 2 ^ e = m * 2 ^ (e - exponentOf units) * 2 ^ exponentOf units := by
      rw [Nat.mul_assoc, ← Nat.pow_add, Nat.sub_add_cancel he]
    rw [hsplit]
    exact hnear _
  · have hbelow : m * 2 ^ e ≤ 2 ^ 52 * 2 ^ exponentOf units := by
      obtain ⟨f, hf⟩ : ∃ f, exponentOf units = e + 1 + f :=
        ⟨_, (Nat.add_sub_cancel' (by omega)).symm⟩
      rw [hf, Nat.pow_add, Nat.pow_add]
      have hm : m ≤ 2 ^ 53 := hc.1.le
      have hpos := Nat.two_pow_pos e
      have hone := Nat.one_le_two_pow (n := f)
      calc m * 2 ^ e ≤ 2 ^ 53 * 2 ^ e := Nat.mul_le_mul_right _ hm
        _ = 2 ^ 52 * (2 ^ e * 2 ^ 1) := by ring
        _ ≤ 2 ^ 52 * (2 ^ e * 2 ^ 1 * 2 ^ f) :=
          Nat.mul_le_mul_left _ (Nat.le_mul_of_pos_right _ (Nat.two_pow_pos f))
    have hunits : 2 ^ 52 * 2 ^ exponentOf units ≤ units := by
      rw [← Nat.pow_add]
      exact (exponentOf_cases units).resolve_left (by omega)
    refine (hnear (2 ^ 52)).trans ?_
    rw [abs_of_nonneg (by omega), abs_of_nonneg (by omega)]
    omega

theorem rounded_within (units : Nat) : |(units : Int) - rounded units| ≤ units := by
  have hzero : Canonical 0 0 := by decide
  simpa using rounded_nearest units hzero

/-! ## Integers -/

theorem ofRatio_one (negative : Bool) (a : Nat) :
    ofRatio negative a 1 =
      if roundDiv (a * unit) (2 ^ exponentOf (a * unit)) = 2 ^ 53 then
        ofParts negative (2 ^ 52) (exponentOf (a * unit) + 1)
      else ofParts negative (roundDiv (a * unit) (2 ^ exponentOf (a * unit)))
        (exponentOf (a * unit)) := by
  have hscaled : a * 2 ^ 1074 = a * unit := by rw [unit]
  simp only [ofRatio, hscaled, exponentOf, Nat.div_one, Nat.one_mul]
  rfl

theorem ofParts_eq_finite {negative negative' : Bool} {m e m' e' : Nat} {hc : Canonical m' e'}
    (h : ofParts negative m e = .finite negative' m' e' hc) :
    negative' = negative ∧ m' = m ∧ e' = e := by
  unfold ofParts at h
  split at h
  · cases h
    exact ⟨rfl, rfl, rfl⟩
  · cases h

theorem ofRatio_eq_finite {negative negative' : Bool} {a m e : Nat} {hc : Canonical m e}
    (h : ofRatio negative a 1 = .finite negative' m e hc) :
    negative' = negative ∧ m * 2 ^ e = rounded (a * unit) := by
  rw [ofRatio_one] at h
  rw [rounded]
  split at h
  · next hcarry =>
    obtain ⟨hsign, hm, he⟩ := ofParts_eq_finite h
    refine ⟨hsign, ?_⟩
    rw [hcarry, hm, he]
    ring
  · obtain ⟨hsign, hm, he⟩ := ofParts_eq_finite h
    exact ⟨hsign, by rw [hm, he]⟩

theorem ofInt?_eq_some {n : Int} {x : Binary64} (h : ofInt? n = some x) :
    ofRatio (n < 0) n.natAbs 1 = x ∧ x.isFinite = true := by
  unfold ofInt? at h
  dsimp only at h
  split at h
  · next hfinite =>
    cases h
    exact ⟨rfl, hfinite⟩
  · cases h

/-- Numbers of units with a sign. -/
def withSign (negative : Bool) (units : Nat) : Int := if negative then -(units : Int) else units

theorem withSign_nearest {a r v : Nat} (hzero : |(a : Int) - r| ≤ a)
    (hnear : |(a : Int) - r| ≤ |(a : Int) - v|) (negative negative' : Bool) :
    |withSign negative a - withSign negative r| ≤ |withSign negative a - withSign negative' v| := by
  simp only [Int.abs_eq_natAbs] at *
  cases negative <;> cases negative' <;>
    simp only [withSign, Bool.false_eq_true, if_true, if_false] <;> omega

/-- **The float of an integer is nearest to it.** -/
theorem ofInt?_nearest {n : Int} {x y : Binary64} {u v : Int} (h : ofInt? n = some x)
    (hu : x.units? = some u) (hv : y.units? = some v) : |n * unit - u| ≤ |n * unit - v| := by
  obtain ⟨hx, -⟩ := ofInt?_eq_some h
  cases x with
  | nan => cases hu
  | infinite negative => cases hu
  | finite negative m e hc =>
    cases y with
    | nan => cases hv
    | infinite negative => cases hv
    | finite negative' m' e' hc' =>
      obtain ⟨hsign, hrounded⟩ := ofRatio_eq_finite hx
      have hu : withSign negative (rounded (n.natAbs * unit)) = u := by
        rw [← hrounded]
        exact Option.some.inj hu
      have hv : withSign negative' (m' * 2 ^ e') = v := Option.some.inj hv
      have hn : withSign negative (n.natAbs * unit) = n * unit := by
        rw [hsign, withSign, Int.natCast_mul]
        by_cases hneg : n < 0
        · rw [if_pos (decide_eq_true hneg), Int.ofNat_natAbs_of_nonpos hneg.le, neg_mul, neg_neg]
        · rw [if_neg (by simpa using hneg), Int.natAbs_of_nonneg (by omega)]
      rw [← hn, ← hu, ← hv]
      exact withSign_nearest (rounded_within _) (rounded_nearest _ hc') negative negative'

/-! ## The range -/

theorem isFinite_ofParts (negative : Bool) (m e : Nat) :
    (ofParts negative m e).isFinite = true ↔ Canonical m e := by
  unfold ofParts
  split <;> simp_all [isFinite]

/-- A rounded quotient has 53 bits, fewer at the least exponent, or is the next power of two. -/
theorem roundDiv_exponentOf (units : Nat) :
    (2 ^ 52 ≤ roundDiv units (2 ^ exponentOf units) ∨ exponentOf units = 0) ∧
      roundDiv units (2 ^ exponentOf units) ≤ 2 ^ 53 := by
  have hpos := Nat.two_pow_pos (exponentOf units)
  obtain ⟨hlow, hhigh⟩ := div_le_roundDiv units (2 ^ exponentOf units)
  constructor
  · refine (exponentOf_cases units).symm.imp_left fun hunits => le_trans ?_ hlow
    rwa [Nat.le_div_iff_mul_le hpos, ← Nat.pow_add]
  · have hunits : units < 2 ^ 53 * 2 ^ exponentOf units := by
      rw [← Nat.pow_add]
      refine Nat.lt_log2_self.trans_le (Nat.pow_le_pow_right (by decide) ?_)
      unfold exponentOf
      omega
    have := (Nat.div_lt_iff_lt_mul hpos).mpr hunits
    omega

theorem isFinite_ofRatio (negative : Bool) (a : Nat) :
    (ofRatio negative a 1).isFinite = true ↔
      exponentOf (a * unit) < 2045 ∨ exponentOf (a * unit) = 2045 ∧
        ¬ 2 ^ 53 ≤ roundDiv (a * unit) (2 ^ exponentOf (a * unit)) := by
  obtain ⟨hlow, hhigh⟩ := roundDiv_exponentOf (a * unit)
  rw [ofRatio_one]
  generalize roundDiv (a * unit) (2 ^ exponentOf (a * unit)) = m at hlow hhigh
  generalize exponentOf (a * unit) = e at hlow
  split <;> rw [isFinite_ofParts, Canonical] <;> omega

/-- The exponent of a number of units between two powers of two. -/
theorem exponentOf_lt_iff {units e : Nat} (hunits : units ≠ 0) (he : 0 < e) :
    exponentOf units < e ↔ units < 2 ^ (52 + e) := by
  rw [← Nat.log2_lt hunits, exponentOf]
  omega

/-- From the middle between the greatest magnitude of an exponent and the next power of two on,
rounding exceeds that exponent. -/
theorem exponent_within_iff (units top : Nat) :
    (exponentOf units < top + 1 ∨ exponentOf units = top + 1 ∧
      ¬ 2 ^ 53 ≤ roundDiv units (2 ^ exponentOf units)) ↔ units < (2 ^ 54 - 1) * 2 ^ top := by
  have hpos := Nat.two_pow_pos top
  by_cases hunits : units = 0
  · have hzero : exponentOf 0 = 0 := rfl
    simp [hunits, hzero]
  · have hless := exponentOf_lt_iff hunits (Nat.succ_pos top)
    have hmore := exponentOf_lt_iff hunits (Nat.succ_pos (top + 1))
    rw [show 52 + (top + 1) = 53 + top by omega, Nat.pow_add] at hless
    rw [show 52 + (top + 1 + 1) = 54 + top by omega, Nat.pow_add] at hmore
    rcases Nat.lt_trichotomy (exponentOf units) (top + 1) with he | he | he
    · have := hless.mp he
      simp only [he, true_or, true_iff]
      omega
    · have hmiddle : 2 ^ 53 ≤ roundDiv units (2 ^ (top + 1)) ↔
          (2 * 2 ^ 53 - 1) * 2 ^ (top + 1) ≤ 2 * units :=
        le_roundDiv_iff (Nat.two_pow_pos (top + 1)) (by decide) (by decide)
      rw [he, hmiddle, Nat.pow_succ]
      omega
    · omega

/-- **Which integers have a float.** -/
theorem ofInt?_eq_none_iff (n : Int) :
    ofInt? n = none ↔ (2 ^ 54 - 1) * 2 ^ 970 ≤ n.natAbs := by
  have hunit (j k : Nat) (hk : unit = 2 ^ k) :
      (2 ^ 54 - 1) * 2 ^ (j + k) = (2 ^ 54 - 1) * 2 ^ j * unit := by
    rw [hk, Nat.pow_add, Nat.mul_assoc]
  have hfinite := (isFinite_ofRatio (n < 0) n.natAbs).trans
    (exponent_within_iff (n.natAbs * unit) (970 + 1074))
  rw [hunit 970 1074 unit.eq_1, Nat.mul_lt_mul_right zero_lt_unit] at hfinite
  unfold ofInt?
  dsimp only
  split
  · next h => simpa using hfinite.mp h
  · next h => simpa using hfinite.not.mp h

end Binary64

end Stratagem
