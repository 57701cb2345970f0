/-! Letters and digits: as ranges of characters, and decided one by one. All of them lie below the
letters with accents. -/

namespace Stratagem.Text

variable {c : Char}

theorem isUpper_iff : c.isUpper = true ↔ 'A' ≤ c ∧ c ≤ 'Z' := decide_eq_true_iff

theorem isLower_iff : c.isLower = true ↔ 'a' ≤ c ∧ c ≤ 'z' :=
  Bool.and_eq_true_iff.trans (and_congr decide_eq_true_iff decide_eq_true_iff)

theorem isDigit_iff : c.isDigit = true ↔ '0' ≤ c ∧ c ≤ '9' :=
  Bool.and_eq_true_iff.trans (and_congr decide_eq_true_iff decide_eq_true_iff)

theorem isAlpha_iff : c.isAlpha = true ↔ c.isUpper = true ∨ c.isLower = true :=
  Bool.or_eq_true_iff

theorem isAlphanum_iff : c.isAlphanum = true ↔ c.isAlpha = true ∨ c.isDigit = true :=
  Bool.or_eq_true_iff

theorem isAlpha_of_isUpper (h : c.isUpper = true) : c.isAlpha = true := isAlpha_iff.mpr (.inl h)

theorem isAlphanum_of_isUpper (h : c.isUpper = true) : c.isAlphanum = true :=
  isAlphanum_iff.mpr (.inl (isAlpha_of_isUpper h))

theorem lt_of_isAlphanum (h : c.isAlphanum = true) : c < 'À' := by
  simp only [isAlphanum_iff, isAlpha_iff, isUpper_iff, isLower_iff, isDigit_iff, Char.le_def] at h
  rw [Char.lt_def]
  grind

/-- What is seen of the characters below the letters with accents one by one, holds of each. -/
theorem forall_plain {P : Char → Prop} (h : ∀ n < 'À'.toNat, P (Char.ofNat n)) (hc : c < 'À') :
    P c := Char.ofNat_toNat c ▸ h c.toNat hc

theorem small_of_isUpper (h : c.isUpper = true) : (c.isLower || c.isDigit) = false :=
  forall_plain (P := fun c => c.isUpper = true → (c.isLower || c.isDigit) = false)
    (by decide +kernel) (lt_of_isAlphanum (isAlphanum_of_isUpper h)) h

end Stratagem.Text
