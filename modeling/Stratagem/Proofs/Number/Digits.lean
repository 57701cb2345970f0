import Mathlib.Data.Nat.Digits.Lemmas
import Stratagem.Number.Layout
import Stratagem.Number.Reading

/-! Decimal digits read back: the digits that write a number are digits, have that number as their
value, and are taken off the front of a text as a whole when no digit follows. -/

namespace Stratagem

theorem digitsValue_concat (xs : List Char) (c : Char) :
    digitsValue (xs ++ [c]) = digitsValue xs * 10 + (c.toNat - 48) := by
  simp [digitsValue]

theorem digitsValue_append (xs ys : List Char) :
    digitsValue (xs ++ ys) = digitsValue xs * 10 ^ ys.length + digitsValue ys := by
  induction ys using List.reverseRecOn with
  | nil => simp [digitsValue]
  | append_singleton ys c ih =>
    rw [← List.append_assoc, digitsValue_concat, digitsValue_concat, ih, List.length_append,
      List.length_singleton, pow_succ]
    ring

theorem digitsValue_replicate_zero (n : Nat) : digitsValue (List.replicate n '0') = 0 := by
  induction n with
  | zero => rfl
  | succ n ih => simpa [List.replicate_succ, digitsValue] using ih

theorem digitsValue_toDigits (n : Nat) : digitsValue (Nat.toDigits 10 n) = n := by
  have h := Nat.ofDigitChars_ten_toDigits (n := n)
  rw [Nat.ofDigitChars_eq_foldl] at h
  simpa [digitsValue, Nat.mul_comm] using h

/-- Too many digits are those of a number from a power of ten on. -/
theorem isLong_iff (n : Int) : isLong n = true ↔ 10 ^ maxDigits ≤ n.natAbs := by
  have h := Nat.length_toDigits_le_iff (b := 10) (n := n.natAbs) (by decide)
    (by decide : 0 < maxDigits)
  rw [isLong, digitCount, decide_eq_true_iff, ← Nat.not_lt, ← h, Nat.not_le]

/-- The least integer that cannot be written. -/
def overlong : Int := 10 ^ maxDigits

theorem isLong_overlong : isLong overlong = true := by
  have hten : Int.natAbs 10 = 10 := rfl
  rw [isLong_iff, overlong, Int.natAbs_pow, hten]

theorem isDigit_toDigits (n : Nat) : ∀ c ∈ Nat.toDigits 10 n, c.isDigit = true :=
  fun _ hc => Nat.isDigit_of_mem_toDigits (by decide) (by decide) hc

theorem head?_toDigits {n : Nat} (hn : n ≠ 0) : (Nat.toDigits 10 n).head? ≠ some '0' := by
  induction n using Nat.strongRecOn with
  | ind n ih =>
    by_cases h : n < 10
    · rw [Nat.toDigits_of_lt_base h]
      have hd : ∀ d < 10, d ≠ 0 → Nat.digitChar d ≠ '0' := by decide
      simpa using hd n h hn
    · rw [Nat.toDigits_of_base_le (by decide) (by omega),
        List.head?_append_of_ne_nil _ Nat.toDigits_ne_nil]
      exact ih (n / 10) (by omega) (by omega)

theorem takeDigits_append {ds rest : List Char} (hd : ∀ c ∈ ds, c.isDigit = true)
    (hr : rest.head?.any Char.isDigit = false) : takeDigits (ds ++ rest) = (ds, rest) := by
  rw [takeDigits, List.takeWhile_append_of_pos hd, List.dropWhile_append_of_pos hd]
  cases rest with
  | nil => simp
  | cons c rest =>
    have hc : c.isDigit = false := by simpa using hr
    simp [hc]

end Stratagem
