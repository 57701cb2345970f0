import Stratagem.Proofs.Number.Nearest
import Stratagem.Proofs.Script.Token

/-! Numbers read back. The digits of a number may be laid out with a point among them, with zeros
around them or with an exponent; each layout is one token, of a decimal with the same value, and so
the text of a number is read as that number. -/

namespace Stratagem

open Script

variable {rest whole ds : List Char}

/-! ## Layouts -/

private theorem floatToken_exponent (whole fraction : List Char) (k : Int)
    (hr : endsNumber rest = true) :
    floatToken whole fraction ('e' :: (if k < 0 then '-' else '+') ::
        (padLeft 2 (Nat.toDigits 10 k.natAbs) ++ rest)) =
      some (.float ((Decimal.ofParts whole fraction k).toBinary64 false), rest) := by
  have hdigits : ∀ c ∈ padLeft 2 (Nat.toDigits 10 k.natAbs), c.isDigit = true := by
    intro c hc
    rcases List.mem_append.1 hc with hc | hc
    · rw [List.eq_of_mem_replicate hc]
      rfl
    · exact isDigit_toDigits _ c hc
  have hvalue : digitsValue (padLeft 2 (Nat.toDigits 10 k.natAbs)) = k.natAbs := by
    rw [padLeft, digitsValue_append, digitsValue_replicate_zero, digitsValue_toDigits]
    simp
  have hne : (padLeft 2 (Nat.toDigits 10 k.natAbs)).isEmpty = false := by
    simp [padLeft, Nat.toDigits_ne_nil]
  have htake := takeDigits_append hdigits (endsNumber_no_digit hr)
  by_cases hk : k < 0
  · rw [if_pos hk, floatToken]
    simp only [takeSign, htake, hne, hvalue, if_true, Bool.false_eq_true, if_false]
    rw [numberToken_of_ends hr, show -(k.natAbs : Int) = k by omega]
  · rw [if_neg hk, floatToken]
    simp only [takeSign, htake, hne, hvalue, Bool.false_eq_true, if_false]
    rw [numberToken_of_ends hr, show (k.natAbs : Int) = k by omega]

private theorem floatToken_plain (whole fraction : List Char) (hr : endsNumber rest = true) :
    floatToken whole fraction rest =
      some (.float ((Decimal.ofParts whole fraction 0).toBinary64 false), rest) := by
  unfold floatToken
  split
  · simp [endsNumber, nameChar] at hr
  · exact numberToken_of_ends hr _

private theorem digitsToken_point {fraction : List Char} (hw : ∀ c ∈ whole, c.isDigit = true)
    (hf : ∀ c ∈ fraction, c.isDigit = true) (hne : fraction ≠ []) (rest : List Char)
    (hr : rest.head?.any Char.isDigit = false) :
    digitsToken (whole ++ '.' :: (fraction ++ rest)) = floatToken whole fraction rest := by
  have hpoint : ('.' :: (fraction ++ rest)).head?.any Char.isDigit = false := rfl
  rw [digitsToken, takeDigits_append hw hpoint]
  simp [takeDigits_append hf hr, hne]

private theorem digitsToken_exponent (hw : ∀ c ∈ whole, c.isDigit = true) (more : List Char) :
    digitsToken (whole ++ 'e' :: more) = floatToken whole [] ('e' :: more) := by
  have hexp : ('e' :: more).head?.any Char.isDigit = false := rfl
  rw [digitsToken, takeDigits_append hw hexp]
  simp

/-- A text is one token, of a decimal of some value. -/
private def ReadsAs (cs : List Char) (q : ℚ) : Prop :=
  ∃ d : Decimal, d.value = q ∧ ∀ rest, endsNumber rest = true →
    digitsToken (cs ++ rest) = some (.float (d.toBinary64 false), rest)

/-- Digits whose leading one has a decimal exponent. -/
private def placed (ds : List Char) (k : Int) : ℚ := digitsValue ds * 10 ^ (k + 1 - ds.length)

private theorem reads_positional {fraction : List Char} (hw : ∀ c ∈ whole, c.isDigit = true)
    (hf : ∀ c ∈ fraction, c.isDigit = true) (hne : fraction ≠ []) :
    ReadsAs (whole ++ '.' :: fraction)
      (digitsValue (whole ++ fraction) * 10 ^ (-(fraction.length : Int))) := by
  refine ⟨Decimal.ofParts whole fraction 0, by simp [Decimal.value, Decimal.ofParts], ?_⟩
  intro rest hr
  rw [List.append_assoc, List.cons_append,
    digitsToken_point hw hf hne rest (endsNumber_no_digit hr),
    floatToken_plain whole fraction hr]

private theorem isDigit_zeros (n : Nat) : ∀ c ∈ List.replicate n '0', c.isDigit = true := by
  intro c hc
  rw [List.eq_of_mem_replicate hc]
  rfl

private theorem isDigit_append {xs ys : List Char} (hx : ∀ c ∈ xs, c.isDigit = true)
    (hy : ∀ c ∈ ys, c.isDigit = true) : ∀ c ∈ xs ++ ys, c.isDigit = true := by
  intro c hc
  exact (List.mem_append.1 hc).elim (hx c) (hy c)

/-- Digits with a point behind the first, unless it is the only one. -/
private def pointed : List Char → List Char
  | d :: d' :: ds => d :: '.' :: d' :: ds
  | ds => ds

/-- With an exponent. -/
private theorem reads_scientific (hd : ∀ c ∈ ds, c.isDigit = true) (hne : ds ≠ []) (k : Int) :
    ReadsAs (pointed ds ++ 'e' :: (if k < 0 then '-' else '+') ::
      padLeft 2 (Nat.toDigits 10 k.natAbs)) (placed ds k) := by
  match ds, hne with
  | [d], _ =>
    refine ⟨Decimal.ofParts [d] [] k, by simp [Decimal.value, Decimal.ofParts, placed], ?_⟩
    intro rest hr
    have h := digitsToken_exponent hd ((if k < 0 then '-' else '+') ::
      (padLeft 2 (Nat.toDigits 10 k.natAbs) ++ rest))
    rw [floatToken_exponent [d] [] k hr] at h
    simpa [pointed] using h
  | d :: d' :: ds, _ =>
    refine ⟨Decimal.ofParts [d] (d' :: ds) k, ?_, ?_⟩
    · have hexp : k - ((d' :: ds).length : Int) = k + 1 - ((d :: d' :: ds).length : Int) := by
        simp only [List.length_cons]
        omega
      rw [Decimal.value, Decimal.ofParts, placed, hexp]
      rfl
    · intro rest hr
      have hwhole : ∀ c ∈ [d], c.isDigit = true := fun c hc => hd c (by simp_all)
      have hfraction : ∀ c ∈ d' :: ds, c.isDigit = true := fun c hc => hd c (by simp_all)
      have h := digitsToken_point hwhole hfraction (by simp)
        ('e' :: (if k < 0 then '-' else '+') :: (padLeft 2 (Nat.toDigits 10 k.natAbs) ++ rest)) rfl
      rw [floatToken_exponent [d] (d' :: ds) k hr] at h
      simpa [pointed] using h

/-- Smaller than one. -/
private theorem reads_small (hd : ∀ c ∈ ds, c.isDigit = true) (hne : ds ≠ []) {k : Int}
    (hk : k < 0) :
    ReadsAs ('0' :: '.' :: List.replicate (-k - 1).toNat '0' ++ ds) (placed ds k) := by
  have hzero : ∀ c ∈ ['0'], c.isDigit = true := isDigit_zeros 1
  have h := reads_positional hzero (isDigit_append (isDigit_zeros (-k - 1).toNat) hd)
    (by simp [hne])
  have hvalue : digitsValue (['0'] ++ (List.replicate (-k - 1).toNat '0' ++ ds)) =
      digitsValue ds := by
    have hone : digitsValue ['0'] = 0 := rfl
    rw [digitsValue_append, digitsValue_append, digitsValue_replicate_zero, hone]
    simp
  have hexp : -((List.replicate (-k - 1).toNat '0' ++ ds).length : Int) = k + 1 - ds.length := by
    rw [List.length_append, List.length_replicate]
    omega
  rw [hvalue, hexp] at h
  exact h

/-- With all digits of the integer part, and zeros if they are not enough. -/
private theorem reads_large (hd : ∀ c ∈ ds, c.isDigit = true) (n : Nat) :
    ReadsAs (ds.take (n + 1) ++ List.replicate (n + 1 - ds.length) '0' ++ '.' ::
      (if (ds.drop (n + 1)).isEmpty then ['0'] else ds.drop (n + 1))) (placed ds n) := by
  have htaken : ∀ c ∈ ds.take (n + 1), c.isDigit = true := fun c hc =>
    hd c (List.mem_of_mem_take hc)
  have hwhole := isDigit_append htaken (isDigit_zeros (n + 1 - ds.length))
  by_cases hlong : n + 1 < ds.length
  · have hne : ds.drop (n + 1) ≠ [] := by
      rw [ne_eq, List.drop_eq_nil_iff]
      omega
    have h := reads_positional hwhole (fun c hc => hd c (List.mem_of_mem_drop hc)) hne
    have hzeros : n + 1 - ds.length = 0 := by omega
    have hexp : -((ds.drop (n + 1)).length : Int) = n + 1 - ds.length := by
      rw [List.length_drop]
      omega
    rw [hzeros, List.replicate_zero, List.append_nil, List.take_append_drop, hexp] at h
    simpa [hzeros, hne, placed] using h
  · have htake : ds.take (n + 1) = ds := List.take_of_length_le (by omega)
    have hdrop : ds.drop (n + 1) = [] := List.drop_of_length_le (by omega)
    have h := reads_positional hwhole (isDigit_zeros 1) (by simp)
    have hvalue : digitsValue (ds.take (n + 1) ++ List.replicate (n + 1 - ds.length) '0' ++
        List.replicate 1 '0') = digitsValue ds * 10 ^ (n + 1 - ds.length + 1) := by
      rw [htake, List.append_assoc, ← List.replicate_add, digitsValue_append,
        digitsValue_replicate_zero, List.length_replicate]
      rfl
    have hscale : ((10 : ℚ) ^ (n + 1 - ds.length + 1)) *
        10 ^ (-((List.replicate 1 '0').length : Int)) =
        10 ^ ((n : Int) + 1 - ds.length) := by
      rw [← zpow_natCast, ← zpow_add₀ (by norm_num)]
      congr 1
      simp only [List.length_replicate]
      omega
    rw [hvalue, Nat.cast_mul, Nat.cast_pow, Nat.cast_ofNat, mul_assoc, hscale] at h
    simpa [hdrop, placed] using h

/-- Digits read back from each layout. -/
private theorem reads_place (hd : ∀ c ∈ ds, c.isDigit = true) (hne : ds ≠ []) (k : Int) :
    ReadsAs (numberLayout.place ds k) (placed ds k) := by
  unfold NumberLayout.place
  split
  · have h := reads_scientific hd hne k
    rcases ds with _ | ⟨d, _ | ⟨d', ds⟩⟩
    · exact absurd rfl hne
    · exact h
    · exact h
  · split
    · exact reads_small hd hne ‹_›
    · obtain ⟨n, rfl⟩ := Int.eq_ofNat_of_zero_le (by omega : 0 ≤ k)
      exact reads_large hd n

private theorem head?_place (hd : ∀ c ∈ ds, c.isDigit = true) (hne : ds ≠ []) (k : Int) :
    (numberLayout.place ds k).head?.any Char.isDigit = true := by
  obtain ⟨d, ds, rfl⟩ := List.exists_cons_of_ne_nil hne
  have hhead : d.isDigit = true := hd d (by simp)
  unfold NumberLayout.place
  split
  · cases ds <;> simpa using hhead
  · split
    · rfl
    · simpa using hhead

/-! ## The digits of a magnitude -/

private theorem zeros_at_end (cs : List Char) : ∃ z, cs =
    (cs.reverse.dropWhile (· == '0')).reverse ++ List.replicate z '0' := by
  refine ⟨(cs.reverse.takeWhile (· == '0')).length, ?_⟩
  have hzeros : cs.reverse.takeWhile (· == '0') =
      List.replicate (cs.reverse.takeWhile (· == '0')).length '0' :=
    List.eq_replicate_of_mem fun c hc => by
      simpa using List.all_eq_true.1 List.all_takeWhile c hc
  have hsplit := List.takeWhile_append_dropWhile (p := (· == '0')) (l := cs.reverse)
  rw [hzeros] at hsplit
  have h := congrArg List.reverse hsplit
  simpa using h.symm

/-- Trailing zeros are left out and counted by the exponent. -/
private theorem significant_spec {d : Decimal} (hd : d.digits ≠ 0) :
    d.significant.1 ≠ [] ∧ (∀ c ∈ d.significant.1, c.isDigit = true) ∧
      placed d.significant.1 d.significant.2 = d.value := by
  obtain ⟨z, hz⟩ := zeros_at_end (Nat.toDigits 10 d.digits)
  have hdigits := isDigit_toDigits d.digits
  have hvalue := digitsValue_toDigits d.digits
  unfold Decimal.significant
  dsimp only
  generalize Nat.toDigits 10 d.digits = all at hz hdigits hvalue ⊢
  generalize (all.reverse.dropWhile (· == '0')).reverse = cut at hz ⊢
  subst hz
  rw [digitsValue_append, digitsValue_replicate_zero, List.length_replicate, Nat.add_zero] at hvalue
  have hne : cut ≠ [] := by
    rintro rfl
    exact hd (by simpa [digitsValue] using hvalue.symm)
  have hempty : cut.isEmpty = false := by simpa using hne
  simp only [hempty, Bool.false_eq_true, if_false]
  refine ⟨hne, fun c hc => hdigits c (by simp [hc]), ?_⟩
  rw [placed, Decimal.value, ← hvalue, Nat.cast_mul, Nat.cast_pow, Nat.cast_ofNat, mul_assoc,
    ← zpow_natCast, ← zpow_add₀ (by norm_num)]
  congr 2
  simp only [List.length_append, List.length_replicate]
  omega

/-- The digits of a magnitude read back as the magnitude. -/
private theorem digitsToken_magnitude {m e : Nat} (hc : Canonical m e) :
    ∃ ds k, (Binary64.finite false m e hc).text.toList = numberLayout.place ds k ∧ ds ≠ [] ∧
      (∀ c ∈ ds, c.isDigit = true) ∧ ∀ rest, endsNumber rest = true →
        digitsToken (numberLayout.place ds k ++ rest) =
          some (.float (.finite false m e hc), rest) := by
  by_cases hm : m = 0
  · subst hm
    obtain rfl : e = 0 := by
      have := hc.2.2
      omega
    refine ⟨['0'], 0, by simp [Binary64.text], by simp, by simp, fun rest hr => ?_⟩
    have hzero : ∀ c ∈ ['0'], c.isDigit = true := isDigit_zeros 1
    have h := digitsToken_point hzero hzero (by simp) rest (endsNumber_no_digit hr)
    rw [floatToken_plain _ _ hr, Decimal.toBinary64_zero rfl false hc] at h
    exact h
  · have hrounds := Binary64.shortestMagnitude_rounds hm hc
    have hd := Decimal.digits_ne_zero hm hc hrounds
    obtain ⟨hne, hdigits, hvalue⟩ := significant_spec hd
    obtain ⟨d, hplaced, hread⟩ := reads_place hdigits hne _
    refine ⟨_, (Binary64.shortestMagnitude m e).significant.2, ?_, hne, hdigits, fun rest hr => ?_⟩
    · simp [Binary64.text, hm]
    · rw [hread rest hr, Decimal.toBinary64_of_rounds hm hc (by rwa [hplaced, hvalue])]

/-- **The text of a number is read as that number.** -/
theorem lex_float {m e : Nat} (hc : Canonical m e) (hr : endsNumber rest = true) :
    lex ((Binary64.finite false m e hc).text.toList ++ rest) =
      (lex rest).map (.float (.finite false m e hc) :: ·) := by
  obtain ⟨ds, k, htext, hne, hdigits, hread⟩ := digitsToken_magnitude hc
  rw [htext]
  exact lex_digits (head?_place hdigits hne k) (hread rest hr)

end Stratagem
