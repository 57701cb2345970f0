import Stratagem.Compiler.Generate
import Stratagem.Proofs.Document.Reading
import Stratagem.Proofs.Emission.Grouping

/-! The returns table. Its keys are digits, and they stand for minutes if all are decimal digits and
not too many. Then the table can be put in order: the entries stay what they are and go from the
fewest minutes to the most. -/

namespace Stratagem

variable {key : String} {entries : List (String × Binary64)}

/-! ## Keys -/

/-- A text of decimal digits that are no more than a number of minutes may have. -/
def NamesMinutes (key : String) : Prop :=
  (∀ c ∈ key.toList, (Text.decimalValue? c).isSome = true) ∧ key.toList.length ≤ maxDigits

instance (key : String) : Decidable (NamesMinutes key) := inferInstanceAs (Decidable (_ ∧ _))

theorem foldl_decimalValue_isSome (cs : List Char) (start : Option Nat) :
    (cs.foldl (fun acc c => do return (← acc) * 10 + (← Text.decimalValue? c)) start).isSome =
      true ↔ start.isSome = true ∧ ∀ c ∈ cs, (Text.decimalValue? c).isSome = true := by
  induction cs generalizing start with
  | nil => simp
  | cons c rest ih =>
    rw [List.foldl_cons, ih, List.forall_mem_cons, ← and_assoc]
    cases start <;> cases Text.decimalValue? c <;> simp

theorem decimalNumber?_isSome (h : key.isEmpty = false) :
    (Text.decimalNumber? key).isSome = true ↔
      ∀ c ∈ key.toList, (Text.decimalValue? c).isSome = true := by
  rw [Text.decimalNumber?, h, if_neg Bool.false_ne_true, foldl_decimalValue_isSome]
  simp

/-- A key with digits that are not decimal, or with too many of them, stands for no minutes. -/
theorem minutes_hingesOn (h : key.isEmpty = false) :
    HingesOn (fun _ => True) (NamesMinutes key) (minutes key) := by
  have hsome := decimalNumber?_isSome h
  have hleading (hall : ∀ c ∈ key.toList, (Text.decimalValue? c).isSome = true) :
      key.toList.takeWhile (fun c => (Text.decimalValue? c).isSome) = key.toList :=
    List.takeWhile_eq_self_iff.mpr hall
  unfold minutes
  refine ⟨fun n hn => ?_, fun ⟨hall, hlength⟩ => ?_⟩
  · dsimp only at hn
    split at hn
    · cases hn
    · next hfew =>
      split at hn
      · next hnumber =>
        have hall := hsome.mp (by rw [hnumber]; rfl)
        rw [hleading hall] at hfew
        exact ⟨hall, Nat.not_lt.mp hfew⟩
      · cases hn
  · obtain ⟨n, hn⟩ := Option.isSome_iff_exists.mp (hsome.mpr hall)
    rw [hleading hall, hn, if_neg (Nat.not_lt.mpr hlength)]
    exact .ok n

theorem decimalNumber?_of_minutes {n : Nat} (h : minutes key = .ok n) :
    Text.decimalNumber? key = some n := by
  simp only [minutes] at h
  split at h
  · cases h
  · split at h
    · next hnumber =>
      cases h
      exact hnumber
    · cases h

/-! ## Accepted tables -/

open Schema Schema.Checked

theorem readRoi_digits {v : Value} (h : readRoi v = .good entries) :
    ∀ e ∈ entries, Text.isDigits e.1 = true := by
  unfold readRoi at h
  split at h
  · obtain ⟨read, -, hcheck⟩ := andThen_eq_good h
    split at hcheck
    · cases hcheck
    · next hnone =>
      cases hcheck
      simpa using hnone
  · cases h

/-- The keys of an accepted table are digits, if not decimal ones. -/
theorem Parameters.read_digits {v : Value} {p : Parameters} (h : Parameters.read v = .good p) :
    ∀ e ∈ p.minimalRoi, Text.isDigits e.1 = true := by
  obtain ⟨fields, -, hfields⟩ := Parameters.read_eq_good h
  rcases optional_eq_good hfields.minimalRoi with hdefault | ⟨_, _, w, _, _, hread⟩
  · rw [hdefault]
    decide
  · exact readRoi_digits hread

/-! ## Order -/

/-- A key stands for no more minutes than another one. -/
def NoLater (a b : String) : Prop :=
  ∃ m n, Text.decimalNumber? a = some m ∧ Text.decimalNumber? b = some n ∧ m ≤ n

theorem sortedRoi_hingesOn (h : ∀ e ∈ entries, e.1.isEmpty = false) :
    HingesOn (fun _ => True) (∀ e ∈ entries, NamesMinutes e.1) (sortedRoi entries) := by
  have hkeyed : ∀ e ∈ entries, HingesOn (fun _ => True) (NamesMinutes e.1)
      (do return (← minutes e.1, e) : Except RoiError (Nat × String × Binary64)) :=
    fun e he => ((minutes_hingesOn (h e he)).bind fun _ _ => .ok _).congr (and_true _).to_iff
  exact ((HingesOn.mapM hkeyed).bind fun _ _ => .ok _).congr (and_true _).to_iff

/-- A sorted table holds the entries it is made from, in ascending order of their minutes. -/
theorem sortedRoi_eq_ok {sorted : List (String × Binary64)} (h : sortedRoi entries = .ok sorted) :
    sorted.Perm entries ∧ sorted.Pairwise fun a b => NoLater a.1 b.1 := by
  obtain ⟨keyed, hkeyed, hsorted⟩ := exists_of_bind_ok h
  obtain rfl := Except.ok.inj hsorted
  have hforall : List.Forall₂ (fun e k => k.2 = e ∧ Text.decimalNumber? e.1 = some k.1)
      entries keyed := by
    refine ((mapM_eq_ok_iff _ _ _).mp hkeyed).imp fun e k hk => ?_
    obtain ⟨n, hn, hk⟩ := exists_of_bind_ok hk
    cases hk
    exact ⟨rfl, decimalNumber?_of_minutes hn⟩
  have hentries : entries = keyed.map Prod.snd := by
    rw [← List.forall₂_eq_eq_eq, List.forall₂_map_right_iff]
    exact hforall.imp fun e k hk => hk.1.symm
  have hminutes : ∀ k ∈ keyed, Text.decimalNumber? k.2.1 = some k.1 := by
    refine forall_of_forall₂ hforall fun e k hk => ?_
    rw [hk.1]
    exact hk.2
  constructor
  · rw [hentries]
    exact (List.mergeSort_perm keyed _).map _
  · have hpairwise : (keyed.mergeSort fun a b => a.1 ≤ b.1).Pairwise fun a b =>
        decide (a.1 ≤ b.1) = true :=
      List.pairwise_mergeSort (fun a b c => by simpa using Nat.le_trans)
        (fun a b => by simpa using Nat.le_total a.1 b.1) keyed
    refine List.pairwise_map.mpr (hpairwise.imp_of_mem fun {a b} ha hb hab => ?_)
    exact ⟨a.1, b.1, hminutes a (List.mem_mergeSort.mp ha), hminutes b (List.mem_mergeSort.mp hb),
      of_decide_eq_true hab⟩

end Stratagem
