import Stratagem.Proofs.Text.Ascii
import Stratagem.Text.Case

/-! Lower case of plain text. The tables of case mappings hold one run below the letters with
accents, the capitals of ASCII, so up to there lower case maps each character for itself. -/

namespace Stratagem

namespace Text

/-- The run of the capitals. -/
def capitals : CaseRun := ⟨0x41, 26, 1, 32⟩

set_option maxRecDepth 1500 in
/-- Below the letters with accents only the capitals change. -/
theorem lowerChar_of_plain {c : Char} (h : c < 'À') : lowerChar c = [c.toLower] := by
  have hruns : ∀ r ∈ lowerRuns.tail, 'À'.toNat ≤ r.first := by decide
  have hlong : ∀ e ∈ lowerLong, 'À'.toNat ≤ e.1 := by decide
  have hhigh : c.toNat < 'À'.toNat := h
  have hnolong : lowerLong.find? (·.1 == c.toNat) = none := by
    rw [List.find?_eq_none]
    intro e he
    have hfirst := hlong e he
    simp only [beq_iff_eq]
    omega
  have hnorun : lowerRuns.tail.find? (·.holds c.toNat) = none := by
    rw [List.find?_eq_none]
    intro r hr
    have hrun := hruns r hr
    simp only [CaseRun.holds, Bool.and_eq_true, decide_eq_true_eq]
    omega
  have hcapitals : lowerRuns = capitals :: lowerRuns.tail := rfl
  have honly : lowerChar c = caseImage [capitals] [] c := by
    rw [lowerChar, caseImage, hnolong, hcapitals]
    simp only [caseImage, List.find?_cons, List.find?_nil, hnorun]
  rw [honly]
  exact forall_plain (P := fun c => caseImage [capitals] [] c = [c.toLower]) (by decide) h

theorem lowerFrom_of_plain {before image cs : List Char} (h : ∀ c ∈ cs, c < 'À') :
    lowerFrom before image cs = image.reverse ++ cs.map Char.toLower := by
  induction cs generalizing before image with
  | nil => simp [lowerFrom]
  | cons c rest ih =>
    obtain ⟨hc, hrest⟩ := List.forall_mem_cons.mp h
    have hsigma : c ≠ 'Σ' := by
      rintro rfl
      exact absurd hc (by decide)
    simp [lowerFrom, hsigma, lowerChar_of_plain hc, ih hrest]

theorem toList_lower_of_plain {s : String} (h : ∀ c ∈ s.toList, c < 'À') :
    (lower s).toList = s.toList.map Char.toLower := by
  rw [lower, lowerFrom_of_plain h, String.toList_ofList, List.reverse_nil, List.nil_append]

end Text

end Stratagem
