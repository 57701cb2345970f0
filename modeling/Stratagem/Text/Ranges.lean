/-! Membership in a class of characters that is given by closed ranges of code points. -/

namespace Stratagem.Text

/-- The ranges after a code point, from two numbers for each of them: how many code points it leaves
out, and how many it has. -/
def spans (start : Nat) : List Nat → List (Nat × Nat)
  | gap :: count :: rest =>
    let first := start + gap
    (first, first + count - 1) :: spans (first + count) rest
  | _ => []

def inRanges (table : List (Nat × Nat)) (n : Nat) : Bool :=
  table.any fun r => r.1 ≤ n && n ≤ r.2

theorem inRanges_iff {table : List (Nat × Nat)} {n : Nat} :
    inRanges table n = true ↔ ∃ r ∈ table, r.1 ≤ n ∧ n ≤ r.2 := by
  simp [inRanges]

end Stratagem.Text
