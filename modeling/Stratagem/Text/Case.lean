import Stratagem.Text.CaseTables

/-!
Full case mappings: a character may become several, and a capital sigma at the end of a word
becomes the final small sigma.
-/

namespace Stratagem.Text

def CaseRun.holds (r : CaseRun) (n : Nat) : Bool :=
  r.first ≤ n && n < r.first + r.count * r.stride && (n - r.first) % r.stride == 0

/-- The image of one character under a pair of case tables. -/
def caseImage (runs : List CaseRun) (long : List (Nat × List Nat)) (c : Char) : List Char :=
  match long.find? (·.1 == c.toNat) with
  | some (_, image) => image.map Char.ofNat
  | none =>
    match runs.find? (·.holds c.toNat) with
    | some r => [Char.ofNat (c.toNat + r.distance).toNat]
    | none => [c]

def upperChar (c : Char) : List Char := caseImage upperRuns upperLong c

def lowerChar (c : Char) : List Char := caseImage lowerRuns lowerLong c

def isCased (c : Char) : Bool := inRanges cased c.toNat

def isCaseIgnorable (c : Char) : Bool := inRanges caseIgnorable c.toNat

/-- A sigma is final when a cased letter precedes it and none follows, looking through the
ignorable characters on both sides. `before` is what precedes, nearest character first. -/
def sigmaIsFinal (before after : List Char) : Bool :=
  ((before.dropWhile isCaseIgnorable).head?.any isCased) &&
    !((after.dropWhile isCaseIgnorable).head?.any isCased)

/-- Lower-case `rest`, which follows `before`; `image` is the reversed result so far. -/
def lowerFrom (before image : List Char) : List Char → List Char
  | [] => image.reverse
  | c :: rest =>
    let mapped :=
      if c = 'Σ' then [if sigmaIsFinal before rest then 'ς' else 'σ'] else lowerChar c
    lowerFrom (c :: before) (mapped.reverse ++ image) rest

def upper (s : String) : String := String.ofList (s.toList.flatMap upperChar)

def lower (s : String) : String := String.ofList (lowerFrom [] [] s.toList)

end Stratagem.Text
