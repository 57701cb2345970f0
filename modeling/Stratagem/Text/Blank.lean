import Stratagem.Text.Ranges

/-!
White space. `isSpace` is the property White_Space of the character database; `isBlank` adds the
four information separators and is what words are split and texts are stripped at.
-/

namespace Stratagem.Text

def spaces : List (Nat × Nat) :=
  [(0x9, 0xd), (0x20, 0x20), (0x85, 0x85), (0xa0, 0xa0), (0x1680, 0x1680), (0x2000, 0x200a),
   (0x2028, 0x2029), (0x202f, 0x202f), (0x205f, 0x205f), (0x3000, 0x3000)]

def isSpace (c : Char) : Bool := inRanges spaces c.toNat

def isBlank (c : Char) : Bool := isSpace c || inRanges [(0x1c, 0x1f)] c.toNat

/-- Cut a list at every element that satisfies `p`; the cut elements are dropped. -/
def splitWhere {α : Type} (p : α → Bool) (xs : List α) : List (List α) :=
  xs.foldr (fun x parts =>
    if p x then [] :: parts
    else match parts with
      | [] => [[x]]
      | part :: rest => (x :: part) :: rest) [[]]

/-- The maximal runs without a blank. -/
def words (cs : List Char) : List (List Char) := (splitWhere isBlank cs).filter (! ·.isEmpty)

/-- Drop what satisfies `p` at both ends. -/
def trimWhere (p : Char → Bool) (cs : List Char) : List Char :=
  (((cs.dropWhile p).reverse).dropWhile p).reverse

def strip (s : String) : String := String.ofList (trimWhere isBlank s.toList)

end Stratagem.Text
