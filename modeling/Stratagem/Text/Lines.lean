import Stratagem.Text.Ranges

/-!
Lines of a text. A line ends at a line feed, a carriage return (with or without a line feed), a
vertical tab, a form feed, one of three information separators, a next-line character, or a line
or paragraph separator.
-/

namespace Stratagem.Text

def lineBreaks : List (Nat × Nat) :=
  [(0xa, 0xd), (0x1c, 0x1e), (0x85, 0x85), (0x2028, 0x2029)]

def isLineBreak (c : Char) : Bool := inRanges lineBreaks c.toNat

/-- `line` is the reversed line under way, `done` the finished lines, last one first. -/
def linesFrom (line : List Char) (done : List String) : List Char → List String
  | [] => (if line.isEmpty then done else String.ofList line.reverse :: done).reverse
  | '\r' :: '\n' :: rest => linesFrom [] (String.ofList line.reverse :: done) rest
  | c :: rest =>
    if isLineBreak c then linesFrom [] (String.ofList line.reverse :: done) rest
    else linesFrom (c :: line) done rest

/-- The lines of a text without their ends; a break at the very end opens no further line. -/
def lines (s : String) : List String := linesFrom [] [] s.toList

end Stratagem.Text
