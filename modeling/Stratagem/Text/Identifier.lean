import Stratagem.Text.Blank
import Stratagem.Text.Case

/-!
Spellings of names: words joined by underscores in lower case, or joined without anything and each
with a capital. Letters and digits are those of ASCII.
-/

namespace Stratagem.Text

/-- Put an underscore before a capital that starts a word of lower-case letters. -/
def breakWords : List Char → List Char
  | c :: d :: rest =>
    if c ≠ '\n' ∧ d.isUpper ∧ (rest.head?.any Char.isLower) then
      c :: '_' :: d :: (rest.takeWhile Char.isLower ++ breakWords (rest.dropWhile Char.isLower))
    else c :: breakWords (d :: rest)
  | cs => cs
termination_by cs => cs.length
decreasing_by
  · have := (List.dropWhile_suffix (l := rest) Char.isLower).length_le
    simp only [List.length_cons]
    omega
  · simp

/-- Put an underscore between a lower-case letter or a digit and a capital. -/
def breakHumps : List Char → List Char
  | c :: d :: rest =>
    if (c.isLower || c.isDigit) ∧ d.isUpper then c :: '_' :: d :: breakHumps rest
    else c :: breakHumps (d :: rest)
  | cs => cs

/-- Lower case with underscores between the words. -/
def snakeCase (s : String) : String :=
  lower (String.ofList ((breakHumps (breakWords s.toList)).map fun c =>
    if c = '-' || c = ' ' then '_' else c))

def capitalized : List Char → List Char
  | [] => []
  | c :: rest => c.toUpper :: rest

/-- The words of letters and digits, each with a capital, and nothing between them. -/
def pascalCase (s : String) : String :=
  String.ofList ((splitWhere (! ·.isAlphanum) s.toList).flatMap capitalized)

/-- A text without the line feed at its end, if it has one. -/
def chomp (cs : List Char) : List Char :=
  match cs.getLast? with
  | some '\n' => cs.dropLast
  | _ => cs

end Stratagem.Text
