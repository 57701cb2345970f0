import Stratagem.Text.Blank
import Stratagem.Text.Printable

/-!
One-line comments: what cannot be printed becomes a space, runs of blanks become one space, and a
text that is too long is cut and ends in three dots.
-/

namespace Stratagem.Text

/-- Printable words with single spaces between them. -/
def collapse (cs : List Char) : List Char :=
  [' '].intercalate (words (cs.map fun c => if isPrintable c then c else ' '))

/-- Cut a text at `limit` characters, the last three of which are dots if something is lost. A
limit below three counts from the end of the text. -/
def shorten (limit : Int) (cs : List Char) : List Char :=
  if limit < cs.length then
    let kept := if limit < 3 then cs.length - (3 - limit).toNat else (limit - 3).toNat
    cs.take kept ++ ['.', '.', '.']
  else cs

def comment (limit : Int) (s : String) : String :=
  String.ofList (shorten limit (collapse s.toList))

/-- The length comments are cut at. -/
def commentLimit : Int := 120

end Stratagem.Text
