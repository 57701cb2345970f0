import Stratagem.Number.Layout
import Stratagem.Text.Digits
import Stratagem.Text.Word

/-!
Layouts of log lines: text with directives such as `%(name)s`, each replaced by a field of the
record, and a doubled percent sign for one.
-/

namespace Stratagem

/-- One piece of a layout. -/
inductive LogPiece where
  | text (cs : List Char)
  | field (name : String)
  deriving DecidableEq, Repr

/-- The letters that may end a directive, in either case. -/
def conversions : List Char := "diouxefgcrsa%".toList

/-- Other letters that count as an `i` or an `s` where case does not matter. -/
def foreignConversions : List Char := ['\u0130', '\u0131', '\u017f']

def isConversion (c : Char) : Bool :=
  conversions.contains c.toLower || foreignConversions.contains c

def isFlag (c : Char) : Bool := "#0+ -".toList.contains c

/-- What follows a width: a star, or the decimal digits that are there. -/
def afterWidth : List Char → List Char
  | '*' :: rest => rest
  | cs => cs.dropWhile fun c => (Text.decimalValue? c).isSome

/-- What follows a precision: a point with a width that is not empty. -/
def afterPrecision : List Char → List Char
  | '.' :: rest => if afterWidth rest = rest then '.' :: rest else afterWidth rest
  | cs => cs

/-- A directive at the start of a text, and what follows it: a field in parentheses, flags, a width
and a precision, which are passed over, and a letter. -/
def directive? : List Char → Option (String × List Char)
  | '%' :: '(' :: rest =>
    match rest.takeWhile Text.isWord, rest.dropWhile Text.isWord with
    | name@(_ :: _), ')' :: rest =>
      match afterPrecision (afterWidth (rest.dropWhile isFlag)) with
      | c :: rest => if isConversion c then some (String.ofList name, rest) else none
      | [] => none
    | _, _ => none
  | _ => none

/-- Whether a directive starts anywhere in a text. -/
def hasDirective : List Char → Bool
  | [] => false
  | c :: rest => (directive? (c :: rest)).isSome || hasDirective rest

/-- The pieces of a layout; `skip` characters belong to a directive that is done. -/
def logPieces (skip : Nat) : List Char → List LogPiece
  | [] => []
  | c :: rest =>
    match skip with
    | skip + 1 => logPieces skip rest
    | 0 =>
      match directive? (c :: rest) with
      | some (name, after) => .field name :: logPieces (rest.length - after.length) rest
      | none => .text [c] :: logPieces (if [c] ++ rest.take 1 = ['%', '%'] then 1 else 0) rest

/-- The layout of lines when none is given. -/
def bareLayout : String := "%(message)s"

/-- The pieces of a layout, if a directive can be found in it. One that follows a percent sign
counts here, although such a doubled sign stands for itself in the lines. -/
def layoutPieces? (layout : String) : Option (List LogPiece) :=
  let layout := if layout.isEmpty then bareLayout else layout
  if hasDirective layout.toList then some (logPieces 0 layout.toList) else none

/-- A line, given the fields. -/
def logLine (pieces : List LogPiece) (field : String → String) : String :=
  String.join (pieces.map fun
    | .text cs => String.ofList cs
    | .field name => field name)

end Stratagem
