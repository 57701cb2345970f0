import Stratagem.Number.Reading
import Stratagem.Schema.Field
import Stratagem.Text.Blank

/-!
Scalars of a schema, read leniently: numbers may be written as texts, truth values as numbers or
words. What a reading keeps is the value, not the spelling.
-/

namespace Stratagem.Schema

attribute [local instance] corePow

def readText : Value → Checked String
  | .text s => .good s
  | _ => .fault .notText

/-- A text with at least one character. -/
def readNonempty (v : Value) : Checked String :=
  (readText v).andThen fun s => if s.isEmpty then .fault .textEmpty else .good s

/-- Digits with single underscores between them; the digits alone. -/
def groupedDigits? : List Char → Option (List Char)
  | [] => none
  | [c] => if c.isDigit then some [c] else none
  | c :: '_' :: rest => if c.isDigit then (groupedDigits? rest).map (c :: ·) else none
  | c :: rest => if c.isDigit then (groupedDigits? rest).map (c :: ·) else none

/-- Underscores are dropped where they stand between two digits, and nowhere else allowed. -/
def ungrouped? (afterDigit : Bool) : List Char → Option (List Char)
  | [] => some []
  | '_' :: c :: rest =>
    if afterDigit && c.isDigit then (ungrouped? true rest).map (c :: ·) else none
  | '_' :: [] => none
  | c :: rest => (ungrouped? c.isDigit rest).map (c :: ·)

/-- An integer written as a text: a sign, grouped digits, and perhaps a fraction of zeros. -/
def intOfText (s : String) : Checked Int :=
  let cs := Text.trimWhere Text.isSpace s.toList
  let (negative, body) := takeSign cs
  let whole := body.takeWhile (· != '.')
  let zeros := match body.dropWhile (· != '.') with
    | [] => true
    | _ :: fraction => !fraction.isEmpty && fraction.all (· == '0')
  match groupedDigits? whole, zeros with
  | some digits, true =>
    if maxDigits < digits.length then .fault .intTooLarge
    else
      let n : Int := digitsValue digits
      .good (if negative then -n else n)
  | _, _ => .fault .intUnreadable

/-- The integers of 64 bits. -/
def isWord (n : Int) : Bool := -(2 ^ (63 : Nat)) ≤ n && n < 2 ^ (63 : Nat)

/-- An integral number strictly within 64 bits. -/
def intOfFloat (x : Binary64) : Checked Int :=
  if !x.isFinite then .fault .numberNotFinite
  else if !x.isIntegral then .fault .intFraction
  else match x.truncate? with
    | some n => if -(2 ^ (63 : Nat)) < n && n < 2 ^ (63 : Nat) then .good n else .fault .intTooLarge
    | none => .fault .intTooLarge

def readInt : Value → Checked Int
  | .int n => .good n
  | .bool b => .good (if b then 1 else 0)
  | .float x => intOfFloat x
  | .text s => intOfText s
  | _ => .fault .notInt

/-- Words for numbers that are not finite. -/
def floatWord? (word : String) (negative : Bool) : Option Binary64 :=
  if word == "inf" || word == "infinity" then some (.infinite negative)
  else if word == "nan" then some .nan
  else none

/-- A number written as a text: a sign, then a word or a decimal with grouped digits. -/
def floatOfText? (s : String) : Option Binary64 :=
  let (negative, body) := takeSign (Text.trimWhere Text.isSpace s.toList)
  match floatWord? (String.ofList (body.map Char.toLower)) negative with
  | some x => some x
  | none => do
    let plain ← ungrouped? false body
    return (← decimalOnly? plain).toBinary64 negative

def readFloat : Value → Checked Binary64
  | .float x => .good x
  | .int n => match Binary64.ofInt? n with
    | some x => .good x
    | none => .fault .notFloat
  | .bool b => .good (Binary64.ofRatio false (if b then 1 else 0) 1)
  | .text s => match floatOfText? s with
    | some x => .good x
    | none => .fault .floatUnreadable
  | _ => .fault .notFloat

def falseWords : List String := ["0", "off", "f", "false", "n", "no"]

def trueWords : List String := ["1", "on", "t", "true", "y", "yes"]

/-- Zero and one as truth values. -/
def boolOfInt (n : Int) : Checked Bool :=
  if n = 0 then .good false
  else if n = 1 then .good true
  else if isWord n then .fault .boolUnreadable
  else .fault .notBool

def readBool : Value → Checked Bool
  | .bool b => .good b
  | .int n => boolOfInt n
  | .float x => match intOfFloat x with
    | .good n => boolOfInt n
    | .bad _ => .fault .notBool
  | .text s =>
    let word := String.ofList (s.toList.map Char.toLower)
    if falseWords.contains word then .good false
    else if trueWords.contains word then .good true
    else .fault .boolUnreadable
  | _ => .fault .notBool

/-! ## Bounds -/

/-- An integer within bounds. -/
def intWithin (low : Int) (high : Option Int) (n : Int) : Checked Int :=
  match high with
  | some top =>
    if top < n then .fault (.notAtMost (intText top))
    else if n < low then .fault (.notAtLeast (intText low)) else .good n
  | none => if n < low then .fault (.notAtLeast (intText low)) else .good n

/-- A natural number within bounds. -/
def readNat (low : Nat) (high : Option Nat) (v : Value) : Checked Nat :=
  ((readInt v).andThen (intWithin low (high.map Int.ofNat))).map Int.toNat

/-- A number above zero; a NaN is not. -/
def positive (x : Binary64) : Checked Binary64 :=
  if x.gtInt 0 then .good x else .fault (.notGreater "0")

/-- A number that is zero or above. -/
def nonnegative (x : Binary64) : Checked Binary64 :=
  if x.gtInt 0 || x.isZero then .good x else .fault (.notAtLeast "0")

/-- A number that is zero or below. -/
def nonpositive (x : Binary64) : Checked Binary64 :=
  if x.ltInt 0 || x.isZero then .good x else .fault (.notAtMost "0")

/-! ## Names of a closed set -/

/-- A finite type whose members have names. -/
class Named (α : Type) where
  all : List α
  name : α → String

def Named.members (α : Type) [set : Named α] : List α := set.all

def Named.names (α : Type) [Named α] : List String := (Named.members α).map Named.name

def Named.ofName? (α : Type) [Named α] (s : String) : Option α :=
  (Named.members α).find? fun a => Named.name a == s

/-- A member of a closed set by its exact name. -/
def readNamed (α : Type) [Named α] : Value → Checked α
  | .text s => match Named.ofName? α s with
    | some a => .good a
    | none => .fault (.notOneOf (Named.names α))
  | _ => .fault (.notOneOf (Named.names α))

/-! ## Tagged variants -/

/-- Read a variant by its tag, which the places of its faults name. -/
def variant {α τ : Type} [Named τ] (fields : Fields) (read : τ → Checked α) : Checked α :=
  match Fields.get? fields (.text "type") with
  | none => .fault .tagMissing
  | some tag =>
    let shown := tag.plain?.getD ("<unprintable " ++ tag.kind ++ " object>")
    let unknown : Checked α := .fault (.tagUnknown shown (Named.names τ))
    match tag with
    | .text s => match Named.ofName? τ s with
      | some t => (read t).below (.key s)
      | none => unknown
    | _ => unknown

end Stratagem.Schema
