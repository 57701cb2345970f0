import Stratagem.Number.Reading
import Stratagem.Value.Basic
import Stratagem.Yaml.Tag

/-! Values of plain scalars. -/

namespace Stratagem.Yaml

attribute [local instance] corePow

inductive ReadError where
  | malformed
  | tooDeep
  | badScalar (reason : String)
  deriving DecidableEq, Repr

def ReadError.message : ReadError → String
  | .malformed => "not valid YAML"
  | .tooDeep => "nested too deeply"
  | .badScalar reason => reason

def isNegative : List Char → Bool
  | '-' :: _ => true
  | _ => false

def digitValue (c : Char) : Nat :=
  if c.isDigit then c.toNat - '0'.toNat else c.toLower.toNat - 'a'.toNat + 10

def inBase (base : Nat) (cs : List Char) : Nat :=
  cs.foldl (fun n c => n * base + digitValue c) 0

/-- The number with the given places in base sixty. -/
def inBaseSixty (cs : List Char) : Nat :=
  (Text.splitWhere (· = ':') cs).foldl (fun n place => n * 60 + inBase 10 place) 0

def withoutUnderscores (cs : List Char) : List Char := cs.filter (· ≠ '_')

/-- The digits of a decimal integer, or of the first place in base sixty. -/
def decimalDigits (cs : List Char) : List Char :=
  match withoutUnderscores (unsigned cs) with
  | '0' :: _ => []
  | body => body.takeWhile (· ≠ ':')

def intOf (cs : List Char) : Int :=
  let body := withoutUnderscores (unsigned cs)
  let n := match body with
    | '0' :: 'b' :: rest => inBase 2 rest
    | '0' :: 'x' :: rest => inBase 16 rest
    | '0' :: rest => inBase 8 rest
    | body => if body.contains ':' then inBaseSixty body else inBase 10 body
  if isNegative cs then -(n : Int) else n

def floatOf (cs : List Char) : Binary64 :=
  let negative := isNegative cs
  let body := withoutUnderscores (unsigned cs)
  if nanWords.contains (String.ofList body) then .nan
  else if infinityWords.contains (String.ofList body) then .infinite negative
  else if body.contains ':' then
    let whole := body.takeWhile (· ≠ '.')
    let fraction := (body.dropWhile (· ≠ '.')).drop 1
    let den := 10 ^ fraction.length
    Binary64.ofRatio negative (inBaseSixty whole * den + inBase 10 fraction) den
  else match decimalOnly? body with
    | some d => d.toBinary64 negative
    | none => .nan

/-! ## Dates -/

def isLeapYear (y : Nat) : Bool := y % 4 = 0 && (y % 100 ≠ 0 || y % 400 = 0)

def daysIn (y m : Nat) : Nat :=
  if m = 2 then (if isLeapYear y then 29 else 28)
  else if m = 4 || m = 6 || m = 9 || m = 11 then 30 else 31

def checkDate (y m d : Nat) : Except ReadError Unit :=
  if y = 0 then .error (.badScalar "year 0 is out of range")
  else if m = 0 || 12 < m then .error (.badScalar "month must be in 1..12")
  else if d = 0 || daysIn y m < d then .error (.badScalar "day is out of range for month")
  else .ok ()

def checkTime (h m s : Nat) : Except ReadError Unit :=
  if 23 < h then .error (.badScalar "hour must be in 0..23")
  else if 59 < m then .error (.badScalar "minute must be in 0..59")
  else if 59 < s then .error (.badScalar "second must be in 0..59")
  else .ok ()

def numbersText (xs : List Nat) : String := ", ".intercalate (xs.map natText)

def dateOf (cs : List Char) : Except ReadError Value := do
  match (takeDate 2 cs).map fun p => p.1.map (inBase 10) with
  | some [y, m, d] =>
    checkDate y m d
    return .date ("datetime.date(" ++ numbersText [y, m, d] ++ ")")
  | _ => .error .malformed

def momentOf (cs : List Char) : Except ReadError Value := do
  match (takeMoment cs).map fun p => p.1.map (inBase 10) with
  | some [y, mo, d, h, mi, s] =>
    checkDate y mo d
    checkTime h mi s
    let shown := if s = 0 then [y, mo, d, h, mi] else [y, mo, d, h, mi, s]
    return .moment ("datetime.datetime(" ++ numbersText shown ++ ")")
  | _ => .error .malformed

/-- The value of a plain scalar. -/
def plainValue (cs : List Char) : Except ReadError Value :=
  match tagOf cs with
  | .null => .ok .null
  | .bool => .ok (.bool (trueWords.contains (String.ofList cs)))
  | .int =>
    let digits := (decimalDigits cs).length
    if maxDigits < digits then .error (.badScalar (unreadText digits)) else .ok (.int (intOf cs))
  | .float => .ok (.float (floatOf cs))
  | .date => dateOf cs
  | .moment => momentOf cs
  | .merge => .error .malformed
  | .value => .error .malformed
  | .text => .ok (.text (String.ofList cs))

end Stratagem.Yaml
