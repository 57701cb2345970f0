import Stratagem.Text.Blank

/-!
Kinds of plain scalars, by the rules of YAML 1.1: a plain scalar is a truth value, a number, null,
a date or a text by its spelling alone.
-/

namespace Stratagem.Yaml

inductive Tag where
  | null | bool | int | float | date | moment | merge | value | text
  deriving DecidableEq, Repr

def trueWords : List String := ["yes", "Yes", "YES", "true", "True", "TRUE", "on", "On", "ON"]

def falseWords : List String :=
  ["no", "No", "NO", "false", "False", "FALSE", "off", "Off", "OFF"]

def nullWords : List String := ["", "~", "null", "Null", "NULL"]

/-- A scalar without its sign. -/
def unsigned : List Char → List Char
  | '+' :: rest => rest
  | '-' :: rest => rest
  | cs => cs

/-- Characters of a class, and underscores. -/
def allGrouped (p : Char → Bool) (cs : List Char) : Bool := cs.all fun c => p c || c = '_'

def isBinaryDigit (c : Char) : Bool := c = '0' || c = '1'

def isOctalDigit (c : Char) : Bool := '0' ≤ c && c ≤ '7'

def isHexDigit (c : Char) : Bool := c.isDigit || ('a' ≤ c && c ≤ 'f') || ('A' ≤ c && c ≤ 'F')

/-- A place in base sixty after the first: one digit, or two below sixty. -/
def isSixtieth : List Char → Bool
  | [d] => d.isDigit
  | [d, e] => '0' ≤ d && d ≤ '5' && e.isDigit
  | _ => false

/-- Places in base sixty, the first of which satisfies `lead`. -/
def isSexagesimal (lead : List Char → Bool) (cs : List Char) : Bool :=
  match Text.splitWhere (· = ':') cs with
  | first :: second :: rest => lead first && (second :: rest).all isSixtieth
  | _ => false

/-- A digit that is not zero, then digits. -/
def isPositiveNumber : List Char → Bool
  | [] => false
  | d :: rest => '1' ≤ d && d ≤ '9' && allGrouped Char.isDigit rest

def isNumber : List Char → Bool
  | [] => false
  | d :: rest => d.isDigit && allGrouped Char.isDigit rest

def isInt (cs : List Char) : Bool :=
  let body := unsigned cs
  isPositiveNumber body || isSexagesimal isPositiveNumber body ||
    match body with
    | ['0'] => true
    | '0' :: 'b' :: d :: rest => allGrouped isBinaryDigit (d :: rest)
    | '0' :: 'x' :: d :: rest => allGrouped isHexDigit (d :: rest)
    | '0' :: d :: rest => allGrouped isOctalDigit (d :: rest)
    | _ => false

/-- Nothing, or an exponent with a sign. -/
def isSignedExponent : List Char → Bool
  | [] => true
  | e :: s :: d :: rest =>
    (e = 'e' || e = 'E') && (s = '+' || s = '-') && (d :: rest).all Char.isDigit
  | _ => false

/-- Digits after the point, then perhaps an exponent. -/
def isFraction (cs : List Char) : Bool :=
  isSignedExponent (cs.dropWhile fun c => c.isDigit || c = '_')

def infinityWords : List String := [".inf", ".Inf", ".INF"]

def nanWords : List String := [".nan", ".NaN", ".NAN"]

def isFloat (cs : List Char) : Bool :=
  let body := unsigned cs
  let whole := body.takeWhile (· ≠ '.')
  infinityWords.contains (String.ofList body) || nanWords.contains (String.ofList cs) ||
    (match body.dropWhile (· ≠ '.') with
    | '.' :: fraction =>
      (isNumber whole && isFraction fraction) ||
        (isSexagesimal isNumber whole && allGrouped Char.isDigit fraction)
    | _ => false) ||
    (match cs with
    | '.' :: d :: rest => d.isDigit && isFraction rest
    | _ => false)

/-- Some digits off the front: at least `least` and at most `most`. -/
def takeBetween (least most : Nat) (cs : List Char) : Option (List Char × List Char) :=
  let digits := (cs.take most).takeWhile Char.isDigit
  if least ≤ digits.length then some (digits, cs.drop digits.length) else none

def takeChar (c : Char) : List Char → Option (List Char)
  | d :: rest => if d = c then some rest else none
  | [] => none

/-- The numbers of a date and what follows them. -/
def takeDate (least : Nat) (cs : List Char) : Option (List (List Char) × List Char) := do
  let (y, cs) ← takeBetween 4 4 cs
  let (m, cs) ← takeBetween least 2 (← takeChar '-' cs)
  let (d, cs) ← takeBetween least 2 (← takeChar '-' cs)
  return ([y, m, d], cs)

def isDate (cs : List Char) : Bool :=
  match takeDate 2 cs with
  | some (_, []) => true
  | _ => false

/-- The offset at the end of a moment. -/
def isZoneOffset (cs : List Char) : Bool :=
  match cs.dropWhile fun c => c = ' ' || c = '\t' with
  | [] => cs.isEmpty
  | ['Z'] => true
  | s :: rest => (s = '+' || s = '-') &&
    match takeBetween 1 2 rest with
    | some (_, []) => true
    | some (_, ':' :: minutes) => minutes.length = 2 && minutes.all Char.isDigit
    | _ => false

/-- What divides the date of a moment from its time of day. -/
def takeDateEnd : List Char → Option (List Char)
  | 'T' :: rest => some rest
  | 't' :: rest => some rest
  | c :: rest =>
    if c = ' ' || c = '\t' then some (rest.dropWhile fun d => d = ' ' || d = '\t') else none
  | [] => none

/-- The numbers of a moment, and what follows its seconds. -/
def takeMoment (cs : List Char) : Option (List (List Char) × List Char) := do
  let (date, cs) ← takeDate 1 cs
  let (h, cs) ← takeBetween 1 2 (← takeDateEnd cs)
  let (m, cs) ← takeBetween 2 2 (← takeChar ':' cs)
  let (s, cs) ← takeBetween 2 2 (← takeChar ':' cs)
  return (date ++ [h, m, s], cs)

def isMoment (cs : List Char) : Bool :=
  match takeMoment cs with
  | some (_, '.' :: rest) => isZoneOffset (rest.dropWhile Char.isDigit)
  | some (_, rest) => isZoneOffset rest
  | none => false

/-- The kind of a plain scalar. -/
def tagOf (cs : List Char) : Tag :=
  let s := String.ofList cs
  if trueWords.contains s || falseWords.contains s then .bool
  else if isFloat cs then .float
  else if isInt cs then .int
  else if s == "<<" then .merge
  else if nullWords.contains s then .null
  else if isDate cs then .date
  else if isMoment cs then .moment
  else if s == "=" then .value
  else .text

end Stratagem.Yaml
