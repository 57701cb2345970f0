import Stratagem.Number.Reading
import Stratagem.Text.Quoted

/-!
Lexical items of JSON text. Each item knows the offset it starts at. A character that starts no
item, and a text literal with a fault in it, become items too: whether they are an error, and
which, depends on what the grammar expects there.
-/

namespace Stratagem.Json

/-- What can be wrong with a JSON text. -/
inductive Fault where
  | expectingValue
  | expectingName
  | expectingColon
  | expectingComma
  | extraData
  | unterminated
  | control
  | escape
  | unicodeEscape
  | byteOrderMark
  deriving DecidableEq, Repr

def Fault.message : Fault → String
  | .expectingValue => "Expecting value"
  | .expectingName => "Expecting property name enclosed in double quotes"
  | .expectingColon => "Expecting ':' delimiter"
  | .expectingComma => "Expecting ',' delimiter"
  | .extraData => "Extra data"
  | .unterminated => "Unterminated string starting at"
  | .control => "Invalid control character at"
  | .escape => "Invalid \\escape"
  | .unicodeEscape => "Invalid \\uXXXX escape"
  | .byteOrderMark => "Unexpected UTF-8 BOM (decode using utf-8-sig)"

/-- A scalar other than a text. -/
inductive Atom where
  | null
  | bool (b : Bool)
  | int (n : Int)
  | float (x : Binary64)

inductive Token where
  | openList
  | closeList
  | openObject
  | closeObject
  | comma
  | colon
  | atom (a : Atom)
  | text (s : String)
  | badText (fault : Fault) (offset : Nat)
  | stray

def hexValue? (c : Char) : Option Nat :=
  let n := c.toNat
  if 48 ≤ n && n ≤ 57 then some (n - 48)
  else if 97 ≤ n && n ≤ 102 then some (n - 87)
  else if 65 ≤ n && n ≤ 70 then some (n - 55)
  else none

def hexNumber? (cs : List Char) : Option Nat :=
  cs.foldl (fun acc c => do return (← acc) * 16 + (← hexValue? c)) (some 0)

/-- A code point; half of a surrogate pair alone is replaced. -/
def scalarOf (n : Nat) : Char :=
  if 0xd800 ≤ n && n ≤ 0xdfff then Char.ofNat 0xfffd else Char.ofNat n

def isHighSurrogate (n : Nat) : Bool := 0xd800 ≤ n && n ≤ 0xdbff

def isLowSurrogate (n : Nat) : Bool := 0xdc00 ≤ n && n ≤ 0xdfff

/-- An escape: the characters it stands for, last one first, and its length after the backslash;
or its fault, and how far after the backslash that is reported. -/
inductive Escape where
  | chars (cs : List Char) (length : Nat)
  | bad (fault : Fault) (shift : Nat)

/-- Four hexadecimal digits at the front. -/
def hexFour? : List Char → Option Nat
  | a :: b :: c :: d :: _ => hexNumber? [a, b, c, d]
  | _ => none

/-- The second half of a surrogate pair, if an escape with four digits follows. -/
def secondHalf (high : Nat) (rest : List Char) : Escape :=
  match rest with
  | '\\' :: 'u' :: digits =>
    if (digits.drop 4).isEmpty then .chars [scalarOf high] 5
    else match hexFour? digits with
      | none => .bad .unicodeEscape 7
      | some low =>
        if isLowSurrogate low then
          .chars [Char.ofNat (0x10000 + (high - 0xd800) * 0x400 + (low - 0xdc00))] 11
        else .chars [scalarOf high] 5
  | _ => .chars [scalarOf high] 5

/-- The escape that follows a backslash. -/
def scanEscape : List Char → Escape
  | 'u' :: digits =>
    if (digits.drop 4).isEmpty then .bad .unicodeEscape 1
    else match hexFour? digits with
      | none => .bad .unicodeEscape 1
      | some n => if isHighSurrogate n then secondHalf n (digits.drop 4) else .chars [scalarOf n] 5
  | c :: _ =>
    match c with
    | '"' | '\\' | '/' => .chars [c] 1
    | 'b' => .chars ['\x08'] 1
    | 'f' => .chars ['\x0c'] 1
    | 'n' => .chars ['\n'] 1
    | 'r' => .chars ['\r'] 1
    | 't' => .chars ['\t'] 1
    | _ => .bad .escape 0
  | [] => .bad .unterminated 0

/-- A text literal under way: characters so far, last one first; number of characters consumed
after the opening quote, and the offset of that quote. The result is the item and the number of
characters it takes up after the quote. -/
def scanText (start : Nat) (acc : List Char) (used : Nat) (cs : List Char) : Token × Nat :=
  match cs with
  | [] => (.badText .unterminated start, used)
  | c :: rest =>
    if c = '"' then (.text (String.ofList acc.reverse), used + 1)
    else if c = '\\' then
      if rest.isEmpty then (.badText .unterminated start, used)
      else match scanEscape rest with
        | .bad fault shift => (.badText fault (start + 1 + used + shift), used)
        | .chars image length =>
          scanText start (image ++ acc) (used + 1 + length) (rest.drop length)
    else if c.toNat < 0x20 then (.badText .control (start + 1 + used), used)
    else scanText start (c :: acc) (used + 1) rest
termination_by cs.length
decreasing_by
  all_goals grind

/-- A number at the front: the item and its length. A point or an exponent mark without digits
after it is left over. -/
def scanNumber? (cs : List Char) : Option (Atom × Nat) :=
  let (negative, body) := match cs with
    | '-' :: rest => (true, rest)
    | _ => (false, cs)
  let whole := match body with
    | '0' :: _ => ['0']
    | _ => body.takeWhile Char.isDigit
  if whole.isEmpty then none
  else
    let rest := body.drop whole.length
    let fraction := match rest with
      | '.' :: after => after.takeWhile Char.isDigit
      | _ => []
    let rest := if fraction.isEmpty then rest else rest.drop (fraction.length + 1)
    let (signLength, exponentNegative, exponent) := match rest with
      | mark :: after =>
        if mark = 'e' || mark = 'E' then
          match after with
          | '-' :: digits => (2, true, digits.takeWhile Char.isDigit)
          | '+' :: digits => (2, false, digits.takeWhile Char.isDigit)
          | digits => (1, false, digits.takeWhile Char.isDigit)
        else (0, false, [])
      | [] => (0, false, [])
    let length := (if negative then 1 else 0) + whole.length +
      (if fraction.isEmpty then 0 else fraction.length + 1) +
      (if exponent.isEmpty then 0 else exponent.length + signLength)
    if fraction.isEmpty && exponent.isEmpty then
      let n : Int := digitsValue whole
      some (.int (if negative then -n else n), length)
    else
      let power : Int := digitsValue exponent
      let decimal := Decimal.ofParts whole fraction (if exponentNegative then -power else power)
      some (.float (decimal.toBinary64 negative), length)

/-- The words that stand for a scalar. -/
def wordAtoms : List (String × Atom) :=
  [("null", .null), ("true", .bool true), ("false", .bool false), ("NaN", .float .nan),
   ("Infinity", .float (.infinite false)), ("-Infinity", .float (.infinite true))]

/-- The item at the front of a text that starts at `offset`, and its length. -/
def nextToken (offset : Nat) (cs : List Char) : Token × Nat :=
  match cs with
  | '[' :: _ => (.openList, 1)
  | ']' :: _ => (.closeList, 1)
  | '\x7b' :: _ => (.openObject, 1)
  | '\x7d' :: _ => (.closeObject, 1)
  | ',' :: _ => (.comma, 1)
  | ':' :: _ => (.colon, 1)
  | '"' :: rest =>
    let (token, used) := scanText offset [] 0 rest
    (token, used + 1)
  | _ =>
    match wordAtoms.find? fun (w, _) => w.toList.isPrefixOf cs with
    | some (w, a) => (.atom a, w.length)
    | none =>
      match scanNumber? cs with
      | some (a, length) => (.atom a, length)
      | none => (.stray, 1)

def isJsonBlank (c : Char) : Bool := c = ' ' || c = '\t' || c = '\n' || c = '\r'

/-- All items with their offsets, first one first. -/
def tokensFrom (offset : Nat) (done : List (Nat × Token)) (cs : List Char) : List (Nat × Token) :=
  match cs with
  | [] => done.reverse
  | c :: rest =>
    if isJsonBlank c then tokensFrom (offset + 1) done rest
    else
      let (token, length) := nextToken offset (c :: rest)
      tokensFrom (offset + max length 1) ((offset, token) :: done) (rest.drop (length - 1))
termination_by cs.length
decreasing_by
  all_goals grind

def tokens (cs : List Char) : List (Nat × Token) := tokensFrom 0 [] cs

end Stratagem.Json
