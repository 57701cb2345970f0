import Stratagem.Number.Shortest

/-!
Reading decimals. `Decimal.toBinary64` rounds a decimal to the nearest binary number; the scanner
takes a sign, digits with an optional point, and an optional exponent off the front of a text.
-/

namespace Stratagem

attribute [local instance] corePow

/-- Beyond these decimal exponents every number is infinite or zero. -/
def Decimal.reach : Int := 400

def Decimal.toBinary64 (negative : Bool) (d : Decimal) : Binary64 :=
  let top := d.exponent + (Nat.toDigits 10 d.digits).length
  if d.digits = 0 then Binary64.ofRatio negative 0 1
  else if Decimal.reach < top then .infinite negative
  else if top < -Decimal.reach then Binary64.ofRatio negative 0 1
  else if 0 ≤ d.exponent then Binary64.ofRatio negative (d.digits * 10 ^ d.exponent.toNat) 1
  else Binary64.ofRatio negative d.digits (10 ^ (-d.exponent).toNat)

/-- The number written by ASCII digits. -/
def digitsValue (cs : List Char) : Nat := cs.foldl (fun n c => n * 10 + (c.toNat - 48)) 0

/-- The digits of an integer part and of a fraction with an exponent, as one decimal. -/
def Decimal.ofParts (whole fraction : List Char) (exponent : Int) : Decimal :=
  ⟨digitsValue (whole ++ fraction), exponent - fraction.length⟩

/-- A sign off the front. -/
def takeSign : List Char → Bool × List Char
  | '-' :: rest => (true, rest)
  | '+' :: rest => (false, rest)
  | cs => (false, cs)

def takeDigits (cs : List Char) : List Char × List Char :=
  (cs.takeWhile Char.isDigit, cs.dropWhile Char.isDigit)

/-- An exponent (`e` or `E`, a sign, digits) that takes up all the text; nothing is exponent 0. -/
def exponentOnly? : List Char → Option Int
  | [] => some 0
  | c :: rest =>
    if c = 'e' || c = 'E' then
      let (negative, digits) := takeSign rest
      if !digits.isEmpty && digits.all Char.isDigit then
        some (if negative then -(digitsValue digits : Int) else digitsValue digits)
      else none
    else none

/-- A decimal number that takes up all of the text: digits with a point before, among or after
them, then an exponent. -/
def decimalOnly? (cs : List Char) : Option Decimal :=
  let (whole, rest) := takeDigits cs
  match rest with
  | '.' :: after =>
    let (fraction, tail) := takeDigits after
    if whole.isEmpty && fraction.isEmpty then none
    else (exponentOnly? tail).map (Decimal.ofParts whole fraction)
  | _ => if whole.isEmpty then none else (exponentOnly? rest).map (Decimal.ofParts whole [])

end Stratagem
