import Stratagem.Number.Shortest

/-!
Numbers as text. The shortest digits are laid out positionally for decimal exponents from -4 up
to 15, always with a point, and else with an exponent of at least two digits and a sign. Integers
beyond a number of digits are neither read from decimal digits nor written.
-/

namespace Stratagem

/-- How the digits of a finite number are laid out. -/
structure NumberLayout where
  leastPositional : Int
  mostPositional : Int
  exponentWidth : Nat

def numberLayout : NumberLayout := ⟨-4, 15, 2⟩

def natText (n : Nat) : String := String.ofList (Nat.toDigits 10 n)

def intText (n : Int) : String := if n < 0 then "-" ++ natText n.natAbs else natText n.natAbs

/-- The most decimal digits that an integer is read or written with. -/
def maxDigits : Nat := 4300

def digitCount (n : Int) : Nat := (Nat.toDigits 10 n.natAbs).length

/-- Whether an integer has too many digits to be written. -/
def isLong (n : Int) : Bool := maxDigits < digitCount n

def overlongText (found : String) : String :=
  s!"Exceeds the limit ({maxDigits} digits) for integer string conversion{found}; " ++
    "use sys.set_int_max_str_digits() to increase the limit"

/-- What is said when an integer cannot be written. -/
def unwrittenText : String := overlongText ""

/-- What is said when so many digits cannot be read. -/
def unreadText (digits : Nat) : String := overlongText s!": value has {digits} digits"

/-- The digits without trailing zeros, and the exponent of the leading one. -/
def Decimal.significant (d : Decimal) : List Char × Int :=
  let all := Nat.toDigits 10 d.digits
  let cut := (all.reverse.dropWhile (· == '0')).reverse
  (if cut.isEmpty then ['0'] else cut, d.exponent + all.length - 1)

def padLeft (width : Nat) (cs : List Char) : List Char :=
  List.replicate (width - cs.length) '0' ++ cs

/-- Lay out significant digits whose leading one has the given exponent. -/
def NumberLayout.place (layout : NumberLayout) (digits : List Char) (exponent : Int) : List Char :=
  if exponent < layout.leastPositional || layout.mostPositional < exponent then
    let fraction := match digits with
      | [] | [_] => digits
      | d :: rest => d :: '.' :: rest
    fraction ++ 'e' :: (if exponent < 0 then '-' else '+') ::
      padLeft layout.exponentWidth (Nat.toDigits 10 exponent.natAbs)
  else if exponent < 0 then
    '0' :: '.' :: List.replicate (-exponent - 1).toNat '0' ++ digits
  else
    let before := exponent.toNat + 1
    let whole := digits.take before ++ List.replicate (before - digits.length) '0'
    let fraction := digits.drop before
    whole ++ '.' :: (if fraction.isEmpty then ['0'] else fraction)

namespace Binary64

def text : Binary64 → String
  | .nan => "nan"
  | .infinite negative => if negative then "-inf" else "inf"
  | .finite negative m e _ =>
    let (digits, exponent) :=
      if m = 0 then (['0'], 0) else (shortestMagnitude m e).significant
    (if negative then "-" else "") ++ String.ofList (numberLayout.place digits exponent)

end Binary64

end Stratagem
