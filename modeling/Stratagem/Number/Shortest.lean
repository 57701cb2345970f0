import Stratagem.Number.Binary64

/-!
The shortest decimal of a binary number: the fewest digits that round back to it and, among those,
the decimal nearest to it (the even one of two). A number is rounded to from an interval of reals
around it, ends included when its significand is even; for one digit, two digits, and so on the
two neighbours of the number on that decimal grid are tried, in exact arithmetic.
-/

namespace Stratagem

attribute [local instance] corePow

/-- `digits · 10 ^ exponent`. -/
structure Decimal where
  digits : Nat
  exponent : Int
  deriving DecidableEq, Repr

namespace Binary64

/-- A positive rational. -/
structure Ratio where
  num : Nat
  den : Nat

namespace Ratio

def le (x y : Ratio) : Bool := x.num * y.den ≤ y.num * x.den

def lt (x y : Ratio) : Bool := x.num * y.den < y.num * x.den

/-- `x · 2 ^ k`. -/
def shift (x : Ratio) (k : Int) : Ratio :=
  if 0 ≤ k then ⟨x.num * 2 ^ k.toNat, x.den⟩ else ⟨x.num, x.den * 2 ^ (-k).toNat⟩

/-- `x · 10 ^ k`. -/
def scale (x : Ratio) (k : Int) : Ratio :=
  if 0 ≤ k then ⟨x.num * 10 ^ k.toNat, x.den⟩ else ⟨x.num, x.den * 10 ^ (-k).toNat⟩

/-- The exponent of the leading decimal digit: an estimate from the binary one, then corrected. -/
def leading (x : Ratio) : Int :=
  let guess := (((x.num.log2 : Int) - x.den.log2) * 30103).fdiv 100000
  let at_ (k : Int) : Ratio := scale ⟨1, 1⟩ k
  if le (at_ (guess + 1)) x then guess + 1
  else if le (at_ guess) x then guess
  else guess - 1

end Ratio

/-- The interval of reals that round to a magnitude. -/
structure Basin where
  low : Ratio
  high : Ratio
  closed : Bool

def Basin.holds (b : Basin) (x : Ratio) : Bool :=
  if b.closed then b.low.le x && x.le b.high else b.low.lt x && x.lt b.high

/-- The gap below a power of two is half the gap above. -/
def basin (m e : Nat) : Basin :=
  let at_ (quarters : Nat) : Ratio := Ratio.shift ⟨quarters, 1⟩ ((e : Int) - 1076)
  let below := if m = 2 ^ (52 : Nat) && e != 0 then 1 else 2
  { low := at_ (4 * m - below), high := at_ (4 * m + 2), closed := m % 2 == 0 }

/-- The decimal with `count` digits nearest to `x` among its two neighbours in the basin. -/
def candidate? (b : Basin) (x : Ratio) (top : Int) (count : Nat) : Option Decimal :=
  let exponent := top - count + 1
  let scaled := x.scale (-exponent)
  let floor := scaled.num / scaled.den
  let at_ (d : Nat) : Ratio := Ratio.scale ⟨d, 1⟩ exponent
  let low := b.holds (at_ floor)
  let high := b.holds (at_ (floor + 1))
  let twice := 2 * (scaled.num % scaled.den)
  if low && high then
    let up := scaled.den < twice || (twice == scaled.den && floor % 2 == 1)
    some ⟨if up then floor + 1 else floor, exponent⟩
  else if low then some ⟨floor, exponent⟩
  else if high then some ⟨floor + 1, exponent⟩
  else none

/-- Seventeen digits always suffice. -/
def shortestMagnitude (m e : Nat) : Decimal :=
  let x : Ratio := Ratio.shift ⟨m, 1⟩ ((e : Int) - 1074)
  let b := basin m e
  ((List.range 17).findSome? fun i => candidate? b x x.leading (i + 1)).getD ⟨m, 0⟩

end Binary64

end Stratagem
