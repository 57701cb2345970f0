/-!
Binary floating-point numbers of 64 bits as exact data. A finite number is a sign and a magnitude
`m · 2 ^ e` counted in units of `2 ^ -1074`, the smallest positive number; `Canonical` makes the
pair of a magnitude unique. Comparison and conversion are exact integer arithmetic.
-/

namespace Stratagem

/-- Powers by repeated multiplication, whatever other powers are in scope. -/
@[reducible] def corePow {α : Type} [NatPow α] : Pow α Nat := instPowNat

attribute [local instance] corePow

/-- The pairs that represent a magnitude: 53 bits, the top one set unless the exponent is least. -/
def Canonical (m e : Nat) : Prop := m < 2 ^ (53 : Nat) ∧ e ≤ 2045 ∧ (2 ^ (52 : Nat) ≤ m ∨ e = 0)

instance (m e : Nat) : Decidable (Canonical m e) := by unfold Canonical; infer_instance

inductive Binary64 where
  | nan
  | infinite (negative : Bool)
  | finite (negative : Bool) (m e : Nat) (canonical : Canonical m e)
  deriving DecidableEq

/-- Division to the nearest integer; a half goes to the even neighbour. -/
def roundDiv (num den : Nat) : Nat :=
  let q := num / den
  let r := num % den
  if 2 * r < den then q
  else if den < 2 * r then q + 1
  else if q % 2 = 0 then q else q + 1

namespace Binary64

def zero : Binary64 := .finite false 0 0 (by decide)

instance : Inhabited Binary64 := ⟨zero⟩

/-- A magnitude `m · 2 ^ e`; what exceeds the range is infinite. -/
def ofParts (negative : Bool) (m e : Nat) : Binary64 :=
  if h : Canonical m e then .finite negative m e h else .infinite negative

/-- The nearest number to `num / den` (with `den` positive), a tie going to the even one. -/
def ofRatio (negative : Bool) (num den : Nat) : Binary64 :=
  let scaled := num * 2 ^ (1074 : Nat)
  let e := (scaled / den).log2 - 52
  let m := roundDiv scaled (den * 2 ^ e)
  if m = 2 ^ (53 : Nat) then ofParts negative (2 ^ (52 : Nat)) (e + 1) else ofParts negative m e

def isFinite : Binary64 → Bool
  | .finite .. => true
  | _ => false

/-- A finite number in units of `2 ^ -1074`. -/
def units? : Binary64 → Option Int
  | .finite negative m e _ =>
    some (if negative then -((m * 2 ^ e : Nat) : Int) else (m * 2 ^ e : Nat))
  | _ => none

/-- One in units of `2 ^ -1074`. -/
def unit : Nat := 2 ^ (1074 : Nat)

def isIntegral (x : Binary64) : Bool := x.units?.any fun u => u % (unit : Int) == 0

/-- The integer part, toward zero. -/
def truncate? (x : Binary64) : Option Int := x.units?.map fun u => u.tdiv unit

/-- The nearest number to an integer, unless that lies beyond the finite numbers. -/
def ofInt? (n : Int) : Option Binary64 :=
  let x := ofRatio (n < 0) n.natAbs 1
  if x.isFinite then some x else none

/-- Order against an integer; a NaN is on no side of anything. -/
def ltInt (x : Binary64) (n : Int) : Bool :=
  match x with
  | .nan => false
  | .infinite negative => negative
  | .finite .. => x.units?.any fun u => u < n * (unit : Int)

def gtInt (x : Binary64) (n : Int) : Bool :=
  match x with
  | .nan => false
  | .infinite negative => !negative
  | .finite .. => x.units?.any fun u => n * (unit : Int) < u

def lt (x y : Binary64) : Bool :=
  match x, y with
  | .nan, _ => false
  | _, .nan => false
  | .infinite a, .infinite b => a && !b
  | .infinite a, _ => a
  | _, .infinite b => !b
  | .finite .., .finite .. => x.units?.any fun u => y.units?.any fun v => u < v

def isZero : Binary64 → Bool
  | .finite _ m _ _ => m == 0
  | _ => false

end Binary64

end Stratagem
