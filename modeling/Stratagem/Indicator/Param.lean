import Stratagem.Expression.Basic

/-!
Parameters of indicators: a kind, a default, and bounds or choices. A value that is given has to
be of the kind already; an integral number counts as an integer, and any number as a float.
-/

namespace Stratagem

open Schema (Named)

/-- A bound of a parameter, shown the way it was given. -/
inductive Numeric where
  | int (n : Int)
  | float (x : Binary64)
  deriving DecidableEq

namespace Numeric

def toScalar : Numeric → Scalar
  | .int n => .int n
  | .float x => .float x

def text? (x : Numeric) : Option String := x.toScalar.toValue.shown?

/-- Order by exact value. -/
def lt : Numeric → Numeric → Bool
  | .int a, .int b => a < b
  | .int a, .float b => b.gtInt a
  | .float a, .int b => a.ltInt b
  | .float a, .float b => a.lt b

end Numeric

inductive ParamKind where
  | int | float | text
  deriving DecidableEq, Repr

instance : Named ParamKind where
  all := [.int, .float, .text]
  name
    | .int => "int" | .float => "float" | .text => "str"

structure ParamSpec where
  name : String
  kind : ParamKind
  default : Scalar
  minimum : Option Numeric := none
  maximum : Option Numeric := none
  choices : List String := []
  aliases : List String := []
  deriving DecidableEq

/-- Why a value is no value of a parameter; what was given may have no written form. -/
inductive ParamProblem where
  | notChoice (choices : List String) (given : Option String)
  | notNumber (given : Option String)
  | notFinite (x : Binary64)
  | notInteger (x : Binary64)
  | belowMinimum (bound given : Numeric)
  | aboveMaximum (bound given : Numeric)
  | beyondFloats
  deriving DecidableEq

/-- What is said of the parameter. Nothing can be said where an integer is too long to be written,
or beyond the finite floats. -/
def ParamProblem.text? : ParamProblem → Option String
  | .notChoice choices given => do
    return "must be one of: " ++ ", ".intercalate choices ++ "; got " ++ (← given)
  | .notNumber given => do return "must be a number, got " ++ (← given)
  | .notFinite x => some ("must be finite, got " ++ x.text)
  | .notInteger x => some ("must be an integer, got " ++ x.text)
  | .belowMinimum bound given => do
    return "must be >= " ++ (← bound.text?) ++ ", got " ++ (← given.text?)
  | .aboveMaximum bound given => do
    return "must be <= " ++ (← bound.text?) ++ ", got " ++ (← given.text?)
  | .beyondFloats => none

/-- What is said instead. -/
def ParamProblem.failure : ParamProblem → String
  | .beyondFloats => "int too large to convert to float"
  | _ => unwrittenText

namespace ParamSpec

/-- The names a parameter goes by. -/
def names (p : ParamSpec) : List String := p.name :: p.aliases

/-- A number in the kind of the parameter. -/
def number (kind : ParamKind) : Value → Except ParamProblem Numeric
  | .int n =>
    if kind = .int then .ok (.int n)
    else match Binary64.ofInt? n with
      | some x => .ok (.float x)
      | none => .error .beyondFloats
  | .float x =>
    if !x.isFinite then .error (.notFinite x)
    else if kind = .int then
      match x.isIntegral, x.truncate? with
      | true, some n => .ok (.int n)
      | _, _ => .error (.notInteger x)
    else .ok (.float x)
  | v => .error (.notNumber v.shown?)

def withinBounds (p : ParamSpec) (x : Numeric) : Except ParamProblem Numeric :=
  match p.minimum.filter x.lt, p.maximum.filter (·.lt x) with
  | some bound, _ => .error (.belowMinimum bound x)
  | none, some bound => .error (.aboveMaximum bound x)
  | none, none => .ok x

def choice (p : ParamSpec) : Value → Except ParamProblem String
  | .text s =>
    if p.choices.isEmpty || p.choices.contains s then .ok s
    else .error (.notChoice p.choices (Value.text s).shown?)
  | v => .error (.notChoice p.choices v.shown?)

/-- The value of a parameter, in its kind and within its bounds or choices. -/
def coerce (p : ParamSpec) (v : Value) : Except ParamProblem Scalar :=
  match p.kind with
  | .text => do return .text (← p.choice v)
  | kind => do return (← p.withinBounds (← number kind v)).toScalar

end ParamSpec

end Stratagem
