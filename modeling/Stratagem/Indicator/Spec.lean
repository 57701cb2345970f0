import Stratagem.Document.Basic
import Stratagem.Indicator.Param
import Stratagem.Indicator.Snippet

/-! Indicator types: parameters, outputs, code, imports and warm-up. -/

namespace Stratagem

/-- Candles needed before the first value: a constant and multiples of parameters. -/
structure Warmup where
  constant : Int := 0
  terms : List (Int × String) := []
  deriving DecidableEq

/-- The integer part of a parameter; a text counts for nothing. -/
def Scalar.wholePart : Scalar → Int
  | .int n => n
  | .float x => x.truncate?.getD 0
  | _ => 0

def Warmup.candles (w : Warmup) (params : Params) : Int :=
  w.terms.foldl (fun sum (factor, name) =>
    sum + factor * ((params.lookup name).map Scalar.wholePart).getD 0) w.constant

structure IndicatorSpec where
  type : String
  params : List ParamSpec
  outputs : List String
  snippet : Snippet
  warmup : Warmup
  defaultField : Option String := some ""
  imports : List String := ["talib"]
  description : String := ""

/-- Why the parameters of a declaration are refused. -/
inductive ParamsError where
  | unknown (id type name : String) (known : List String)
  | twice (id name : String)
  | invalid (id name : String) (problem : ParamProblem)
  deriving DecidableEq

def ParamsError.message : ParamsError → String
  | .unknown id type name known =>
    let accepted := if known.isEmpty then "none" else ", ".intercalate known
    s!"indicator '{id}' ({type}) has unknown parameter '{name}'; accepted: {accepted}"
  | .twice id name => s!"indicator '{id}' sets parameter '{name}' twice"
  | .invalid id name problem =>
    (problem.text?.map (s!"indicator '{id}' parameter '{name}' " ++ ·)).getD problem.failure

namespace IndicatorSpec

def defaults (spec : IndicatorSpec) : Params := spec.params.map fun p => (p.name, p.default)

/-- The parameter that goes by a name; of two, the later one. -/
def param? (spec : IndicatorSpec) (name : String) : Option ParamSpec :=
  spec.params.reverse.find? fun p => p.names.contains name

def Params.set (params : Params) (name : String) (value : Scalar) : Params :=
  params.map fun (n, v) => if n = name then (n, value) else (n, v)

/-- Take over the given parameters one by one; `seen` are those already given. -/
def resolve (spec : IndicatorSpec) (id : String) (resolved : Params) (seen : List String) :
    Fields → Except ParamsError Params
  | [] => .ok resolved
  | (key, value) :: rest =>
    let name := key.label
    match spec.param? name with
    | none => .error (.unknown id spec.type name (spec.params.map ParamSpec.name))
    | some p =>
      if seen.contains p.name then .error (.twice id p.name)
      else match p.coerce value with
        | .error problem => .error (.invalid id p.name problem)
        | .ok scalar =>
          resolve spec id (Params.set resolved p.name scalar) (p.name :: seen) rest

/-- The parameters of a declaration, with defaults for those not given. -/
def validate (spec : IndicatorSpec) (d : IndicatorDeclaration) : Except ParamsError Params :=
  spec.resolve d.id spec.defaults [] d.params

end IndicatorSpec

end Stratagem
