import Stratagem.Indicator.Spec

/-!
Bound indicators: declarations with their types and parameters settled. A binding answers which
column a reference means, and gives the code, imports and warm-up of the whole set.
-/

namespace Stratagem

structure BoundIndicator where
  id : String
  spec : IndicatorSpec
  params : Params

/-- References to indicators that mean nothing. -/
inductive IndicatorError where
  | undeclared (id : String)
  | fieldNeeded (id type : String) (outputs : List String)
  | noOutput (id type output : String) (outputs : List String)
  deriving DecidableEq

def IndicatorError.message : IndicatorError → String
  | .undeclared id => s!"indicator '{id}' is not declared"
  | .fieldNeeded id type outputs =>
    s!"indicator '{id}' ({type}) needs a field: " ++
      ", ".intercalate (outputs.filter (! ·.isEmpty))
  | .noOutput id type output outputs =>
    s!"indicator '{id}' ({type}) has no output '{output}'; outputs: " ++
      ", ".intercalate (outputs.map fun o => if o.isEmpty then "(value)" else o)

namespace BoundIndicator

/-- The outputs with their columns. -/
def columns (b : BoundIndicator) : List (String × String) :=
  b.spec.outputs.eraseDups.map fun output => (output, columnName b.id output)

/-- The output that a field means; no field, or an empty one, is the default. -/
def output (b : BoundIndicator) (field : Option String) : Except IndicatorError String :=
  let given := field.filter (! ·.isEmpty)
  match given.or b.spec.defaultField with
  | none => .error (.fieldNeeded b.id b.spec.type b.spec.outputs)
  | some output =>
    if b.spec.outputs.contains output then .ok output
    else .error (.noOutput b.id b.spec.type output b.spec.outputs)

def column (b : BoundIndicator) (field : Option String) : Except IndicatorError String := do
  return columnName b.id (← b.output field)

def code (b : BoundIndicator) : Except SnippetError (List String) :=
  b.spec.snippet.render b.id b.params

def warmup (b : BoundIndicator) : Int := b.spec.warmup.candles b.params

end BoundIndicator

/-- The indicators of one document, in order of declaration. -/
structure Binding where
  indicators : List BoundIndicator

namespace Binding

def empty : Binding := ⟨[]⟩

def find? (b : Binding) (id : String) : Option BoundIndicator :=
  b.indicators.find? fun i => i.id == id

def declared (b : Binding) (id : String) : Bool := (b.find? id).isSome

/-- The column of a reference. -/
def column (b : Binding) (id : String) (field : Option String) : Except IndicatorError String :=
  match b.find? id with
  | none => .error (.undeclared id)
  | some i => i.column field

def code (b : Binding) : Except SnippetError (List String) := do
  return (← b.indicators.mapM BoundIndicator.code).flatten

def imports (b : Binding) : List String := b.indicators.flatMap fun i => i.spec.imports

/-- The longest warm-up. -/
def warmup (b : Binding) : Int :=
  match b.indicators.map BoundIndicator.warmup with
  | [] => 0
  | w :: rest => rest.foldl max w

end Binding

end Stratagem
