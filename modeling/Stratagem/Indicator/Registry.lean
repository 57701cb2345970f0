import Stratagem.Indicator.Binding
import Stratagem.Text.Identifier

/-!
The table of indicator types, and the binding of a document's declarations against it. Binding
keeps ids and columns distinct and away from the columns of market data.
-/

namespace Stratagem

structure Registry where
  specs : List (String × IndicatorSpec)

/-- Why declarations cannot be bound. -/
inductive BindError where
  | malformedId (id : String)
  | unknownType (id type : String)
  | duplicateId (id : String)
  | params (reason : ParamsError)
  | reservedColumn (id column : String)
  | sharedColumn (id column owner : String)
  deriving DecidableEq

def BindError.message : BindError → String
  | .malformedId id =>
    "indicator id '" ++ id ++ "' must be a letter or underscore followed by up to 63 letters, " ++
      "digits or underscores"
  | .unknownType id type => s!"indicator '{id}' has unknown type '{type}'"
  | .duplicateId id => s!"duplicate indicator id '{id}'"
  | .params reason => reason.message
  | .reservedColumn id column =>
    s!"indicator '{id}' output column '{column}' clashes with a market data column"
  | .sharedColumn id column owner =>
    s!"indicator '{id}' output column '{column}' collides with indicator '{owner}'"

/-- An integer parameter that is too long to be written, or beyond the finite floats, is refused
without a message of its own. -/
def BindError.isFailure : BindError → Bool
  | .params (.invalid _ _ problem) => problem.text?.isNone
  | _ => false

/-- Columns of market data and of signals. -/
def reservedColumns : List String :=
  ["date", "open", "high", "low", "close", "volume", "enter_long", "enter_short", "exit_long",
   "exit_short", "enter_tag", "exit_tag"]

/-- The greatest length of an id. -/
def maxIdLength : Nat := 64

/-- A letter or underscore, then letters, digits and underscores of ASCII. -/
def isIdWord : List Char → Bool
  | [] => false
  | c :: rest =>
    (c.isAlpha || c = '_') && rest.all (fun d => d.isAlphanum || d = '_') &&
      rest.length < maxIdLength

/-- An id is a word; one line feed may end it. -/
def isIndicatorId (id : String) : Bool := isIdWord (Text.chomp id.toList)

namespace Registry

def empty : Registry := ⟨[]⟩

def find? (r : Registry) (key : String) : Option IndicatorSpec := r.specs.lookup key

/-- A type, in any case. -/
def get? (r : Registry) (type : String) : Option IndicatorSpec := r.find? (Text.upper type)

def contains (r : Registry) (type : String) : Bool := (r.get? type).isSome

/-- The types in order. -/
def types (r : Registry) : List String :=
  (r.specs.map Prod.fst).mergeSort fun a b => a ≤ b

def size (r : Registry) : Nat := r.specs.length

/-- A type can be registered once; the error is its key. -/
def register (r : Registry) (spec : IndicatorSpec) : Except String Registry :=
  let key := Text.upper spec.type
  if (r.find? key).isSome then .error key else .ok ⟨r.specs ++ [(key, spec)]⟩

/-- Columns with the ids that own them. -/
abbrev Owners := List (String × String)

/-- Give columns to an id, unless one is reserved or taken. -/
def claim (id : String) : Owners → List String → Except BindError Owners
  | owners, [] => .ok owners
  | owners, column :: rest =>
    if reservedColumns.contains (Text.lower column) then .error (.reservedColumn id column)
    else match owners.lookup column with
      | some owner => .error (.sharedColumn id column owner)
      | none => claim id ((column, id) :: owners) rest

/-- Settle one declaration, given the ids that are bound already. -/
def bindOne (r : Registry) (bound : List BoundIndicator) (d : IndicatorDeclaration) :
    Except BindError BoundIndicator :=
  if !isIndicatorId d.id then .error (.malformedId d.id)
  else match r.find? d.type with
    | none => .error (.unknownType d.id d.type)
    | some spec =>
      if bound.any (·.id == d.id) then .error (.duplicateId d.id)
      else match spec.validate d with
        | .error reason => .error (.params reason)
        | .ok params => .ok ⟨d.id, spec, params⟩

/-- Bind the rest of the declarations; `bound` are those before, last one first. -/
def bindFrom (r : Registry) (bound : List BoundIndicator) (owners : Owners) :
    List IndicatorDeclaration → Except BindError Binding
  | [] => .ok ⟨bound.reverse⟩
  | d :: rest => do
    let indicator ← r.bindOne bound d
    let owners ← claim d.id owners (indicator.columns.map Prod.snd)
    r.bindFrom (indicator :: bound) owners rest

def bind (r : Registry) (declarations : List IndicatorDeclaration) : Except BindError Binding :=
  r.bindFrom [] [] declarations

end Registry

end Stratagem
