import Stratagem.Value.Written

/-!
Shapes of raw documents. A stored wrapper keeps the builder document among exchange settings; a
flat document (version 1) keeps one pair of trees at the top, a nested one (version 2) a pair for
each direction. Migration maps both shapes to the nested one.
-/

namespace Stratagem

inductive ShapeError where
  | notObject (kind : String)
  | builderMissing
  | versionNotInteger (version : Value)
  | versionOneNested
  | versionNeedsNesting (version : Int)
  | shapeless

def ShapeError.message : ShapeError → String
  | .notObject kind => "document must be an object, got " ++ kind
  | .builderMissing => "no ui_builder config found"
  | .versionNotInteger version =>
    (version.shown?.map ("version must be an integer, got " ++ ·)).getD unwrittenText
  | .versionOneNested => "version 1 documents cannot carry long/short signal configs"
  | .versionNeedsNesting version =>
    ((Value.int version).shown?.map fun version =>
      s!"version {version} documents must nest conditions under long/short").getD unwrittenText
  | .shapeless => "document has neither long/short signal configs nor entry/exit conditions"

/-- The version that a message would show cannot be written. -/
def ShapeError.isUnwritten : ShapeError → Bool
  | .versionNotInteger version => version.hasLong
  | .versionNeedsNesting version => isLong version
  | _ => false

inductive Shape where
  | flat | nested
  deriving DecidableEq, Repr

/-- The word for a shape. -/
def Shape.name : Shape → String
  | .flat => "legacy"
  | .nested => "canonical"

def asObject : Value → Except ShapeError Fields
  | .object fields => .ok fields
  | v => .error (.notObject v.kind)

/-- Carry an outer time frame into the builder parameters, unless they are of the wrong kind or
have one. -/
def carryTimeframe (timeframe : Value) (builder : Fields) : Fields :=
  let carried (parameters : Fields) : Fields :=
    Fields.set builder (.text "parameters")
      (.object (Fields.set parameters (.text "timeframe") timeframe))
  match Fields.present? builder (.text "parameters") with
  | none => carried []
  | some (.object parameters) =>
    if (Fields.present? parameters (.text "timeframe")).isSome then builder else carried parameters
  | some _ => builder

/-- The builder document inside a wrapper; a document without wrapper is its own. -/
def unwrap (v : Value) : Except ShapeError Fields := do
  let fields ← asObject v
  match Fields.get? fields (.text "ui_builder") with
  | none => return fields
  | some (.object builder) =>
    match Fields.present? fields (.text "timeframe") with
    | none => return builder
    | some timeframe => return carryTimeframe timeframe builder
  | some _ => .error .builderMissing

def entryKeys : List Key := [.text "entry_conditions", .text "entryConditions"]

def exitKeys : List Key := [.text "exit_conditions", .text "exitConditions"]

def flatKeys : List Key := entryKeys ++ exitKeys

def nestedKeys : List Key := [.text "long", .text "short"]

/-- The first value under the keys that is not null. -/
def firstPresent? (fields : Fields) (keys : List Key) : Option Value :=
  keys.findSome? (Fields.present? fields)

/-- The version a document claims. -/
def version? (fields : Fields) : Except ShapeError (Option Int) :=
  match Fields.present? fields (.text "version") with
  | none => .ok none
  | some (.int n) => .ok (some n)
  | some v => .error (.versionNotInteger v)

/-- The shape of a document whose version does not contradict it. -/
def detectShape (fields : Fields) : Except ShapeError Shape := do
  let version ← version? fields
  if (firstPresent? fields nestedKeys).isSome then
    if version = some 1 then .error .versionOneNested else return .nested
  else if (firstPresent? fields flatKeys).isSome then
    match version with
    | some n => if 2 ≤ n then .error (.versionNeedsNesting n) else return .flat
    | none => return .flat
  else .error .shapeless

/-- The tree that never fires. -/
def neverTree : Value := .object [(.text "type", .text "OR"), (.text "children", .list [])]

def signalTrees (entry exit : Value) : Value :=
  .object [(.text "entry_conditions", entry), (.text "exit_conditions", exit)]

/-- A flat document in the nested shape: long only, and a short side that never fires. -/
def migrate (fields : Fields) : Fields :=
  let entry := (firstPresent? fields entryKeys).getD neverTree
  let exit := (firstPresent? fields exitKeys).getD neverTree
  let rest := fields.filter fun f => !flatKeys.contains f.1
  let rest := Fields.set rest (.text "version") (.int 2)
  let rest := Fields.set rest (.text "position_mode") (.text "LONG_ONLY")
  let rest := Fields.set rest (.text "long") (signalTrees entry exit)
  Fields.set rest (.text "short") (signalTrees neverTree neverTree)

/-- The nested form of a document. -/
def normalize (fields : Fields) : Except ShapeError Fields := do
  match ← detectShape fields with
  | .nested => return fields
  | .flat => return migrate fields

end Stratagem
