import Stratagem.Document.Shape
import Stratagem.Indicator.Registry
import Stratagem.Mirror
import Stratagem.Module.Check
import Stratagem.Module.Render
import Stratagem.Naming
import Stratagem.Value.Extent

/-! Every way in which a document fails to compile, its kind, and its wording. -/

namespace Stratagem

open Schema (Named)

inductive ErrorKind where
  | schema | reference | scope | type | sizeLimit | internal
  deriving DecidableEq, Repr

instance : Named ErrorKind where
  all := [.schema, .reference, .scope, .type, .sizeLimit, .internal]
  name
    | .schema => "schema" | .reference => "reference" | .scope => "scope" | .type => "type"
    | .sizeLimit => "size_limit" | .internal => "internal"

/-- The word that an error message starts with. -/
def ErrorKind.label : ErrorKind → String
  | .schema => "SchemaError"
  | .reference => "ReferenceError"
  | .scope => "ScopeError"
  | .type => "TypeError"
  | .sizeLimit => "SizeLimitError"
  | .internal => "InternalError"

def SizeError.kind : SizeError → ErrorKind
  | .unsupported _ => .schema
  | .keyNotText key => if key = .overlong then .internal else .schema
  | _ => .sizeLimit

def ShapeError.kind (e : ShapeError) : ErrorKind := if e.isUnwritten then .internal else .schema

def BindError.kind (e : BindError) : ErrorKind := if e.isFailure then .internal else .schema

def EmissionError.kind : EmissionError → ErrorKind
  | .tooDeep _ => .sizeLimit
  | .notImplemented _ => .schema
  | .invalidConstant _ => .schema
  | .notCondition _ => .schema
  | .notOperand _ => .schema
  | .indicator _ => .reference
  | .contextOutsideCallback _ => .scope
  | .contextUnavailable _ => .scope
  | _ => .type

def LeverageError.kind : LeverageError → ErrorKind
  | .unconditional _ => .schema
  | .notNumber given => if given.isSome then .schema else .internal
  | .notPositive given => if given.isSome then .schema else .internal
  | .notNumeric _ => .type
  | .emission reason => reason.kind
  | .noLiteral _ => .internal

/-- Keys of the returns table that are digits and yet no number of minutes. -/
inductive RoiError where
  | notDecimal (key : String)
  | tooLong (digits : Nat)
  deriving DecidableEq

/-- How much of a key a message shows. -/
def shownKeyLength : Nat := 200

def RoiError.message : RoiError → String
  | .notDecimal key =>
    "invalid literal for int() with base 10: " ++
      String.ofList ((Text.quoted key).toList.take shownKeyLength)
  | .tooLong digits => unreadText digits

inductive CompileError where
  | className (reason : ClassNameError)
  | size (reason : SizeError)
  | shape (reason : ShapeError)
  | document (faults : List Schema.Fault)
  | repeatedId (id : String)
  | mirror (reason : MirrorError)
  | binding (reason : BindError)
  | signalsMissing (mode : PositionMode) (direction : Direction)
  | emission (reason : EmissionError)
  | leverage (reason : LeverageError)
  | roi (reason : RoiError)
  | snippet (reason : SnippetError)
  | render (reason : RenderError)
  | output (problems : List OutputProblem)

namespace CompileError

def kind : CompileError → ErrorKind
  | .className _ => .schema
  | .size reason => reason.kind
  | .shape reason => reason.kind
  | .document _ => .schema
  | .repeatedId _ => .schema
  | .mirror _ => .schema
  | .binding reason => reason.kind
  | .signalsMissing .. => .schema
  | .emission reason => reason.kind
  | .leverage reason => reason.kind
  | .roi _ => .internal
  | .snippet _ => .internal
  | .render _ => .internal
  | .output _ => .internal

def message : CompileError → String
  | .className reason => reason.message
  | .size reason => reason.message
  | .shape reason => reason.message
  | .document faults => Schema.summary faults
  | .repeatedId id => s!"duplicate condition node id '{id}'"
  | .mirror reason => reason.message
  | .binding reason => reason.message
  | .signalsMissing mode direction =>
    let word := match direction with
      | .long => "long"
      | .short => "short"
    s!"position mode {Named.name mode} requires {word} signals"
  | .emission reason => reason.message
  | .leverage reason => reason.message
  | .roi reason => reason.message
  | .snippet reason => reason.message
  | .render reason => reason.message
  | .output problems =>
    "generated code failed validation: " ++
      "; ".intercalate (problems.map OutputProblem.message)

/-- The message behind the label of its kind. -/
def text (e : CompileError) : String := e.kind.label ++ ": " ++ e.message

end CompileError

end Stratagem
