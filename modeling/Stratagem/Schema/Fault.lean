import Stratagem.Value.Written

/-!
Faults of a document: what is wrong and the path to where it lies. Every fault of a document is
reported, in the order in which the fields are declared.
-/

namespace Stratagem.Schema

/-- One step of a path: a key (or the tag of a variant) or a position in a list. -/
inductive Step where
  | key (name : String)
  | index (i : Nat)
  deriving DecidableEq, Repr

def Step.text : Step → String
  | .key name => name
  | .index i => natText i

/-- Values that have the right type and are refused all the same. -/
inductive Refusal where
  | constantNotFinite (x : Binary64)
  | unknownZone (name : String)
  | operandCount (operation expected : String) (count : Nat)
  | boundsCrossed (min max : Binary64)
  | roiKey (key : String)
  | classNameRoom
  deriving DecidableEq

def Refusal.message : Refusal → String
  | .constantNotFinite x => "constant must be finite, got " ++ x.text
  | .unknownZone name => "unknown timezone " ++ Text.quoted name
  | .operandCount operation expected count =>
    s!"operation '{operation}' takes {expected} operand(s), got {count}"
  | .boundsCrossed min max => s!"min {min.text} is greater than max {max.text}"
  | .roiKey key => "minimal_roi keys must be minutes, got " ++ Text.quoted key
  | .classNameRoom => "limits.max_class_name_length exceeds limits.max_string_chars"

inductive Problem where
  | notModel (name : String)
  | notVariant
  | tagMissing
  | tagUnknown (tag : String) (expected : List String)
  | notText
  | textEmpty
  | textPattern (pattern : String)
  | notInt
  | intUnreadable
  | intFraction
  | intTooLarge
  | numberNotFinite
  | notFloat
  | floatUnreadable
  | notBool
  | boolUnreadable
  | notOneOf (allowed : List String)
  | notExactly (expected : String)
  | notTuple
  | notList
  | notMapping
  | keyNotText
  | missing
  | notGreater (bound : String)
  | notAtLeast (bound : String)
  | notAtMost (bound : String)
  | refused (reason : Refusal)
  deriving DecidableEq

/-- The short name of a problem. -/
def Problem.code : Problem → String
  | .notModel _ => "model_type"
  | .notVariant => "model_attributes_type"
  | .tagMissing => "union_tag_not_found"
  | .tagUnknown .. => "union_tag_invalid"
  | .notText => "string_type"
  | .textEmpty => "string_too_short"
  | .textPattern _ => "string_pattern_mismatch"
  | .notInt => "int_type"
  | .intUnreadable => "int_parsing"
  | .intFraction => "int_from_float"
  | .intTooLarge => "int_parsing_size"
  | .numberNotFinite => "finite_number"
  | .notFloat => "float_type"
  | .floatUnreadable => "float_parsing"
  | .notBool => "bool_type"
  | .boolUnreadable => "bool_parsing"
  | .notOneOf _ => "enum"
  | .notExactly _ => "literal_error"
  | .notTuple => "tuple_type"
  | .notList => "list_type"
  | .notMapping => "dict_type"
  | .keyNotText => "invalid_key"
  | .missing => "missing"
  | .notGreater _ => "greater_than"
  | .notAtLeast _ => "greater_than_equal"
  | .notAtMost _ => "less_than_equal"
  | .refused _ => "value_error"

/-- Alternatives: commas between them, the last two joined by "or". -/
def alternatives : List String → String
  | [] => ""
  | [a] => a
  | [a, b] => a ++ " or " ++ b
  | a :: rest => a ++ ", " ++ alternatives rest

def inQuotes (s : String) : String := "'" ++ s ++ "'"

def Problem.message : Problem → String
  | .notModel name => "Input should be a valid dictionary or instance of " ++ name
  | .notVariant => "Input should be a valid dictionary or object to extract fields from"
  | .tagMissing => "Unable to extract tag using discriminator 'type'"
  | .tagUnknown tag expected =>
    "Input tag '" ++ tag ++ "' found using 'type' does not match any of the expected tags: " ++
      ", ".intercalate (expected.map inQuotes)
  | .notText => "Input should be a valid string"
  | .textEmpty => "String should have at least 1 character"
  | .textPattern pattern => "String should match pattern '" ++ pattern ++ "'"
  | .notInt => "Input should be a valid integer"
  | .intUnreadable => "Input should be a valid integer, unable to parse string as an integer"
  | .intFraction => "Input should be a valid integer, got a number with a fractional part"
  | .intTooLarge => "Unable to parse input string as an integer, exceeded maximum size"
  | .numberNotFinite => "Input should be a finite number"
  | .notFloat => "Input should be a valid number"
  | .floatUnreadable => "Input should be a valid number, unable to parse string as a number"
  | .notBool => "Input should be a valid boolean"
  | .boolUnreadable => "Input should be a valid boolean, unable to interpret input"
  | .notOneOf allowed => "Input should be " ++ alternatives (allowed.map inQuotes)
  | .notExactly expected => "Input should be " ++ inQuotes expected
  | .notTuple => "Input should be a valid tuple"
  | .notList => "Input should be a valid list"
  | .notMapping => "Input should be a valid dictionary"
  | .keyNotText => "Keys should be strings"
  | .missing => "Field required"
  | .notGreater bound => "Input should be greater than " ++ bound
  | .notAtLeast bound => "Input should be greater than or equal to " ++ bound
  | .notAtMost bound => "Input should be less than or equal to " ++ bound
  | .refused reason => "Value error, " ++ reason.message

structure Fault where
  place : List Step
  problem : Problem
  deriving DecidableEq

/-- A summary of the faults of a document: the first one, and how many more there are. -/
def summary (faults : List Fault) : String :=
  match faults with
  | [] => "document: invalid value"
  | first :: rest =>
    let place := ".".intercalate (first.place.map Step.text)
    let location := if place.isEmpty then "document" else place
    let more := if rest.isEmpty then "" else s!" (and {rest.length} more error(s))"
    location ++ ": " ++ first.problem.message ++ more

end Stratagem.Schema
