import Stratagem.Number.Layout
import Stratagem.Text.Quoted

/-!
Values of the document format. A document arrives as one of these; everything behind the schema
is typed. Mappings keep the order of their entries. A key is nearly always a text. Any other key is
kept as its written form, and two of them are one key when they are written alike: `1`, `1.0` and
`True` are three keys here, also where equal numbers would count as one. All integers that are too
long to be written are one key.
-/

namespace Stratagem

inductive Key where
  | text (s : String)
  | other (written : String)
  | overlong
  deriving DecidableEq, Repr

instance : Coe String Key := ⟨Key.text⟩

inductive Value where
  | null
  | bool (b : Bool)
  | int (n : Int)
  | float (x : Binary64)
  | text (s : String)
  | list (items : List Value)
  | tuple (items : List Value)
  | object (fields : List (Key × Value))
  | set (items : List Value)
  | bytes (s : String)
  | date (s : String)
  | moment (s : String)

abbrev Fields := List (Key × Value)

namespace Value

instance : Inhabited Value := ⟨null⟩

mutual

/-- Equality of structure; entries are compared in order. -/
def same : Value → Value → Bool
  | .null, .null => true
  | .bool a, .bool b => a == b
  | .int a, .int b => a == b
  | .float a, .float b => a == b
  | .text a, .text b => a == b
  | .list a, .list b => sameItems a b
  | .tuple a, .tuple b => sameItems a b
  | .object a, .object b => sameFields a b
  | .set a, .set b => sameItems a b
  | .bytes a, .bytes b => a == b
  | .date a, .date b => a == b
  | .moment a, .moment b => a == b
  | _, _ => false

def sameItems : List Value → List Value → Bool
  | [], [] => true
  | a :: as, b :: bs => same a b && sameItems as bs
  | _, _ => false

def sameFields : Fields → Fields → Bool
  | [], [] => true
  | (k, a) :: as, (l, b) :: bs => k == l && same a b && sameFields as bs
  | _, _ => false

end

instance : BEq Value := ⟨same⟩

/-- The word for the kind of a value. -/
def kind : Value → String
  | .null => "NoneType"
  | .bool _ => "bool"
  | .int _ => "int"
  | .float _ => "float"
  | .text _ => "str"
  | .list _ => "list"
  | .tuple _ => "tuple"
  | .object _ => "dict"
  | .set _ => "set"
  | .bytes _ => "bytes"
  | .date _ => "date"
  | .moment _ => "datetime"

def isNull : Value → Bool
  | .null => true
  | _ => false

def fields? : Value → Option Fields
  | .object fields => some fields
  | _ => none

/-- The elements of a list or a tuple. -/
def items? : Value → Option (List Value)
  | .list items => some items
  | .tuple items => some items
  | _ => none

end Value

/-! ## Fields -/

namespace Fields

/-- The value of the first entry with a key. -/
def get? (fields : Fields) (key : Key) : Option Value := List.lookup key fields

/-- The value of a key, where a null value counts as none. -/
def present? (fields : Fields) (key : Key) : Option Value :=
  match get? fields key with
  | some .null => none
  | found => found

def has (fields : Fields) (key : Key) : Bool := (get? fields key).isSome

def keys (fields : Fields) : List Key := fields.map Prod.fst

def values (fields : Fields) : List Value := fields.map Prod.snd

/-- Set a key: in place if it is there, else at the end. -/
def set (fields : Fields) (key : Key) (value : Value) : Fields :=
  match fields with
  | [] => [(key, value)]
  | (k, v) :: rest => if k = key then (k, value) :: rest else (k, v) :: set rest key value

/-- Entries in order of first appearance, each key with its last value. -/
def ofPairs (pairs : List (Key × Value)) : Fields :=
  pairs.foldl (fun fields (k, v) => set fields k v) []

end Fields

end Stratagem
