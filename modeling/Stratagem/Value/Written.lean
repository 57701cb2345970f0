import Stratagem.Value.Basic

/-! The written form of a value, as messages show it. A value that holds an integer with too many
digits cannot be shown. -/

namespace Stratagem

def boolText (b : Bool) : String := if b then "True" else "False"

def Key.written : Key → String
  | .text s => Text.quoted s
  | .other w => w
  | .overlong => "<unprintable int object>"

/-- A text as it stands, any other key in its written form. -/
def Key.label : Key → String
  | .text s => s
  | key => key.written

/-- The written form of a key, if it has one. -/
def Key.shown? : Key → Option String
  | .overlong => none
  | key => some key.written

namespace Value

mutual

/-- Texts are quoted, lists stand in brackets, tuples in parentheses (a single element with a
comma), mappings and sets in braces. -/
def written : Value → String
  | .null => "None"
  | .bool b => boolText b
  | .int n => intText n
  | .float x => x.text
  | .text s => Text.quoted s
  | .list items => "[" ++ ", ".intercalate (writtenItems items) ++ "]"
  | .tuple [item] => "(" ++ written item ++ ",)"
  | .tuple items => "(" ++ ", ".intercalate (writtenItems items) ++ ")"
  | .object fields => "\x7b" ++ ", ".intercalate (writtenFields fields) ++ "\x7d"
  | .set [] => "set()"
  | .set items => "\x7b" ++ ", ".intercalate (writtenItems items) ++ "\x7d"
  | .bytes s => "b" ++ Text.quoted s
  | .date s => s
  | .moment s => s

def writtenItems : List Value → List String
  | [] => []
  | item :: rest => written item :: writtenItems rest

def writtenFields : Fields → List String
  | [] => []
  | (key, value) :: rest => (key.written ++ ": " ++ written value) :: writtenFields rest

end

/-- A text as it stands, anything else in its written form. -/
def plain : Value → String
  | .text s => s
  | v => v.written

mutual

/-- Whether there is an integer in a value that is too long to be written. -/
def hasLong : Value → Bool
  | .int n => isLong n
  | .list items => anyLong items
  | .tuple items => anyLong items
  | .set items => anyLong items
  | .object fields => anyLongField fields
  | _ => false

def anyLong : List Value → Bool
  | [] => false
  | item :: rest => hasLong item || anyLong rest

def anyLongField : Fields → Bool
  | [] => false
  | (key, value) :: rest => key = .overlong || hasLong value || anyLongField rest

end

/-- The written form, if every integer in it can be written. -/
def shown? (v : Value) : Option String := if v.hasLong then none else some v.written

/-- A text as it stands, anything else in its written form, if that can be written. -/
def plain? (v : Value) : Option String := if v.hasLong then none else some v.plain

end Value

end Stratagem
