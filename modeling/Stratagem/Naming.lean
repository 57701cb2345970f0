import Stratagem.Text.Identifier
import Stratagem.Number.Layout

/-!
Names of generated classes. A name starts with a capital and goes on with letters and digits; one
line feed may end it. Words of the generated language and names that the module imports are
reserved.
-/

namespace Stratagem

inductive ClassNameError where
  | missing
  | tooLong (limit : Int)
  | malformed (name : String)
  | reserved (name : String)
  deriving DecidableEq

def ClassNameError.message : ClassNameError → String
  | .missing => "class name is required"
  | .tooLong limit => "class name must be at most " ++ intText limit ++ " characters"
  | .malformed name =>
    "class name '" ++ name ++
      "' must be PascalCase (start with uppercase letter, alphanumeric only)"
  | .reserved name => "class name '" ++ name ++ "' is reserved"

/-- A capital, then letters and digits of ASCII. -/
def isClassWord : List Char → Bool
  | [] => false
  | c :: rest => c.isUpper && rest.all Char.isAlphanum

/-- The constants of the generated language, and what the module imports. -/
def reservedNames : List String :=
  ["False", "None", "True", "IStrategy", "DataFrame", "Optional", "ZoneInfo"]

def checkClassName (limit : Int) (name : String) : Except ClassNameError Unit :=
  if name.isEmpty then .error .missing
  else if limit < name.length then .error (.tooLong limit)
  else if !isClassWord (Text.chomp name.toList) then .error (.malformed name)
  else if reservedNames.contains name then .error (.reserved name)
  else .ok ()

/-- The name of a strategy without a title. -/
def defaultClassName : String := "GeneratedStrategy"

/-- A class name for a title: its words in one, made to start with a letter and kept apart from
the reserved names. -/
def classNameOf (title : String) : String :=
  let name := Text.pascalCase title
  match name.toList with
  | [] => defaultClassName
  | c :: _ =>
    let name := if c.isAlpha then name else "Strategy" ++ name
    if reservedNames.contains name then name ++ "Strategy" else name

end Stratagem
