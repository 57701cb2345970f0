import Stratagem.Value.Written

/-!
Literals of generated code: scalars and lists of scalars, at any nesting. Tuples are written as
lists; numbers that are not finite, integers with too many digits, and every other kind of value
have no literal.
-/

namespace Stratagem

inductive LiteralError where
  | notFinite (x : Binary64)
  | overlong
  | unsupported (kind : String)
  deriving DecidableEq

def LiteralError.message : LiteralError → String
  | .notFinite x => "cannot render non-finite float " ++ x.text
  | .overlong => unwrittenText
  | .unsupported kind => "cannot render " ++ kind ++ " as a literal"

namespace Value

mutual

def literal : Value → Except LiteralError String
  | .float x => if x.isFinite then .ok x.text else .error (.notFinite x)
  | .null => .ok (written .null)
  | .bool b => .ok (boolText b)
  | .int n => if isLong n then .error .overlong else .ok (intText n)
  | .text s => .ok (Text.quoted s)
  | .list items => do return "[" ++ ", ".intercalate (← literals items) ++ "]"
  | .tuple items => do return "[" ++ ", ".intercalate (← literals items) ++ "]"
  | v => .error (.unsupported v.kind)

def literals : List Value → Except LiteralError (List String)
  | [] => .ok []
  | item :: rest => do
    let first ← literal item
    return first :: (← literals rest)

end

end Value

end Stratagem
