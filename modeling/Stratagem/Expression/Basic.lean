import Stratagem.Expression.Words

/-!
Expression trees. Operands give values, conditions give truth values. A constant may be a list,
which only makes sense on the right of a membership test. Conditions carry the id and label that
the builder gave them.
-/

namespace Stratagem

open Schema (Named)

inductive Scalar where
  | null
  | bool (b : Bool)
  | int (n : Int)
  | float (x : Binary64)
  | text (s : String)
  deriving DecidableEq

inductive Constant where
  | scalar (s : Scalar)
  | list (items : List Scalar)
  deriving DecidableEq

def Scalar.toValue : Scalar → Value
  | .null => .null
  | .bool b => .bool b
  | .int n => .int n
  | .float x => .float x
  | .text s => .text s

def Constant.toValue : Constant → Value
  | .scalar s => s.toValue
  | .list items => .list (items.map Scalar.toValue)

/-- A number, and not a truth value, text or list. -/
def Constant.isNumber : Constant → Bool
  | .scalar (.int _) => true
  | .scalar (.float _) => true
  | _ => false

def Constant.isList : Constant → Bool
  | .list _ => true
  | .scalar _ => false

inductive Operand where
  | constant (value : Constant)
  | indicator (id : String) (field : Option String) (offset : Nat)
  | price (field : PriceField) (offset : Nat)
  | tradeContext (field : TradeField)
  | time (field : TimeField) (zone : Option String)
  | computed (operation : Operation) (operands : List Operand)
  | external (source : Option String)
  | custom (name : Option String)

/-- What the builder calls a condition. -/
structure Mark where
  id : Option String
  label : Option String
  deriving DecidableEq, Repr

inductive Condition where
  | all (mark : Mark) (children : List Condition)
  | any (mark : Mark) (children : List Condition)
  | not (mark : Mark) (child : Condition)
  | ifThen (mark : Mark) (condition then_ : Condition)
  | ifThenElse (mark : Mark) (condition then_ else_ : Condition)
  | compare (mark : Mark) (left : Operand) (operator : Comparison) (right : Operand)
  | crossover (mark : Mark) (series1 series2 : Operand)
  | crossunder (mark : Mark) (series1 series2 : Operand)
  | inRange (mark : Mark) (value min max : Operand) (inclusive : Bool)

def Operand.kind : Operand → OperandKind
  | .constant _ => .constant
  | .indicator .. => .indicator
  | .price .. => .price
  | .tradeContext _ => .tradeContext
  | .time .. => .time
  | .computed .. => .computed
  | .external _ => .external
  | .custom _ => .custom

def Condition.kind : Condition → ConditionKind
  | .all .. => .all
  | .any .. => .any
  | .not .. => .not
  | .ifThen .. => .ifThenElse
  | .ifThenElse .. => .ifThenElse
  | .compare .. => .compare
  | .crossover .. => .crossover
  | .crossunder .. => .crossunder
  | .inRange .. => .inRange

def Condition.mark : Condition → Mark
  | .all mark _ => mark
  | .any mark _ => mark
  | .not mark _ => mark
  | .ifThen mark .. => mark
  | .ifThenElse mark .. => mark
  | .compare mark .. => mark
  | .crossover mark .. => mark
  | .crossunder mark .. => mark
  | .inRange mark .. => mark

/-- The condition that never holds. -/
def Condition.never : Condition := .any ⟨none, none⟩ []

/-- Any node of a tree. -/
inductive Node where
  | condition (c : Condition)
  | operand (o : Operand)

def Node.kindName : Node → String
  | .condition c => Named.name c.kind
  | .operand o => Named.name o.kind

/-- The id of a condition; operands have none. -/
def Node.id? : Node → Option String
  | .condition c => c.mark.id
  | .operand _ => none

/-- The parts of a node, from left to right. -/
def Node.children : Node → List Node
  | .condition (.all _ children) => children.map .condition
  | .condition (.any _ children) => children.map .condition
  | .condition (.not _ child) => [.condition child]
  | .condition (.ifThen _ c t) => [.condition c, .condition t]
  | .condition (.ifThenElse _ c t e) => [.condition c, .condition t, .condition e]
  | .condition (.compare _ left _ right) => [.operand left, .operand right]
  | .condition (.crossover _ a b) => [.operand a, .operand b]
  | .condition (.crossunder _ a b) => [.operand a, .operand b]
  | .condition (.inRange _ v low high _) => [.operand v, .operand low, .operand high]
  | .operand (.computed _ operands) => operands.map .operand
  | .operand _ => []

end Stratagem
