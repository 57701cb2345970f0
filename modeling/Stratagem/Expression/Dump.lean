import Stratagem.Expression.Basic

/-! Expression trees as values, every declared field under its own name. -/

namespace Stratagem

open Schema (Named)

def optionalText : Option String → Value
  | none => .null
  | some s => .text s

mutual

def Operand.dump : Operand → Value
  | .constant value => .object [("type", .text "CONSTANT"), ("value", value.toValue)]
  | .indicator id field offset =>
    .object [("type", .text "INDICATOR"), ("indicator_id", .text id),
      ("field", optionalText field), ("offset", .int offset)]
  | .price field offset =>
    .object [("type", .text "PRICE"), ("field", .text (Named.name field)), ("offset", .int offset)]
  | .tradeContext field =>
    .object [("type", .text "TRADE_CONTEXT"), ("field", .text (Named.name field))]
  | .time field zone =>
    .object [("type", .text "TIME"), ("field", .text (Named.name field)),
      ("timezone", optionalText zone)]
  | .computed operation operands =>
    .object [("type", .text "COMPUTED"), ("operation", .text (Named.name operation)),
      ("operands", .list (Operand.dumps operands))]
  | .external source => .object [("type", .text "EXTERNAL"), ("source", optionalText source)]
  | .custom name => .object [("type", .text "CUSTOM"), ("name", optionalText name)]

def Operand.dumps : List Operand → List Value
  | [] => []
  | o :: rest => o.dump :: Operand.dumps rest

end

/-- A condition starts with its mark and its tag. -/
def Mark.object (mark : Mark) (kind : ConditionKind) (parts : Fields) : Value :=
  .object (("id", optionalText mark.id) :: ("label", optionalText mark.label) ::
    ("type", .text (Named.name kind)) :: parts)

mutual

def Condition.dump : Condition → Value
  | .all mark children => mark.object .all [("children", .list (Condition.dumps children))]
  | .any mark children => mark.object .any [("children", .list (Condition.dumps children))]
  | .not mark child => mark.object .not [("child", child.dump)]
  | .ifThen mark c t =>
    mark.object .ifThenElse [("condition", c.dump), ("then", t.dump), ("else", .null)]
  | .ifThenElse mark c t e =>
    mark.object .ifThenElse [("condition", c.dump), ("then", t.dump), ("else", e.dump)]
  | .compare mark left operator right =>
    mark.object .compare
      [("left", left.dump), ("operator", .text (Named.name operator)), ("right", right.dump)]
  | .crossover mark a b => mark.object .crossover [("series1", a.dump), ("series2", b.dump)]
  | .crossunder mark a b => mark.object .crossunder [("series1", a.dump), ("series2", b.dump)]
  | .inRange mark v low high inclusive =>
    mark.object .inRange
      [("value", v.dump), ("min", low.dump), ("max", high.dump), ("inclusive", .bool inclusive)]

def Condition.dumps : List Condition → List Value
  | [] => []
  | c :: rest => c.dump :: Condition.dumps rest

end

def Node.dump : Node → Value
  | .condition c => c.dump
  | .operand o => o.dump

end Stratagem
