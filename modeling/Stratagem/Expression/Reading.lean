import Stratagem.Expression.Basic
import Stratagem.Expression.Zones
import Stratagem.Text.Case

/-!
Reading expression trees from values. Operands and conditions are variants tagged by their `type`;
an unknown or missing tag is a fault and never falls through to a default.
-/

namespace Stratagem

open Schema

/-! ## Constants -/

/-- The problems of a value that is none of the scalars. -/
def notScalar : List Fault :=
  [⟨[.key "bool"], .notBool⟩, ⟨[.key "int"], .notInt⟩, ⟨[.key "float"], .notFloat⟩,
   ⟨[.key "str"], .notText⟩]

def readScalar : Value → Checked Scalar
  | .null => .good .null
  | .bool b => .good (.bool b)
  | .int n => .good (.int n)
  | .float x => .good (.float x)
  | .text s => .good (.text s)
  | _ => .bad notScalar

/-- The step that leads into the list reading of a constant. -/
def listStep : Step := .key "list[nullable[union[bool,int,float,str]]]"

/-- A scalar or a list of scalars, kept as it is. A value that is neither is told what each
reading lacks. -/
def readConstantShape (v : Value) : Checked Constant :=
  match readScalar v with
  | .good s => .good (.scalar s)
  | .bad faults =>
    match v.items? with
    | none => .bad (faults ++ [⟨[listStep], .notList⟩])
    | some items =>
      match readItems 0 items (fun w _ => readScalar w) with
      | .good scalars => .good (.list scalars)
      | .bad more => .bad (faults ++ more.map fun f => { f with place := listStep :: f.place })

def Scalar.notFinite? : Scalar → Option Binary64
  | .float x => if x.isFinite then none else some x
  | _ => none

/-- The first number in a constant that is not finite. -/
def Constant.notFinite? : Constant → Option Binary64
  | .scalar s => s.notFinite?
  | .list items => items.findSome? Scalar.notFinite?

def readConstant (v : Value) : Checked Constant :=
  (readConstantShape v).andThen fun c =>
    match c.notFinite? with
    | some x => .fault (.refused (.constantNotFinite x))
    | none => .good c

/-! ## Operands -/

/-- The greatest number of candles an operand may look back. -/
def maxOffset : Nat := 500

def readOffset (fields : Fields) : Checked Nat :=
  optional fields ["offset"] 0 fun v _ => readNat 0 (some maxOffset) v

/-- An operation by its name or long name, in any case and with blanks around it. -/
def readOperation : Value → Checked Operation
  | .text s =>
    let key := Text.lower (Text.strip s)
    readNamed Operation (.text ((Operation.longNames.lookup key).getD key))
  | v => readNamed Operation v

/-- The name of a time zone; the empty name and UTC stand for none. -/
def readZone (v : Value) : Checked (Option String) :=
  (readText v).andThen fun s =>
    if s.isEmpty || s == "UTC" then .good none
    else if isZone s then .good (some s)
    else .fault (.refused (.unknownZone s))

def checkArity (operation : Operation) (operands : List Operand) : Checked Operand :=
  if operation.arity.allows operands.length then .good (.computed operation operands)
  else .fault (.refused
    (.operandCount (Named.name operation) operation.arity.text operands.length))

def Operand.read (v : Value) : Checked Operand :=
  match v with
  | .object fields => variant fields fun
    | OperandKind.constant =>
      Operand.constant <$>
        optional fields ["value"] (.scalar .null) fun w _ => readConstant w
    | .indicator =>
      Operand.indicator
        <$> required fields ["indicator_id", "indicatorId"] (fun w _ => readNonempty w)
        <*> nullable fields ["field"] (fun w _ => readText w)
        <*> readOffset fields
    | .price =>
      Operand.price <$> optional fields ["field"] .close (fun w _ => readNamed PriceField w)
        <*> readOffset fields
    | .tradeContext =>
      Operand.tradeContext <$> required fields ["field"] fun w _ => readNamed TradeField w
    | .time =>
      Operand.time <$> required fields ["field"] (fun w _ => readNamed TimeField w)
        <*> (nullable fields ["timezone"] fun w _ => readZone w).map Option.join
    | .computed =>
      (Prod.mk <$> required fields ["operation"] (fun w _ => readOperation w)
        <*> optional fields ["operands"] [] fun w _ => tuple w fun x _ => Operand.read x).andThen
          fun (operation, operands) => checkArity operation operands
    | .external => Operand.external <$> nullable fields ["source"] fun w _ => readText w
    | .custom => Operand.custom <$> nullable fields ["name"] fun w _ => readText w
  | _ => .fault .notVariant
termination_by sizeOf v

/-! ## Conditions -/

def readMark (fields : Fields) : Checked Mark :=
  Mark.mk <$> nullable fields ["id"] (fun w _ => readText w)
    <*> nullable fields ["label"] (fun w _ => readText w)

def ifThenElseOf (mark : Mark) (condition then_ : Condition) : Option Condition → Condition
  | none => .ifThen mark condition then_
  | some else_ => .ifThenElse mark condition then_ else_

def requiredOperand (fields : Fields) (name : String) : Checked Operand :=
  required fields [name] fun w _ => Operand.read w

def Condition.read (v : Value) : Checked Condition :=
  match v with
  | .object fields => variant fields fun
    | ConditionKind.all =>
      Condition.all <$> readMark fields
        <*> optional fields ["children"] [] fun w _ => tuple w fun x _ => Condition.read x
    | .any =>
      Condition.any <$> readMark fields
        <*> optional fields ["children"] [] fun w _ => tuple w fun x _ => Condition.read x
    | .not =>
      Condition.not <$> readMark fields
        <*> required fields ["child"] fun w _ => Condition.read w
    | .ifThenElse =>
      ifThenElseOf <$> readMark fields
        <*> (required fields ["condition"] fun w _ => Condition.read w)
        <*> (required fields ["then"] fun w _ => Condition.read w)
        <*> nullable fields ["else", "else_"] fun w _ => Condition.read w
    | .compare =>
      Condition.compare <$> readMark fields <*> requiredOperand fields "left"
        <*> required fields ["operator"] (fun w _ => readNamed Comparison w)
        <*> requiredOperand fields "right"
    | .crossover =>
      Condition.crossover <$> readMark fields <*> requiredOperand fields "series1"
        <*> requiredOperand fields "series2"
    | .crossunder =>
      Condition.crossunder <$> readMark fields <*> requiredOperand fields "series1"
        <*> requiredOperand fields "series2"
    | .inRange =>
      Condition.inRange <$> readMark fields <*> requiredOperand fields "value"
        <*> requiredOperand fields "min" <*> requiredOperand fields "max"
        <*> optional fields ["inclusive"] false (fun w _ => readBool w)
  | _ => .fault .notVariant
termination_by sizeOf v

end Stratagem
