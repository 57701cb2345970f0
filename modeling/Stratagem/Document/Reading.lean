import Stratagem.Document.Basic
import Stratagem.Expression.Reading
import Stratagem.Text.Digits

/-! Reading strategy documents, and each of their sections, from values. -/

namespace Stratagem

open Schema

/-- A mapping from texts to anything. -/
def readMapping : Value → Checked Fields
  | .object fields =>
    let bad := fields.filterMap fun
      | (.text _, _) => none
      | (key, _) => some (⟨[.key key.written, .key "[key]"], .notText⟩ : Fault)
    if bad.isEmpty then .good fields else .bad bad
  | _ => .fault .notMapping

def IndicatorDeclaration.read (v : Value) : Checked IndicatorDeclaration :=
  model "IndicatorDeclaration" v fun fields =>
    IndicatorDeclaration.mk <$> required fields ["id"] (fun w _ => readNonempty w)
      <*> required fields ["type"]
        (fun w _ => (readNonempty w).map fun s => Text.upper (Text.strip s))
      <*> optional fields ["params"] [] (fun w _ => readMapping w)
      <*> nullable fields ["label"] (fun w _ => readText w)

def readIndicators (v : Value) : Checked (List IndicatorDeclaration) :=
  tuple v fun w _ => IndicatorDeclaration.read w

def SignalConfig.read (v : Value) : Checked SignalConfig :=
  model "SignalConfig" v fun fields =>
    SignalConfig.mk
      <$> optional fields ["entry_conditions", "entry", "entryConditions"] .never
        (fun w _ => Condition.read w)
      <*> optional fields ["exit_conditions", "exit", "exitConditions"] .never
        (fun w _ => Condition.read w)

/-- A name of a closed set, whatever its case. -/
def readUpperNamed (α : Type) [Named α] : Value → Checked α
  | .text s => readNamed α (.text (Text.upper s))
  | v => readNamed α v

def MirrorConfig.read (v : Value) : Checked MirrorConfig :=
  model "MirrorConfig" v fun fields =>
    MirrorConfig.mk <$> optional fields ["enabled"] false (fun w _ => readBool w)
      <*> optional fields ["source"] .long (fun w _ => readUpperNamed Direction w)
      <*> optional fields ["invert_comparisons", "invertComparisons"] true (fun w _ => readBool w)
      <*> optional fields ["invert_crossovers", "invertCrossovers"] true (fun w _ => readBool w)

/-! ## Leverage -/

def expressionTag : String := "EXPRESSION"

def readExpressionTag : Value → Checked Unit
  | .text s => if s = expressionTag then .good () else .fault (.notExactly expressionTag)
  | _ => .fault (.notExactly expressionTag)

def readPositive (v : Value) : Checked Binary64 := (readFloat v).andThen positive

/-- A clamp whose bounds are not crossed. -/
def checkBounds (operand : Operand) (min max : Option Binary64) : Checked LeverageValue :=
  match min, max with
  | some low, some high =>
    if high.lt low then .fault (.refused (.boundsCrossed low high))
    else .good (.clamped operand min max)
  | _, _ => .good (.clamped operand min max)

def readClamp (fields : Fields) : Checked LeverageValue :=
  ((fun _ operand min max => (operand, min, max))
    <$> optional fields ["type"] () (fun w _ => readExpressionTag w)
    <*> requiredOperand fields "operand"
    <*> nullable fields ["min"] (fun w _ => readPositive w)
    <*> nullable fields ["max"] (fun w _ => readPositive w)).andThen
      fun (operand, min, max) => checkBounds operand min max

/-- A clamped leverage value on its own. -/
def LeverageValue.readClamped (v : Value) : Checked LeverageValue :=
  model "LeverageExpression" v readClamp

/-- The variants of a leverage value: those of an operand, and the clamp. -/
inductive LeverageKind where
  | operand (kind : OperandKind)
  | clamp

instance : Named LeverageKind where
  all := (Named.members OperandKind).map .operand ++ [.clamp]
  name
    | .operand kind => Named.name kind
    | .clamp => expressionTag

/-- The tag of a value as a leverage value. -/
def leverageKind? (fields : Fields) : Option LeverageKind :=
  match Fields.get? fields (.text "type") with
  | some (.text s) => Named.ofName? LeverageKind s
  | _ => none

def LeverageValue.read (v : Value) : Checked LeverageValue :=
  match v with
  | .int _ | .float _ =>
    (Operand.read (.object [("type", .text "CONSTANT"), ("value", v)])).map .plain
  | .object fields =>
    match leverageKind? fields with
    | some (.operand _) => (Operand.read v).map .plain
    | _ => variant fields fun (_ : LeverageKind) => readClamp fields
  | _ => .fault .notVariant

def LeverageRule.read (v : Value) : Checked LeverageRule :=
  model "LeverageRule" v fun fields =>
    LeverageRule.mk <$> nullable fields ["id"] (fun w _ => readText w)
      <*> nullable fields ["label"] (fun w _ => readText w)
      <*> optional fields ["priority"] 0 (fun w _ => readInt w)
      <*> optional fields ["enabled"] true (fun w _ => readBool w)
      <*> nullable fields ["condition"] (fun w _ => Condition.read w)
      <*> required fields ["leverage"] (fun w _ => LeverageValue.read w)

/-- A bare list is a list of rules. -/
def LeverageSettings.read (v : Value) : Checked LeverageSettings :=
  let v := match v with
    | .list items => .object [("rules", .list items)]
    | .tuple items => .object [("rules", .list items)]
    | v => v
  model "LeverageSettings" v fun fields =>
    LeverageSettings.mk <$> optional fields ["enabled"] true (fun w _ => readBool w)
      <*> optional fields ["rules"] [] (fun w _ => tuple w fun x _ => LeverageRule.read x)
      <*> nullable fields ["default_leverage"] (fun w _ => readPositive w)
      <*> nullable fields ["max_leverage"] (fun w _ => readPositive w)

/-! ## Parameters -/

/-- Digits and one letter for the unit. -/
def isTimeframe (s : String) : Bool :=
  let cs := s.toList
  match cs.dropWhile Char.isDigit with
  | [unit] => cs.head?.any Char.isDigit && "smhdwM".toList.contains unit
  | _ => false

def readTimeframe (v : Value) : Checked String :=
  (readText v).andThen fun s =>
    if isTimeframe s then .good s else .fault (.textPattern "^[0-9]+[smhdwM]$")

/-- Every entry of a table of returns, the values read before the keys are judged. -/
def readRoiEntries : Fields → Checked (List (String × Binary64))
  | [] => .good []
  | (.text key, v) :: rest =>
    (fun x more => (key, x) :: more) <$> (readFloat v).below (.key key) <*> readRoiEntries rest
  | (key, _) :: rest =>
    (fun (_ : Unit) more => more) <$> .bad [⟨[.key key.written, .key "[key]"], .notText⟩]
      <*> readRoiEntries rest

def readRoi : Value → Checked (List (String × Binary64))
  | .object fields => (readRoiEntries fields).andThen fun entries =>
    match entries.find? fun e => !Text.isDigits e.1 with
    | some (key, _) => .fault (.refused (.roiKey key))
    | none => .good entries
  | _ => .fault .notMapping

def Parameters.fieldNames : List String :=
  ["stoploss", "minimal_roi", "trailing_stop", "trailing_stop_positive",
   "trailing_stop_positive_offset", "use_exit_signal", "timeframe", "startup_candle_count"]

/-- The entries with unknown keys. -/
def readExtra : Fields → Checked Fields
  | [] => .good []
  | (.text key, v) :: rest =>
    if Parameters.fieldNames.contains key then readExtra rest
    else (readExtra rest).map ((.text key, v) :: ·)
  | (key, _) :: rest =>
    (fun (_ : Unit) more => more) <$> .bad [⟨[.key key.written], .keyNotText⟩] <*> readExtra rest

def Parameters.read (v : Value) : Checked Parameters :=
  let d := Parameters.default
  model "StrategyParameters" v fun fields =>
    Parameters.mk
      <$> optional fields ["stoploss"] d.stoploss (fun w _ => (readFloat w).andThen nonpositive)
      <*> optional fields ["minimal_roi"] d.minimalRoi (fun w _ => readRoi w)
      <*> optional fields ["trailing_stop"] d.trailingStop (fun w _ => readBool w)
      <*> nullable fields ["trailing_stop_positive"] (fun w _ => readPositive w)
      <*> nullable fields ["trailing_stop_positive_offset"]
        (fun w _ => (readFloat w).andThen nonnegative)
      <*> optional fields ["use_exit_signal"] d.useExitSignal (fun w _ => readBool w)
      <*> nullable fields ["timeframe"] (fun w _ => readTimeframe w)
      <*> nullable fields ["startup_candle_count"] (fun w _ => readNat 0 none w)
      <*> readExtra fields

/-! ## Documents -/

/-- Older documents keep their leverage settings among the callbacks. -/
def liftLeverage (fields : Fields) : Fields :=
  match Fields.present? fields (.text "leverage"), Fields.get? fields (.text "callbacks") with
  | none, some (.object callbacks) =>
    match Fields.present? callbacks (.text "leverage") with
    | some leverage => Fields.set fields (.text "leverage") leverage
    | none => fields
  | _, _ => fields

def Document.read (v : Value) : Checked Document :=
  model "StrategyDocument" v fun raw =>
    let fields := liftLeverage raw
    Document.mk <$> optional fields ["version"] 2 (fun w _ => readInt w)
      <*> optional fields ["position_mode"] .longOnly (fun w _ => readUpperNamed PositionMode w)
      <*> optional fields ["indicators"] [] (fun w _ => readIndicators w)
      <*> nullable fields ["long"] (fun w _ => SignalConfig.read w)
      <*> nullable fields ["short"] (fun w _ => SignalConfig.read w)
      <*> nullable fields ["mirror_config", "mirror", "mirrorConfig"]
        (fun w _ => MirrorConfig.read w)
      <*> nullable fields ["leverage"] (fun w _ => LeverageSettings.read w)
      <*> optional fields ["parameters"] .default (fun w _ => Parameters.read w)
      <*> optional fields ["callbacks"] [] (fun w _ => readMapping w)

end Stratagem
