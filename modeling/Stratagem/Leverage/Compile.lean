import Stratagem.Emission.Walk
import Stratagem.Leverage.Basic
import Stratagem.Settings.Basic
import Stratagem.Text.Comment

/-!
Compiling leverage rules. Enabled rules go from the highest priority down, equal priorities in
document order. A rule with a condition becomes a branch; the rule without one, or else the
default of the document, or else the fallback of the settings, becomes the tail.
-/

namespace Stratagem

namespace Leverage

/-- Enabled rules, highest priority first. -/
def ordered (rules : List LeverageRule) : List LeverageRule :=
  (rules.filter LeverageRule.enabled).mergeSort fun a b => b.priority ≤ a.priority

/-- The first text that is there and not empty. -/
def firstText? : List (Option String) → Option String
  | [] => none
  | some s :: rest => if s.isEmpty then firstText? rest else some s
  | none :: rest => firstText? rest

def ruleName? (r : LeverageRule) : Option String := firstText? [r.label, r.id]

/-- The comment of the rule at a position. -/
def ruleComment (index : Nat) (r : LeverageRule) : String :=
  let comment := Text.comment Text.commentLimit ((ruleName? r).getD "")
  let name := if comment.isEmpty then "Rule " ++ natText (index + 1) else comment
  name ++ " (priority " ++ intText r.priority ++ ")"

/-- The comment, if the priority can be written. -/
def checkedComment (index : Nat) (r : LeverageRule) : Except LeverageError String :=
  if isLong r.priority then .error (.noLiteral .overlong) else .ok (ruleComment index r)

/-- Emission goes on from one rule to the next. -/
abbrev Compile := StateT Tally (Except LeverageError)

def emission (run : Tally → Except EmissionError Emitted × Tally) : Compile Emitted := fun tally =>
  match run tally with
  | (.ok e, tally) => .ok (e, tally)
  | (.error reason, _) => .error (.emission reason)

/-- A number as code, if it is finite. -/
def floatCode (x : Binary64) : Except LeverageError Code :=
  match (Value.float x).literal with
  | .ok _ => .ok (.float x)
  | .error reason => .error (.noLiteral reason)

def isPositive : Scalar → Bool
  | .int n => 0 < n
  | .float x => x.gtInt 0
  | _ => false

/-- A constant leverage is a number above zero. -/
def checkConstant (value : Constant) : Except LeverageError Unit :=
  match value with
  | .scalar s =>
    if !value.isNumber then .error (.notNumber value.toValue.shown?)
    else if isPositive s then .ok ()
    else .error (.notPositive value.toValue.shown?)
  | .list _ => .error (.notNumber value.toValue.shown?)

def operandValue (context : EmissionContext) (o : Operand) : Compile (Code × Nat) := do
  match o with
  | .constant value => checkConstant value
  | _ => pure ()
  let e ← emission (Emission.emitOperand context (.operand o))
  if e.numeric then return (e.code, e.lookback) else throw (.notNumeric e.text)

/-- Keep a value at or below a bound, or at or above it. -/
def clamp (f : Extremum) (bound : Option Binary64) (code : Code) : Except LeverageError Code :=
  match bound with
  | none => .ok code
  | some x => do return .extremum f (.also (← floatCode x) code)

/-- The code of a leverage value and the candles it reads. -/
def valueCode (context : EmissionContext) : LeverageValue → Compile (Code × Nat)
  | .plain o => operandValue context o
  | .clamped o min max => do
    let (code, lookback) ← operandValue context o
    return (← clamp .max min (← clamp .min max code), lookback)

/-- A rule with its code; `lookback` is that of the value. -/
structure CompiledRule where
  condition : Option Code
  value : Code
  lookback : Nat
  comment : String

/-- The value comes before the condition, and the comment last. -/
def compileRule (context : EmissionContext) (index : Nat) (r : LeverageRule) :
    Compile CompiledRule := do
  let (value, lookback) ← valueCode context r.leverage
  let condition ← match r.condition with
    | none => pure none
    | some c => do
      let e ← emission (Emission.emitCondition context (.condition c))
      pure (some e.code)
  return { condition, value, lookback, comment := ← checkedComment index r }

def compileRules (context : EmissionContext) (start : Nat) :
    List LeverageRule → Compile (List CompiledRule)
  | [] => return []
  | r :: rest => do
    let first ← compileRule context start r
    return first :: (← compileRules context (start + 1) rest)

def CompiledRule.branch? (r : CompiledRule) : Option Branch :=
  r.condition.map fun condition => ⟨condition, r.value, r.comment⟩

/-- The tail, whether it reads no candle, and whether it is the fallback. -/
def tailOf (settings : LeverageSettings) (fallback : Binary64) (rules : List CompiledRule) :
    Except LeverageError (Tail × Bool × Bool) :=
  match rules.find? (·.condition.isNone), settings.defaultLeverage with
  | some r, _ => .ok (⟨r.value, r.comment⟩, r.lookback = 0, false)
  | none, some x => do return (⟨← floatCode x, "Default leverage"⟩, true, false)
  | none, none =>
    .ok (⟨.float fallback, "Fallback leverage (no unconditional rule)"⟩, true, true)

/-- At most one enabled rule may go without a condition. -/
def checkUnconditional (rules : List LeverageRule) : Except LeverageError Unit :=
  let bare := rules.filter (·.condition.isNone)
  if 1 < bare.length then .error (.unconditional (bare.map fun r => (ruleName? r).getD "?"))
  else .ok ()

/-- The routine of a document; the scope of the context is that of leverage. -/
def compile (binding : Binding) (defaults : LeverageDefaults) (maxDepth : Int)
    (settings : LeverageSettings) : Except LeverageError Routine := do
  let context : EmissionContext := ⟨.leverage, binding, maxDepth⟩
  let rules := ordered settings.rules
  checkUnconditional rules
  let (compiled, tally) ← (compileRules context 0 rules).run Tally.empty
  let fallback ← floatCode defaults.fallback
  let (tail, steady, fallbackUsed) ← tailOf settings defaults.fallback compiled
  return {
    branches := compiled.filterMap CompiledRule.branch?
    tail
    minCandles := tally.lookback
    guardValue := if steady then tail.value else fallback
    cap := settings.maxLeverage
    imports := tally.imports
    fallbackUsed
    warnings := if fallbackUsed then [⟨defaults.fallback⟩] else [] }

end Leverage

end Stratagem
