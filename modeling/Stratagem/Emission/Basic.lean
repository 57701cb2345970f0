import Stratagem.Code
import Stratagem.Indicator.Binding

/-!
Emission turns expression trees into code. In series scope operands are columns and conditions are
masks over the whole table; in leverage scope everything is a single value, read from the last
candles and the arguments of the callback.
-/

namespace Stratagem

open Schema (Named)

inductive Scope where
  | series | leverage
  deriving DecidableEq, Repr

instance : Named Scope where
  all := [.series, .leverage]
  name
    | .series => "series" | .leverage => "leverage"

/-- Code for one node and what its parent has to know of it: whether it is a series, whether it
comes from market data, the same value one candle earlier, how many candles each reads, and
whether it is a list or a number. -/
structure Emitted where
  code : Code
  series : Bool := false
  market : Bool := false
  prev : Option Code := none
  lookback : Nat := 0
  prevLookback : Nat := 0
  isList : Bool := false
  numeric : Bool := true
  deriving DecidableEq

def Emitted.text (e : Emitted) : String := e.code.render

/-- The value one candle earlier; a value without one does not change. -/
def Emitted.before (e : Emitted) : Code := e.prev.getD e.code

inductive Side where
  | left | right
  deriving DecidableEq, Repr

inductive EmissionError where
  | tooDeep (limit : Int)
  | notImplemented (kind : OperandKind)
  | invalidConstant (reason : LiteralError)
  | indicator (reason : IndicatorError)
  | contextOutsideCallback (field : TradeField)
  | contextUnavailable (field : TradeField)
  | computedNotNumeric (operation : Operation) (operand : String)
  | listOnLeft
  | listNeeded (operator : Comparison) (operand : String)
  | listCompared (operator : Comparison)
  | orderNotNumeric (operator : Comparison) (side : Side) (operand : String)
  | crossingNotMarket (kind : ConditionKind) (position : Nat) (operand : String)
  | rangeNotNumeric (operand : String)
  | listAsValue
  | notCondition (kind : OperandKind)
  | notOperand (kind : ConditionKind)
  deriving DecidableEq

def EmissionError.message : EmissionError → String
  | .tooDeep limit => s!"expression nesting exceeds depth {limit}"
  | .notImplemented kind => s!"{Named.name kind} operands are not implemented"
  | .invalidConstant reason => "invalid constant: " ++ reason.message
  | .indicator reason => reason.message
  | .contextOutsideCallback field =>
    s!"TRADE_CONTEXT field '{Named.name field}' is only available in callbacks"
  | .contextUnavailable field =>
    s!"TRADE_CONTEXT field '{Named.name field}' is not available in the leverage callback " ++
      "(no open trade yet)"
  | .computedNotNumeric operation operand =>
    s!"COMPUTED '{Named.name operation}' needs numeric operands, got " ++ operand
  | .listOnLeft => "a list constant can only appear on the right of in/not_in"
  | .listNeeded operator operand =>
    s!"'{Named.name operator}' needs a list constant on the right, got " ++ operand
  | .listCompared operator => s!"'{Named.name operator}' cannot compare against a list constant"
  | .orderNotNumeric operator side operand =>
    let place := match side with
      | .left => "left"
      | .right => "right"
    s!"'{Named.name operator}' needs numeric operands, {place} side is " ++ operand
  | .crossingNotMarket kind position operand =>
    s!"{Named.name kind} series{position} must be a market series " ++
      "(INDICATOR, PRICE, or COMPUTED over them), got " ++ operand
  | .rangeNotNumeric operand => "IN_RANGE needs numeric operands, got " ++ operand
  | .listAsValue => "a list constant cannot be used as a value"
  | .notCondition kind => s!"expected a condition node, got '{Named.name kind}'"
  | .notOperand kind => s!"expected an operand, got condition {Named.name kind}"

/-- What emission depends on. A root has depth 1, so a bound below that admits no tree. -/
structure EmissionContext where
  scope : Scope
  binding : Binding
  maxDepth : Int

/-- What emission leaves behind: imports that the code needs, and the most candles it reads. -/
structure Tally where
  imports : List String
  lookback : Nat
  deriving DecidableEq

def Tally.empty : Tally := ⟨[], 0⟩

end Stratagem
