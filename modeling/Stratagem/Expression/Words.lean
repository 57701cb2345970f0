import Stratagem.Schema.Scalar

/-! The closed sets of names that expression trees are written with. -/

namespace Stratagem

open Schema (Named)

inductive Comparison where
  | eq | neq | gt | gte | lt | lte | in_ | notIn
  deriving DecidableEq, Repr

instance : Named Comparison where
  all := [.eq, .neq, .gt, .gte, .lt, .lte, .in_, .notIn]
  name
    | .eq => "eq" | .neq => "neq" | .gt => "gt" | .gte => "gte"
    | .lt => "lt" | .lte => "lte" | .in_ => "in" | .notIn => "not_in"

inductive Operation where
  | add | sub | mul | div | min | max | abs | neg | round | floor | ceil
  | percentChange | average | sum
  deriving DecidableEq, Repr

instance : Named Operation where
  all := [.add, .sub, .mul, .div, .min, .max, .abs, .neg, .round, .floor, .ceil,
    .percentChange, .average, .sum]
  name
    | .add => "add" | .sub => "sub" | .mul => "mul" | .div => "div"
    | .min => "min" | .max => "max" | .abs => "abs" | .neg => "neg"
    | .round => "round" | .floor => "floor" | .ceil => "ceil"
    | .percentChange => "percent_change" | .average => "average" | .sum => "sum"

/-- Long names of operations in older documents. -/
def Operation.longNames : List (String × String) :=
  [("subtract", "sub"), ("multiply", "mul"), ("divide", "div"), ("negate", "neg"),
   ("avg", "average")]

/-- How many operands an operation takes: a least number, and a greatest if there is one. -/
structure Arity where
  least : Nat
  most : Option Nat
  deriving DecidableEq

def Operation.arity : Operation → Arity
  | .add | .mul | .min | .max => ⟨2, none⟩
  | .sub | .div | .percentChange => ⟨2, some 2⟩
  | .abs | .neg | .round | .floor | .ceil => ⟨1, some 1⟩
  | .average | .sum => ⟨1, none⟩

def Arity.allows (a : Arity) (count : Nat) : Bool :=
  a.least ≤ count && a.most.all (count ≤ ·)

def Arity.text (a : Arity) : String :=
  match a.most with
  | none => s!"at least {a.least}"
  | some most => if a.least = most then natText most else s!"{a.least}-{most}"

inductive PriceField where
  | open_ | high | low | close | volume | hl2 | hlc3 | ohlc4
  deriving DecidableEq, Repr

instance : Named PriceField where
  all := [.open_, .high, .low, .close, .volume, .hl2, .hlc3, .ohlc4]
  name
    | .open_ => "open" | .high => "high" | .low => "low" | .close => "close"
    | .volume => "volume" | .hl2 => "hl2" | .hlc3 => "hlc3" | .ohlc4 => "ohlc4"

inductive TimeField where
  | hour | minute | dayOfWeek | dayOfMonth | month | isWeekend
  deriving DecidableEq, Repr

instance : Named TimeField where
  all := [.hour, .minute, .dayOfWeek, .dayOfMonth, .month, .isWeekend]
  name
    | .hour => "hour" | .minute => "minute" | .dayOfWeek => "day_of_week"
    | .dayOfMonth => "day_of_month" | .month => "month" | .isWeekend => "is_weekend"

inductive TradeField where
  | pair | side | isShort | currentRate | proposedLeverage | maxLeverage | entryTag
  | currentProfit | currentProfitPct | entryRate | tradeDuration | nrOfEntries | stakeAmount
  deriving DecidableEq, Repr

instance : Named TradeField where
  all := [.pair, .side, .isShort, .currentRate, .proposedLeverage, .maxLeverage, .entryTag,
    .currentProfit, .currentProfitPct, .entryRate, .tradeDuration, .nrOfEntries, .stakeAmount]
  name
    | .pair => "pair" | .side => "side" | .isShort => "is_short"
    | .currentRate => "current_rate" | .proposedLeverage => "proposed_leverage"
    | .maxLeverage => "max_leverage" | .entryTag => "entry_tag"
    | .currentProfit => "current_profit" | .currentProfitPct => "current_profit_pct"
    | .entryRate => "entry_rate" | .tradeDuration => "trade_duration"
    | .nrOfEntries => "nr_of_entries" | .stakeAmount => "stake_amount"

inductive OperandKind where
  | constant | indicator | price | tradeContext | time | computed | external | custom
  deriving DecidableEq, Repr

instance : Named OperandKind where
  all := [.constant, .indicator, .price, .tradeContext, .time, .computed, .external, .custom]
  name
    | .constant => "CONSTANT" | .indicator => "INDICATOR" | .price => "PRICE"
    | .tradeContext => "TRADE_CONTEXT" | .time => "TIME" | .computed => "COMPUTED"
    | .external => "EXTERNAL" | .custom => "CUSTOM"

inductive ConditionKind where
  | all | any | not | ifThenElse | compare | crossover | crossunder | inRange
  deriving DecidableEq, Repr

instance : Named ConditionKind where
  all := [.all, .any, .not, .ifThenElse, .compare, .crossover, .crossunder, .inRange]
  name
    | .all => "AND" | .any => "OR" | .not => "NOT" | .ifThenElse => "IF_THEN_ELSE"
    | .compare => "COMPARE" | .crossover => "CROSSOVER" | .crossunder => "CROSSUNDER"
    | .inRange => "IN_RANGE"

end Stratagem
