import Stratagem.Emission.Basic

/-! Code of operands, given the code of their parts. -/

namespace Stratagem

namespace Emission

/-! ## Columns -/

/-- A column some candles ago. -/
def columnAt (scope : Scope) (column : String) (ago : Nat) : Code :=
  match scope with
  | .series => if ago = 0 then .column column else .shifted (.column column) ago
  | .leverage => .candle column ago

/-- The mean of the terms, in parentheses. -/
def mean (terms : List Code) : Code :=
  .paren (.arith .div (.paren (Code.chain (.arith .add) terms)) (.number terms.length))

/-- One column as it is, or the mean of several. -/
def columnsAt (scope : Scope) (columns : List String) (ago : Nat) : Code :=
  match columns with
  | [column] => columnAt scope column ago
  | columns => mean (columns.map fun c => columnAt scope c ago)

/-- Candles that a value of some candles ago reads. -/
def reach (scope : Scope) (ago : Nat) : Nat :=
  match scope with
  | .series => ago
  | .leverage => ago + 1

def columns (scope : Scope) (names : List String) (offset : Nat) : Emitted where
  code := columnsAt scope names offset
  series := scope = .series
  market := true
  prev := some (columnsAt scope names (offset + 1))
  lookback := reach scope offset
  prevLookback := reach scope (offset + 1)

/-- The columns that a price is the mean of. -/
def priceColumns : PriceField → List String
  | .hl2 => ["high", "low"]
  | .hlc3 => ["high", "low", "close"]
  | .ohlc4 => ["open", "high", "low", "close"]
  | field => [Schema.Named.name field]

/-! ## Single operands -/

def constant (value : Constant) : Except EmissionError Emitted :=
  match value.toValue.literal with
  | .error reason => .error (.invalidConstant reason)
  | .ok _ => .ok {
      code := .literal value
      prev := some (.literal value)
      isList := value.isList
      numeric := value.isNumber }

def indicator (context : EmissionContext) (id : String) (field : Option String) (offset : Nat) :
    Except EmissionError Emitted :=
  match context.binding.column id field with
  | .error reason => .error (.indicator reason)
  | .ok column => .ok (columns context.scope [column] offset)

/-- The argument of the leverage callback that a field is, and whether it is a number. -/
def callbackArgument : TradeField → Option (String × Bool)
  | .pair => some ("pair", false)
  | .side => some ("side", false)
  | .isShort => some ("is_short", true)
  | .currentRate => some ("current_rate", true)
  | .proposedLeverage => some ("proposed_leverage", true)
  | .maxLeverage => some ("max_leverage", true)
  | .entryTag => some ("entry_tag", false)
  | _ => none

def tradeContext (scope : Scope) (field : TradeField) : Except EmissionError Emitted :=
  match scope, callbackArgument field with
  | .series, _ => .error (.contextOutsideCallback field)
  | .leverage, none => .error (.contextUnavailable field)
  | .leverage, some (name, numeric) =>
    .ok { code := .variable name, prev := some (.variable name), numeric }

/-- A part of a time, or whether the day is the fifth of the week (from zero) or later. -/
def timePart (part : TimePart → Code) : TimeField → Code
  | .hour => part .hour
  | .minute => part .minute
  | .dayOfWeek => part .dayOfWeek
  | .dayOfMonth => part .dayOfMonth
  | .month => part .month
  | .isWeekend => .paren (.compare .gte (part .dayOfWeek) (.number 5))

def time (scope : Scope) (field : TimeField) (zone : Option String) : Emitted :=
  match scope with
  | .series =>
    let date := Code.column "date"
    let base := zone.elim date (.seriesZone date)
    let code := timePart (.seriesPart base) field
    { code, series := true, prev := some (.shifted code 1) }
  | .leverage =>
    let now := Code.variable "current_time"
    let base := zone.elim now (.momentZone now)
    let code := timePart (.momentPart base) field
    { code, prev := some code }

/-! ## Arithmetic -/

/-- The terms joined by an operator, in parentheses. -/
def joined (op : Arith) (terms : List Code) : Code := .paren (Code.chain (.arith op) terms)

def extremum (scope : Scope) (f : Extremum) (terms : List Code) : Code :=
  match scope with
  | .series => Code.chain (.pairwise f) terms
  | .leverage => .extremum f (Code.chain .also terms)

/-- The change from the second term to the first, in hundredths of the second. -/
def percentChange (a b : Code) : Code :=
  .paren (.arith .mul (.arith .div (.paren (.arith .sub a b)) b) (.number 100))

/-- An operation on terms; an operation of one or two terms takes the first ones. -/
def arithmetic (scope : Scope) (operation : Operation) (terms : List Code) : Code :=
  let term (i : Nat) : Code := terms.getD i (.literal (.scalar .null))
  match operation with
  | .add | .sum => joined .add terms
  | .sub => joined .sub terms
  | .mul => joined .mul terms
  | .div => joined .div terms
  | .neg => .paren (.negative (term 0))
  | .abs => .pointwise .abs (term 0)
  | .round => .pointwise .round (term 0)
  | .floor => .pointwise .floor (term 0)
  | .ceil => .pointwise .ceil (term 0)
  | .average => mean terms
  | .percentChange => percentChange (term 0) (term 1)
  | .min => extremum scope .min terms
  | .max => extremum scope .max terms

/-- The greatest of some numbers. -/
def greatest (xs : List Nat) : Nat := xs.foldl max 0

def computed (scope : Scope) (operation : Operation) (operands : List Emitted) :
    Except EmissionError Emitted :=
  match operands.find? (! ·.numeric) with
  | some operand => .error (.computedNotNumeric operation operand.text)
  | none => .ok {
      code := arithmetic scope operation (operands.map Emitted.code)
      series := operands.any Emitted.series
      market := operands.any Emitted.market
      prev := some (arithmetic scope operation (operands.map Emitted.before))
      lookback := greatest (operands.map Emitted.lookback)
      prevLookback := greatest (operands.map fun e => max e.prevLookback e.lookback) }

/-- Code of an operand. -/
def operand (context : EmissionContext) (o : Operand) (parts : List Emitted) :
    Except EmissionError Emitted :=
  match o with
  | .constant value => constant value
  | .indicator id field offset => indicator context id field offset
  | .price field offset => .ok (columns context.scope (priceColumns field) offset)
  | .tradeContext field => tradeContext context.scope field
  | .time field zone => .ok (time context.scope field zone)
  | .computed operation _ => computed context.scope operation parts
  | .external _ => .error (.notImplemented .external)
  | .custom _ => .error (.notImplemented .custom)

end Emission

end Stratagem
