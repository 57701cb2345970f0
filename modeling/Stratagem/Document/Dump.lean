import Stratagem.Document.Basic
import Stratagem.Expression.Dump

/-! Strategy documents, and each of their sections, as values. -/

namespace Stratagem

open Schema (Named)

namespace Value

def jsonKey (key : Key) : Key := .text key.label

mutual

/-- A value within the format proper: tuples and sets become lists. -/
def plainData : Value → Value
  | .list items => .list (plainItems items)
  | .tuple items => .list (plainItems items)
  | .set items => .list (plainItems items)
  | .object fields => .object (plainFields fields)
  | .bytes s => .text s
  | .date s => .text s
  | .moment s => .text s
  | v => v

def plainItems : List Value → List Value
  | [] => []
  | item :: rest => plainData item :: plainItems rest

def plainFields : Fields → Fields
  | [] => []
  | (key, value) :: rest => (jsonKey key, plainData value) :: plainFields rest

end

end Value

def optionalFloat : Option Binary64 → Value
  | none => .null
  | some x => .float x

def optionalNode (dump : α → Value) : Option α → Value
  | none => .null
  | some a => dump a

def IndicatorDeclaration.dump (d : IndicatorDeclaration) : Value :=
  .object [("id", .text d.id), ("type", .text d.type),
    ("params", Value.plainData (.object d.params)), ("label", optionalText d.label)]

def SignalConfig.dump (s : SignalConfig) : Value :=
  .object [("entry_conditions", s.entry.dump), ("exit_conditions", s.exit.dump)]

def MirrorConfig.dump (m : MirrorConfig) : Value :=
  .object [("enabled", .bool m.enabled), ("source", .text (Named.name m.source)),
    ("invert_comparisons", .bool m.invertComparisons),
    ("invert_crossovers", .bool m.invertCrossovers)]

def LeverageValue.dump : LeverageValue → Value
  | .plain operand => operand.dump
  | .clamped operand min max =>
    .object [("type", .text "EXPRESSION"), ("operand", operand.dump),
      ("min", optionalFloat min), ("max", optionalFloat max)]

def LeverageRule.dump (r : LeverageRule) : Value :=
  .object [("id", optionalText r.id), ("label", optionalText r.label),
    ("priority", .int r.priority), ("enabled", .bool r.enabled),
    ("condition", optionalNode Condition.dump r.condition), ("leverage", r.leverage.dump)]

def LeverageSettings.dump (s : LeverageSettings) : Value :=
  .object [("enabled", .bool s.enabled), ("rules", .list (s.rules.map LeverageRule.dump)),
    ("default_leverage", optionalFloat s.defaultLeverage),
    ("max_leverage", optionalFloat s.maxLeverage)]

/-- The parameters known by name. -/
def Parameters.known (p : Parameters) : Fields :=
  [("stoploss", .float p.stoploss),
    ("minimal_roi", .object (p.minimalRoi.map fun (key, x) => (.text key, .float x))),
    ("trailing_stop", .bool p.trailingStop),
    ("trailing_stop_positive", optionalFloat p.trailingStopPositive),
    ("trailing_stop_positive_offset", optionalFloat p.trailingStopPositiveOffset),
    ("use_exit_signal", .bool p.useExitSignal),
    ("timeframe", optionalText p.timeframe),
    ("startup_candle_count", optionalNode (fun (n : Nat) => .int n) p.startupCandleCount)]

def Parameters.dump (p : Parameters) : Value :=
  .object (p.known ++ Value.plainFields p.extra)

def Document.dump (d : Document) : Value :=
  .object [("version", .int d.version), ("position_mode", .text (Named.name d.positionMode)),
    ("indicators", .list (d.indicators.map IndicatorDeclaration.dump)),
    ("long", optionalNode SignalConfig.dump d.long),
    ("short", optionalNode SignalConfig.dump d.short),
    ("mirror_config", optionalNode MirrorConfig.dump d.mirror),
    ("leverage", optionalNode LeverageSettings.dump d.leverage),
    ("parameters", d.parameters.dump),
    ("callbacks", Value.plainData (.object d.callbacks))]

end Stratagem
