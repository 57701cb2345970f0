import Stratagem.Module.Basic

/-!
The text of a strategy module. Every number and text in it is a literal of the generated language,
so writing fails only where a number is not finite or an integer has too many digits.
-/

namespace Stratagem

/-- The name of the one template there is. -/
def templateName : String := "strategy.py.j2"

inductive RenderError where
  | templateMissing (name directory : String)
  | noLiteral (reason : LiteralError)
  deriving DecidableEq

def RenderError.message : RenderError → String
  | .templateMissing name directory =>
    "Template not found: " ++ Text.quoted name ++ " not found in search path: " ++
      Text.quoted directory
  | .noLiteral reason => "Template rendering failed: " ++ reason.message

/-- Lines joined, each line that is not empty behind some spaces. -/
def indent (spaces : Int) (lines : List String) : String :=
  let pad := String.ofList (List.replicate spaces.toNat ' ')
  "\n".intercalate (lines.map fun line => if line.isEmpty then "" else pad ++ line)

namespace StrategyModule

/-- Lines of text, some of which may have no literal. -/
abbrev Lines := Except LiteralError (List String)

def floatText (x : Binary64) : Except LiteralError String := (Value.float x).literal

/-- Lines that are there under a condition. -/
def onlyIf (b : Bool) (lines : List String) : List String := if b then lines else []

def header (m : StrategyModule) : List String :=
  ["# Generated by strategy-compiler from a strategy builder document.",
   "# Changes made here are lost when the strategy is regenerated.",
   "from datetime import datetime",
   "from typing import Optional"] ++
  onlyIf m.usesZoneinfo ["from zoneinfo import ZoneInfo"] ++
  ["", "import numpy as np", "import pandas as pd"] ++
  onlyIf m.usesTalib ["import talib.abstract as ta"] ++
  ["from pandas import DataFrame"] ++
  onlyIf m.usesQtpylib ["from technical import qtpylib"] ++
  ["", "from freqtrade.strategy import IStrategy", "", "",
   "class " ++ m.className ++ "(IStrategy):",
   "    INTERFACE_VERSION = 3",
   ""]

def roiLine (entry : String × Binary64) : Except LiteralError String := do
  return "        " ++ Text.quoted entry.1 ++ ": " ++ (← floatText entry.2) ++ ","

/-- An attribute that is left out when it has no value. -/
def optionalLine (name : String) : Option Binary64 → Lines
  | none => .ok []
  | some x => do return ["    " ++ name ++ " = " ++ (← floatText x)]

def attributes (m : StrategyModule) : Lines := do
  let stoploss ← floatText m.stoploss
  let roi ← m.minimalRoi.mapM roiLine
  let positive ← optionalLine "trailing_stop_positive" m.trailingStopPositive
  let offset ← optionalLine "trailing_stop_positive_offset" m.trailingStopPositiveOffset
  let startup ← (Value.int m.startupCandleCount).literal
  return ["    timeframe = " ++ Text.quoted m.timeframe,
      "    can_short = " ++ boolText m.canShort,
      "",
      "    stoploss = " ++ stoploss,
      "    minimal_roi = \x7b"] ++ roi ++
    ["    \x7d", "", "    trailing_stop = " ++ boolText m.trailingStop] ++ positive ++ offset ++
    onlyIf m.trailingStopPositiveOffset.isSome ["    trailing_only_offset_is_reached = True"] ++
    ["", "    use_exit_signal = " ++ boolText m.useExitSignal,
      "    startup_candle_count = " ++ startup, ""]

/-- A method that works on the table and returns it. -/
def tableMethod (name : String) (body : List String) : List String :=
  ["    def " ++ name ++ "(self, dataframe: DataFrame, metadata: dict) -> DataFrame:"] ++ body ++
    ["        return dataframe"]

def signalLine (s : SignalLine) : String :=
  "        dataframe.loc[" ++ s.mask.render ++ ", " ++ Text.quoted s.column ++ "] = 1"

def indicatorLine (line : String) : String := "        " ++ line

def tableMethods (m : StrategyModule) : List String :=
  tableMethod "populate_indicators" (m.indicatorLines.map indicatorLine) ++ [""] ++
  tableMethod "populate_entry_trend" (m.entrySignals.map signalLine) ++ [""] ++
  tableMethod "populate_exit_trend" (m.exitSignals.map signalLine)

/-- The value, but no more than the exchange allows. -/
def capped (value : Code) : String := "min(" ++ value.render ++ ", max_leverage)"

/-- Nothing is read before there are enough candles. -/
def candleLines (r : Routine) : List String :=
  onlyIf r.readsCandles (
    ["        dataframe, _ = self.dp.get_analyzed_dataframe(pair, self.timeframe)",
     "        if len(dataframe) < " ++ natText r.minCandles ++ ":",
     "            return " ++ capped r.guardValue,
     "        last_candle = dataframe.iloc[-1]"] ++
    onlyIf r.readsPrevious ["        prev_candle = dataframe.iloc[-2]"])

def branchLines (b : Branch) : List String :=
  ["", "        # " ++ b.comment, "        if " ++ b.condition.render ++ ":",
   "            return " ++ capped b.value]

def capLines : Option Binary64 → Lines
  | none => .ok []
  | some x => do return ["        max_leverage = min(max_leverage, " ++ (← floatText x) ++ ")"]

def leverageMethod : Option Routine → Lines
  | none => .ok []
  | some r => do
    let cap ← capLines r.cap
    return ["",
      "    def leverage(self, pair: str, current_time: datetime, current_rate: float,",
      "                 proposed_leverage: float, max_leverage: float, entry_tag: Optional[str],",
      "                 side: str, **kwargs) -> float:",
      "        is_short = side == 'short'"] ++ cap ++ candleLines r ++
      r.branches.flatMap branchLines ++
      ["", "        # " ++ r.tail.comment, "        return " ++ capped r.tail.value]

def lines (m : StrategyModule) : Lines := do
  let attributes ← m.attributes
  let leverage ← leverageMethod m.leverage
  return m.header ++ attributes ++ m.tableMethods ++ leverage

/-- Every line ends in a line feed. -/
def render (m : StrategyModule) : Except LiteralError String := do
  return String.join ((← m.lines).map (· ++ "\n"))

end StrategyModule

/-- Render by the name of a template that is kept in a directory; without a module, the first
literal is missing. -/
def renderTemplate (directory name : String) (m : Option StrategyModule) :
    Except RenderError String :=
  if name ≠ templateName then .error (.templateMissing name directory)
  else match m with
    | none => .error (.noLiteral (.unsupported "Undefined"))
    | some m => m.render.mapError .noLiteral

end Stratagem
