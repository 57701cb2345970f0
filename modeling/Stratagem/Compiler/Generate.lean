import Stratagem.Compiler.Prepare
import Stratagem.Indicator.Builtin
import Stratagem.Leverage.Compile

/-!
From a document to the text of a strategy module: indicators are bound, the signals of the traded
directions emitted, leverage compiled, and the module put together, written and checked.
-/

namespace Stratagem

/-- What the expressions of a document compile to. -/
structure Plan where
  binding : Binding
  entries : List SignalLine
  exits : List SignalLine
  tally : Tally
  routine : Option Routine

/-- The columns of entries and exits. -/
def signalColumns : Direction → String × String
  | .long => ("enter_long", "exit_long")
  | .short => ("enter_short", "exit_short")

/-- Emit the mask of a condition, and go on from its tally. -/
def emitMask (context : EmissionContext) (tally : Tally) (c : Condition) :
    Except CompileError (Code × Tally) :=
  match Emission.emitCondition context (.condition c) tally with
  | (.ok e, tally) => .ok (e.code, tally)
  | (.error reason, _) => .error (.emission reason)

/-- Entry and exit masks of each direction in turn. -/
def emitSignals (context : EmissionContext) (d : Document) (tally : Tally) :
    List Direction → Except CompileError (List SignalLine × List SignalLine × Tally)
  | [] => .ok ([], [], tally)
  | direction :: rest =>
    match d.signal direction with
    | none => .error (.signalsMissing d.positionMode direction)
    | some s => do
      let (enter, leave) := signalColumns direction
      let (entry, tally) ← emitMask context tally s.entry
      let (exit, tally) ← emitMask context tally s.exit
      let (entries, exits, tally) ← emitSignals context d tally rest
      return (⟨enter, entry⟩ :: entries, ⟨leave, exit⟩ :: exits, tally)

/-- The routine of the leverage section, if that is there and enabled. -/
def compileLeverage (settings : Settings) (binding : Binding) :
    Option LeverageSettings → Except CompileError (Option Routine)
  | none => .ok none
  | some l =>
    if l.enabled then
      ((Leverage.compile binding settings.leverage settings.limits.maxDepth l).map some).mapError
        .leverage
    else .ok none

def plan (settings : Settings) (registry : Registry) (d : Document) :
    Except CompileError Plan := do
  let binding ← (registry.bind d.indicators).mapError .binding
  let context : EmissionContext := ⟨.series, binding, settings.limits.maxDepth⟩
  let (entries, exits, tally) ← emitSignals context d .empty d.positionMode.directions
  let routine ← compileLeverage settings binding d.leverage
  return { binding, entries, exits, tally, routine }

/-! ## The module -/

/-- The minutes that a key of the returns table stands for. -/
def minutes (key : String) : Except RoiError Nat :=
  let leading := (key.toList.takeWhile fun c => (Text.decimalValue? c).isSome).length
  if maxDigits < leading then .error (.tooLong leading)
  else match Text.decimalNumber? key with
    | some n => .ok n
    | none => .error (.notDecimal key)

/-- The entries of the returns table by minutes. -/
def sortedRoi (entries : List (String × Binary64)) :
    Except RoiError (List (String × Binary64)) := do
  let keyed ← entries.mapM fun e => do return (← minutes e.1, e)
  return (keyed.mergeSort fun a b => a.1 ≤ b.1).map Prod.snd

/-- All imports of a plan. -/
def Plan.imports (p : Plan) : List String :=
  p.binding.imports ++ p.tally.imports ++ (p.routine.map Routine.imports).getD []

/-- Candles needed before the first signal. -/
def Plan.startup (p : Plan) : Int :=
  max (max p.binding.warmup p.tally.lookback) ((p.routine.map Routine.minCandles).getD 0)

/-- The time frame of a document, or the default one. -/
def timeframeOf (settings : Settings) (parameters : Parameters) : String :=
  (parameters.timeframe.filter (! ·.isEmpty)).getD settings.output.defaultTimeframe

def assemble (settings : Settings) (className : String) (d : Document) (p : Plan) :
    Except CompileError StrategyModule := do
  let minimalRoi ← (sortedRoi d.parameters.minimalRoi).mapError .roi
  let indicatorLines ← p.binding.code.mapError .snippet
  return {
    className
    usesTalib := p.imports.contains "talib"
    usesQtpylib := p.imports.contains "qtpylib"
    usesZoneinfo := p.imports.contains "zoneinfo"
    timeframe := timeframeOf settings d.parameters
    canShort := d.positionMode.trades .short
    stoploss := d.parameters.stoploss
    minimalRoi
    trailingStop := d.parameters.trailingStop
    trailingStopPositive := d.parameters.trailingStopPositive
    trailingStopPositiveOffset := d.parameters.trailingStopPositiveOffset
    useExitSignal := d.parameters.useExitSignal
    startupCandleCount := (d.parameters.startupCandleCount.map Int.ofNat).getD p.startup
    indicatorLines
    entrySignals := p.entries
    exitSignals := p.exits
    leverage := p.routine }

/-- The text of a module, checked if the settings say so. -/
def writeModule (settings : Settings) (m : StrategyModule) : Except CompileError String := do
  let code ← m.render.mapError fun reason => .render (.noLiteral reason)
  if settings.output.validateSyntax then
    match OutputCheck.problems code (some m.className) with
    | [] => return code
    | problems => .error (.output problems)
  else return code

/-! ## Everything together -/

structure Generated where
  code : String
  warnings : List FallbackWarning

/-- The module of a document that is ready to compile. -/
def compileDocument (settings : Settings) (registry : Registry) (className : String)
    (d : Document) : Except CompileError Generated := do
  let p ← plan settings registry d
  let m ← assemble settings className d p
  let code ← writeModule settings m
  return ⟨code, (p.routine.map Routine.warnings).getD []⟩

/-- A class name that was given. -/
def requireName (limits : Limits) (name : Option String) : Except CompileError String := do
  let name := name.getD ""
  (checkClassName limits.maxClassNameLength name).mapError .className
  return name

/-- Compile a raw document into the text of a strategy module. -/
def generate (settings : Settings) (registry : Registry) (raw : Value) (name : Option String) :
    Except CompileError Generated := do
  let className ← requireName settings.limits name
  let document ← prepare settings.limits raw
  compileDocument settings registry className document

end Stratagem
