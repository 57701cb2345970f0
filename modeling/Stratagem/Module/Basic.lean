import Stratagem.Leverage.Basic

/-! The generated strategy module before it is written down. -/

namespace Stratagem

/-- A column of signals and the mask of the candles it is set on. -/
structure SignalLine where
  column : String
  mask : Code
  deriving DecidableEq

structure StrategyModule where
  className : String
  usesTalib : Bool
  usesQtpylib : Bool
  usesZoneinfo : Bool
  timeframe : String
  canShort : Bool
  stoploss : Binary64
  minimalRoi : List (String × Binary64)
  trailingStop : Bool
  trailingStopPositive : Option Binary64
  trailingStopPositiveOffset : Option Binary64
  useExitSignal : Bool
  startupCandleCount : Int
  indicatorLines : List String
  entrySignals : List SignalLine
  exitSignals : List SignalLine
  leverage : Option Routine

end Stratagem
