import Stratagem.Expression.Basic

/-!
Strategy documents: declared indicators, the signals of each trading direction, an optional
mirror policy, leverage rules, and trading parameters.
-/

namespace Stratagem

open Schema (Named)

inductive Direction where
  | long | short
  deriving DecidableEq, Repr

instance : Named Direction where
  all := [.long, .short]
  name
    | .long => "LONG" | .short => "SHORT"

def Direction.opposite : Direction → Direction
  | .long => .short
  | .short => .long

/-- The directions a strategy trades. -/
inductive PositionMode where
  | longOnly | shortOnly | longAndShort
  deriving DecidableEq, Repr

instance : Named PositionMode where
  all := [.longOnly, .shortOnly, .longAndShort]
  name
    | .longOnly => "LONG_ONLY" | .shortOnly => "SHORT_ONLY" | .longAndShort => "LONG_AND_SHORT"

def PositionMode.trades : PositionMode → Direction → Bool
  | .longOnly, d => d == .long
  | .shortOnly, d => d == .short
  | .longAndShort, _ => true

/-- The traded directions, long before short. -/
def PositionMode.directions (mode : PositionMode) : List Direction :=
  [.long, .short].filter mode.trades

structure IndicatorDeclaration where
  id : String
  type : String
  params : Fields
  label : Option String

structure SignalConfig where
  entry : Condition
  exit : Condition

structure MirrorConfig where
  enabled : Bool
  source : Direction
  invertComparisons : Bool
  invertCrossovers : Bool
  deriving DecidableEq, Repr

/-- A leverage value: an operand as it is, or one clamped to bounds. -/
inductive LeverageValue where
  | plain (operand : Operand)
  | clamped (operand : Operand) (min max : Option Binary64)

/-- A leverage for a condition, or for every trade when there is none. -/
structure LeverageRule where
  id : Option String
  label : Option String
  priority : Int
  enabled : Bool
  condition : Option Condition
  leverage : LeverageValue

structure LeverageSettings where
  enabled : Bool
  rules : List LeverageRule
  defaultLeverage : Option Binary64
  maxLeverage : Option Binary64

/-- Trading parameters; `extra` keeps the keys that are not known. -/
structure Parameters where
  stoploss : Binary64
  minimalRoi : List (String × Binary64)
  trailingStop : Bool
  trailingStopPositive : Option Binary64
  trailingStopPositiveOffset : Option Binary64
  useExitSignal : Bool
  timeframe : Option String
  startupCandleCount : Option Nat
  extra : Fields

structure Document where
  version : Int
  positionMode : PositionMode
  indicators : List IndicatorDeclaration
  long : Option SignalConfig
  short : Option SignalConfig
  mirror : Option MirrorConfig
  leverage : Option LeverageSettings
  parameters : Parameters
  callbacks : Fields

def Document.signal (d : Document) : Direction → Option SignalConfig
  | .long => d.long
  | .short => d.short

/-- Signals that never fire. -/
def SignalConfig.never : SignalConfig := ⟨.never, .never⟩

def Parameters.default : Parameters where
  stoploss := Binary64.ofRatio true 1 10
  minimalRoi := [("0", Binary64.ofRatio false 1 10)]
  trailingStop := false
  trailingStopPositive := none
  trailingStopPositiveOffset := none
  useExitSignal := true
  timeframe := none
  startupCandleCount := none
  extra := []

end Stratagem
