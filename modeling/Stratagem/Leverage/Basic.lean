import Stratagem.Emission.Basic

/-!
Leverage routines. A routine tries guarded branches from top to bottom and ends in a tail that
needs no guard, so it always returns a value; when there are too few candles it returns the guard
value at once.
-/

namespace Stratagem

structure Branch where
  condition : Code
  value : Code
  comment : String
  deriving DecidableEq

structure Tail where
  value : Code
  comment : String
  deriving DecidableEq

/-- No rule is unconditional, so the fallback value had to be used. -/
structure FallbackWarning where
  value : Binary64
  deriving DecidableEq

def FallbackWarning.message (w : FallbackWarning) : String :=
  "no unconditional leverage rule; generated code falls back to " ++ w.value.text ++ "x leverage"

structure Routine where
  branches : List Branch
  tail : Tail
  minCandles : Nat
  guardValue : Code
  cap : Option Binary64
  imports : List String
  fallbackUsed : Bool
  warnings : List FallbackWarning
  deriving DecidableEq

namespace Routine

/-- The routine reads candles. -/
def readsCandles (r : Routine) : Bool := 0 < r.minCandles

/-- The routine reads more than the last candle. -/
def readsPrevious (r : Routine) : Bool := 1 < r.minCandles

end Routine

/-- Why a section has no routine; a constant that was given may have no written form. -/
inductive LeverageError where
  | unconditional (names : List String)
  | notNumber (given : Option String)
  | notPositive (given : Option String)
  | notNumeric (operand : String)
  | emission (reason : EmissionError)
  | noLiteral (reason : LiteralError)
  deriving DecidableEq

def LeverageError.message : LeverageError → String
  | .unconditional names =>
    s!"only one leverage rule may be unconditional, found {names.length}: " ++
      ", ".intercalate names
  | .notNumber given => (given.map ("leverage must be a number, got " ++ ·)).getD unwrittenText
  | .notPositive given => (given.map ("leverage must be positive, got " ++ ·)).getD unwrittenText
  | .notNumeric operand => "leverage value must be numeric, got " ++ operand
  | .emission reason => reason.message
  | .noLiteral reason => reason.message

end Stratagem
