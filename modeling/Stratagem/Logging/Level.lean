import Stratagem.Schema.Scalar

/-! Levels of log records. -/

namespace Stratagem

open Schema (Named)

inductive LogLevel where
  | debug | info | warning | error | critical
  deriving DecidableEq, Repr

instance : Named LogLevel where
  all := [.debug, .info, .warning, .error, .critical]
  name
    | .debug => "DEBUG" | .info => "INFO" | .warning => "WARNING" | .error => "ERROR"
    | .critical => "CRITICAL"

def LogLevel.severity : LogLevel → Nat
  | .debug => 10
  | .info => 20
  | .warning => 30
  | .error => 40
  | .critical => 50

end Stratagem
