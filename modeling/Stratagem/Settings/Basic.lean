import Stratagem.Limits
import Stratagem.Logging.Level

/-! Settings of the compiler, and what in them is legal but risky. -/

namespace Stratagem

/-- What to return where no leverage rule is unconditional. -/
structure LeverageDefaults where
  fallback : Binary64 := Binary64.ofRatio false 1 1
  deriving DecidableEq

structure OutputSettings where
  defaultTimeframe : String := "5m"
  validateSyntax : Bool := true
  deriving DecidableEq

structure LoggingSettings where
  level : LogLevel := .info
  format : String := "%(asctime)s - %(name)s - %(levelname)s - %(message)s"
  deriving DecidableEq

structure Settings where
  version : String := "1.0"
  limits : Limits := {}
  leverage : LeverageDefaults := {}
  output : OutputSettings := {}
  logging : LoggingSettings := {}
  deriving DecidableEq

instance : Inhabited Settings := ⟨{}⟩

inductive SettingsWarning where
  | fallbackLeverage (value : Binary64)
  | deepDocuments (depth : Nat)
  | largeDocuments (nodes : Nat)
  | unchecked
  deriving DecidableEq

def SettingsWarning.message : SettingsWarning → String
  | .fallbackLeverage value =>
    "leverage.fallback_leverage=" ++ value.text ++
      " applies leverage to strategies that never asked for it. Consider 1.0."
  | .deepDocuments depth =>
    s!"limits.max_depth={depth} is deep enough that pathological documents may be slow to validate."
  | .largeDocuments nodes =>
    s!"limits.max_nodes={nodes} allows very large documents. " ++
      "Builder documents rarely exceed a few thousand nodes."
  | .unchecked => "output.validate_syntax=false may return code that does not parse."

/-- The greatest depth that raises no warning. -/
def modestDepth : Nat := 128

/-- The greatest number of nodes that raises no warning. -/
def modestNodes : Nat := 100000

def Settings.warnings (s : Settings) : List SettingsWarning :=
  (if s.leverage.fallback.gtInt 1 then [.fallbackLeverage s.leverage.fallback] else []) ++
  (if modestDepth < s.limits.maxDepth then [.deepDocuments s.limits.maxDepth] else []) ++
  (if modestNodes < s.limits.maxNodes then [.largeDocuments s.limits.maxNodes] else []) ++
  (if s.output.validateSyntax then [] else [.unchecked])

end Stratagem
