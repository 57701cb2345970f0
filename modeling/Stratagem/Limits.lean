/-! Ceilings on untrusted documents, as the settings give them. -/

namespace Stratagem

structure Limits where
  maxNodes : Nat := 10000
  maxDepth : Nat := 64
  maxListItems : Nat := 10000
  maxStringChars : Nat := 1000000
  maxClassNameLength : Nat := 100
  deriving DecidableEq, Repr

end Stratagem
