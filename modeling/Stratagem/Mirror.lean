import Stratagem.Document.Basic
import Stratagem.Expression.Traversal

/-!
Mirroring derives the signals of one direction from the other: orderings flip and crossings swap,
while operands stay as they are. The derived side replaces whatever was authored there. Trees are
rebuilt from the leaves up over a stack of results, so deep ones cost no recursion.
-/

namespace Stratagem

open Schema (Named)

structure MirrorPolicy where
  invertComparisons : Bool := true
  invertCrossovers : Bool := true
  deriving DecidableEq, Repr

def MirrorConfig.policy (m : MirrorConfig) : MirrorPolicy :=
  ⟨m.invertComparisons, m.invertCrossovers⟩

/-- The reverse of an ordering; other comparisons are their own. -/
def Comparison.inverse : Comparison → Comparison
  | .gt => .lt
  | .lt => .gt
  | .gte => .lte
  | .lte => .gte
  | op => op

/-- The conditions that a condition is made of, from left to right. -/
def Condition.parts : Condition → List Condition
  | .all _ children => children
  | .any _ children => children
  | .not _ child => [child]
  | .ifThen _ c t => [c, t]
  | .ifThenElse _ c t e => [c, t, e]
  | _ => []

/-- The mirrored condition, once its parts have been mirrored. -/
def Condition.rebuild (p : MirrorPolicy) : Condition → List Condition → Condition
  | .all mark _, parts => .all mark parts
  | .any mark _, parts => .any mark parts
  | .not mark _, [child] => .not mark child
  | .ifThen mark _ _, [c, t] => .ifThen mark c t
  | .ifThenElse mark _ _ _, [c, t, e] => .ifThenElse mark c t e
  | .compare mark left op right, _ =>
    .compare mark left (if p.invertComparisons then op.inverse else op) right
  | .crossover mark a b, _ =>
    if p.invertCrossovers then .crossunder mark a b else .crossover mark a b
  | .crossunder mark a b, _ =>
    if p.invertCrossovers then .crossover mark a b else .crossunder mark a b
  | c, _ => c

theorem Condition.sizes_parts_lt (c : Condition) : Condition.sizes c.parts < c.size := by
  cases c <;> simp only [Condition.parts, Condition.sizes, Condition.size] <;> omega

namespace Mirror

/-- A condition on the way, and whether its parts have been mirrored. -/
structure Frame where
  condition : Condition
  expanded : Bool

/-- Visits that the pending conditions take at most. -/
def weight : List Frame → Nat
  | [] => 0
  | ⟨c, false⟩ :: rest => 2 * c.size + weight rest
  | ⟨_, true⟩ :: rest => 1 + weight rest

theorem weight_fresh (cs : List Condition) (rest : List Frame) :
    weight (cs.map (⟨·, false⟩) ++ rest) = 2 * Condition.sizes cs + weight rest := by
  induction cs with
  | nil => simp [Condition.sizes]
  | cons c cs ih =>
    simp only [List.map_cons, List.cons_append, weight, Condition.sizes, ih]
    omega

/-- Mirror the pending conditions, topmost first. A condition comes up once on the way down and
once more when its mirrored parts lie on top of the stack, the last part topmost. -/
def walk (p : MirrorPolicy) (pending : List Frame) (results : List Condition) : Condition :=
  match pending with
  | [] => results.headD .never
  | ⟨c, false⟩ :: rest => walk p (c.parts.map (⟨·, false⟩) ++ ⟨c, true⟩ :: rest) results
  | ⟨c, true⟩ :: rest =>
    let count := c.parts.length
    walk p rest (c.rebuild p (results.take count).reverse :: results.drop count)
termination_by weight pending
decreasing_by
  · have := c.sizes_parts_lt
    simp only [weight_fresh, weight]
    omega
  · simp only [weight]
    omega

end Mirror

/-- The mirrored copy of a condition. -/
def Condition.mirror (p : MirrorPolicy) (c : Condition) : Condition := Mirror.walk p [⟨c, false⟩] []

def SignalConfig.mirror (p : MirrorPolicy) (s : SignalConfig) : SignalConfig :=
  ⟨s.entry.mirror p, s.exit.mirror p⟩

/-- The source of a mirror has no signals. -/
structure MirrorError where
  source : Direction
  deriving DecidableEq

def MirrorError.message (e : MirrorError) : String :=
  s!"mirror source {Named.name e.source} has no conditions defined"

def Document.withSignal (d : Document) (direction : Direction) (s : SignalConfig) : Document :=
  match direction with
  | .long => { d with long := some s }
  | .short => { d with short := some s }

/-- Apply the mirror policy of a document, if it has one that is enabled. -/
def Document.applyMirror (d : Document) : Except MirrorError Document :=
  match d.mirror with
  | none => .ok d
  | some m =>
    if m.enabled then
      match d.signal m.source with
      | none => .error ⟨m.source⟩
      | some s => .ok (d.withSignal m.source.opposite (s.mirror m.policy))
    else .ok d

end Stratagem
