import Stratagem.Emission.Condition
import Stratagem.Expression.Traversal

/-!
Emission of whole trees. `Emission.walk` keeps a list of pending nodes and a stack of results, so
deep trees cost no recursion: a node comes up once on the way down, where its depth is checked,
and once when the results of its parts are on the stack. The first error ends the walk, and the
tally shows what was emitted until then.
-/

namespace Stratagem

namespace Emission

/-- A node on the way: its depth, and whether its parts have been emitted. -/
structure Frame where
  node : Node
  depth : Nat
  expanded : Bool

/-- Visits that a frame takes at most. -/
def Frame.weight (f : Frame) : Nat := if f.expanded then 1 else 2 * f.node.size

def frameWeights : List Frame → Nat
  | [] => 0
  | f :: rest => f.weight + frameWeights rest

/-- The parts of a node, one level below it. -/
def Frame.parts (f : Frame) : List Frame := f.node.children.map fun n => ⟨n, f.depth + 1, false⟩

theorem frameWeights_append (xs ys : List Frame) :
    frameWeights (xs ++ ys) = frameWeights xs + frameWeights ys := by
  induction xs with
  | nil => simp [frameWeights]
  | cons f rest ih => simp only [List.cons_append, frameWeights, ih]; omega

theorem frameWeights_fresh (depth : Nat) (nodes : List Node) :
    frameWeights (nodes.map fun n => ⟨n, depth, false⟩) = 2 * Node.sizes nodes := by
  induction nodes with
  | nil => rfl
  | cons n rest ih =>
    simp only [List.map_cons, frameWeights, Frame.weight, Node.sizes, ih]
    simp only [Bool.false_eq_true, if_false]
    omega

/-- Emit the pending nodes, topmost first. The results of the parts of a node lie on top of the
stack, the last part topmost. -/
def walk (context : EmissionContext) (pending : List Frame) (results : List Emitted)
    (tally : Tally) : Except EmissionError Emitted × Tally :=
  match pending with
  | [] => (.ok (results.headD absentBranch), tally)
  | ⟨n, depth, false⟩ :: rest =>
    if context.maxDepth < depth then (.error (.tooDeep context.maxDepth), tally)
    else walk context (Frame.parts ⟨n, depth, false⟩ ++ ⟨n, depth, true⟩ :: rest) results tally
  | ⟨n, _, true⟩ :: rest =>
    let count := n.children.length
    match node context n (results.take count).reverse with
    | .error e => (.error e, tally)
    | .ok e => walk context rest (e :: results.drop count) (tally.record context.scope n e)
termination_by frameWeights pending
decreasing_by
  · simp only [frameWeights_append, Frame.parts, frameWeights_fresh, frameWeights, Frame.weight]
    simp only [Bool.false_eq_true, if_false, if_true, Node.size_eq n]
    omega
  · simp only [frameWeights, Frame.weight, if_true]
    omega

/-- Emit a tree. -/
def tree (context : EmissionContext) (root : Node) (tally : Tally) :
    Except EmissionError Emitted × Tally :=
  walk context [⟨root, 1, false⟩] [] tally

/-- A mask over the table; a single truth value is spread over all candles. -/
def asMask (scope : Scope) (e : Emitted) : Emitted :=
  if scope = .series && !e.series then
    { code := .broadcast e.code, series := true, lookback := e.lookback, numeric := false }
  else e

/-- Emit a tree that has to be a condition. -/
def emitCondition (context : EmissionContext) (root : Node) (tally : Tally) :
    Except EmissionError Emitted × Tally :=
  match root with
  | .operand o => (.error (.notCondition o.kind), tally)
  | .condition _ =>
    let (result, tally) := tree context root tally
    (result.map (asMask context.scope), tally)

/-- A value that is no list. -/
def asValue (e : Emitted) : Except EmissionError Emitted :=
  if e.isList then .error .listAsValue else .ok e

/-- Emit a tree that has to be an operand. -/
def emitOperand (context : EmissionContext) (root : Node) (tally : Tally) :
    Except EmissionError Emitted × Tally :=
  match root with
  | .condition c => (.error (.notOperand c.kind), tally)
  | .operand _ =>
    let (result, tally) := tree context root tally
    (result.bind asValue, tally)

end Emission

end Stratagem
