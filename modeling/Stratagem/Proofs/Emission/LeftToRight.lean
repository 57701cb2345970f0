import Stratagem.Proofs.Emission.Recursion

/-! The order of emission. `evaluate` is the recursion from left to right with nothing else in it:
it knows no stacks and no tally, and lists the nodes that it emits. Main statement: the turns of the
walk come to an end, with the result of `evaluate` alone on the stack or with its first error, and
the tally has taken note of the nodes on the list. -/

namespace Stratagem

/-- Take note of nodes, one after the other. -/
def Tally.recordAll (t : Tally) (scope : Scope) (visited : List (Node × Emitted)) : Tally :=
  visited.foldl (fun t v => t.record scope v.1 v.2) t

theorem Tally.recordAll_append (t : Tally) (scope : Scope) (xs ys : List (Node × Emitted)) :
    t.recordAll scope (xs ++ ys) = (t.recordAll scope xs).recordAll scope ys :=
  List.foldl_append

theorem Tally.recordAll_singleton (t : Tally) (scope : Scope) (n : Node) (e : Emitted) :
    t.recordAll scope [(n, e)] = t.record scope n e := rfl

/-- The lookback rises to the greatest that was taken note of. -/
theorem Tally.recordAll_lookback (t : Tally) (scope : Scope) (visited : List (Node × Emitted)) :
    (t.recordAll scope visited).lookback =
      Emission.greatest (t.lookback :: visited.map fun v => v.2.lookback) := by
  rw [Emission.greatest, List.foldl_cons, Nat.zero_max]
  induction visited generalizing t with
  | nil => rfl
  | cons v rest ih => exact ih (t.record scope v.1 v.2)

namespace Emission

/-- What a recursion over trees did: the nodes that it emitted, in order, and what came of it. -/
structure Evaluation (α : Type) where
  visited : List (Node × Emitted)
  result : Except EmissionError α

mutual

/-- A node that is too deep fails; any other is emitted from the results of its parts. -/
def evaluate (context : EmissionContext) (depth : Nat) (n : Node) : Evaluation Emitted :=
  if context.maxDepth < depth then ⟨[], .error (.tooDeep context.maxDepth)⟩
  else
    let parts := evaluateAll context (depth + 1) n.children
    match parts.result.bind (node context n) with
    | .error reason => ⟨parts.visited, .error reason⟩
    | .ok e => ⟨parts.visited ++ [(n, e)], .ok e⟩
termination_by 2 * n.size
decreasing_by
  rw [Node.size_eq n]
  omega

/-- Nodes of one level from left to right, up to the first that fails. -/
def evaluateAll (context : EmissionContext) (depth : Nat) (ns : List Node) :
    Evaluation (List Emitted) :=
  match ns with
  | [] => ⟨[], .ok []⟩
  | n :: rest =>
    let first := evaluate context depth n
    match first.result with
    | .error reason => ⟨first.visited, .error reason⟩
    | .ok e =>
      let others := evaluateAll context depth rest
      ⟨first.visited ++ others.visited, others.result.map (e :: ·)⟩
termination_by 2 * Node.sizes ns + 1
decreasing_by
  · simp only [Node.sizes]
    omega
  · have := Node.size_eq n
    simp only [Node.sizes]
    omega

end

/-- The recursion that carries a tally takes note of what `evaluate` lists. -/
def Follows (context : EmissionContext) (n : Node) : Prop :=
  ∀ (depth : Nat) (tally : Tally), descend context depth n tally =
    ((evaluate context depth n).result,
      tally.recordAll context.scope (evaluate context depth n).visited)

theorem descendAll_follows {context : EmissionContext} {ns : List Node}
    (hns : ∀ n ∈ ns, Follows context n) (depth : Nat) (tally : Tally) :
    descendAll context depth ns tally =
      ((evaluateAll context depth ns).result,
        tally.recordAll context.scope (evaluateAll context depth ns).visited) := by
  induction ns generalizing tally with
  | nil =>
    rw [descendAll, evaluateAll]
    rfl
  | cons n rest ih =>
    obtain ⟨hn, hrest⟩ := List.forall_mem_cons.mp hns
    rw [descendAll, evaluateAll, hn depth tally]
    cases (evaluate context depth n).result with
    | error reason => rfl
    | ok e =>
      simp only
      rw [ih hrest, Tally.recordAll_append]
      cases (evaluateAll context depth rest).result <;> rfl

theorem descend_follows (context : EmissionContext) (n : Node) : Follows context n := by
  induction n using Node.induction with
  | step n ih =>
    intro depth tally
    rw [descend, evaluate]
    by_cases hdeep : context.maxDepth < depth
    · rw [if_pos hdeep, if_pos hdeep]
      rfl
    · rw [if_neg hdeep, if_neg hdeep, descendAll_follows ih]
      obtain ⟨visited, result⟩ := evaluateAll context (depth + 1) n.children
      cases result with
      | error reason => rfl
      | ok parts =>
        simp only [Except.bind]
        cases node context n parts with
        | error reason => rfl
        | ok e => simp only [Tally.recordAll_append, Tally.recordAll_singleton]

/-- How a walk ends: nothing is pending and one result is on the stack, or the next turn fails. -/
def WalkState.EndsIn (context : EmissionContext) (w : WalkState) :
    Except EmissionError Emitted → Prop
  | .ok e => w.pending = [] ∧ w.results = [e]
  | .error reason => w.turn context = some (.error reason)

/-- The turns of a walk over one tree come to an end. -/
theorem exists_last_state (context : EmissionContext) (root : Node) (tally : Tally) :
    ∃ turns ≤ 2 * root.size, ∃ last : WalkState,
      Turns context turns (.start root tally) last ∧
      last.tally = (descend context 1 root tally).2 ∧
      last.EndsIn context (descend context 1 root tally).1 := by
  have h := turns_fresh context 1 [root] [] [] tally
  have hsizes : 2 * Node.sizes [root] = 2 * root.size := rfl
  rw [descendAll, hsizes] at h
  generalize descend context 1 root tally = outcome at h ⊢
  obtain ⟨result, t⟩ := outcome
  cases result with
  | error reason =>
    obtain ⟨j, hj, last, hturns, htally, hfails⟩ := h
    exact ⟨j, Nat.le_of_lt hj, last, hturns, htally, hfails⟩
  | ok e =>
    simp only [descendAll] at h
    exact ⟨_, Nat.le_refl _, _, h, rfl, rfl, rfl⟩

/-- **The walk is the evaluation from left to right.** For every tree, scope, set of indicators,
bound on the depth and tally the turns of the walk come to an end, after at most two for each node.
The walk then gives what `evaluate` gives: a result, which is alone on the stack with no node
pending, or the first error, which is the one that the next turn raises. The lookback is the
greatest of what it was and of those of all nodes that were emitted. -/
theorem walk_evaluates_left_to_right (context : EmissionContext) (root : Node) (tally : Tally) :
    ∃ turns ≤ 2 * root.size, ∃ last : WalkState,
      Turns context turns (.start root tally) last ∧
      last.EndsIn context (evaluate context 1 root).result ∧
      tree context root tally = ((evaluate context 1 root).result, last.tally) ∧
      last.tally.lookback = greatest
        (tally.lookback :: (evaluate context 1 root).visited.map fun v => v.2.lookback) := by
  obtain ⟨turns, hle, last, hturns, htally, hends⟩ := exists_last_state context root tally
  rw [descend_follows context root 1 tally] at htally hends
  refine ⟨turns, hle, last, hturns, hends, ?_, ?_⟩
  · rw [tree_eq_descend, descend_follows, htally]
  · rw [htally, Tally.recordAll_lookback]

end Emission

end Stratagem
