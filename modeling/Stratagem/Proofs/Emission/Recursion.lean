import Stratagem.Emission.Walk
import Stratagem.Proofs.Expression.Subtrees
import Stratagem.Proofs.Failure

/-! Emission by recursion on the tree. `Emission.walk` keeps its pending nodes and results on
stacks and takes one turn after the other; `descend` emits the parts of a node from left to right,
stops at the first error, and then applies the rule of the node. `turns_fresh` says where the turns
lead, and `walk_fresh` that the walk and the recursion do the same. -/

namespace Stratagem

namespace Emission

variable {context : EmissionContext} {k depth : Nat} {n : Node} {s t tally : Tally} {e : Emitted}
  {es : List Emitted}

/-! ## Turns -/

/-- Where a walk stands. -/
structure WalkState where
  pending : List Frame
  results : List Emitted
  tally : Tally

namespace WalkState

/-- The root is all that is pending. -/
def start (root : Node) (tally : Tally) : WalkState := ⟨[⟨root, 1, false⟩], [], tally⟩

/-- The next turn, if a node is pending: its parts come first, or it takes their results from the
stack. -/
def turn (context : EmissionContext) (w : WalkState) : Option (Except EmissionError WalkState) :=
  match w.pending with
  | [] => none
  | ⟨n, depth, false⟩ :: rest =>
    some (if context.maxDepth < depth then .error (.tooDeep context.maxDepth)
      else .ok ⟨Frame.parts ⟨n, depth, false⟩ ++ ⟨n, depth, true⟩ :: rest, w.results, w.tally⟩)
  | ⟨n, _, true⟩ :: rest =>
    let count := n.children.length
    some ((node context n (w.results.take count).reverse).map fun e =>
      ⟨rest, e :: w.results.drop count, w.tally.record context.scope n e⟩)

/-- What the walk gives from here on. -/
def outcome (context : EmissionContext) (w : WalkState) : Except EmissionError Emitted × Tally :=
  walk context w.pending w.results w.tally

/-- The walk goes on from where its next turn leads, and stops where that fails. -/
theorem outcome_of_turn {context : EmissionContext} {w : WalkState} :
    (∀ w', w.turn context = some (.ok w') → w.outcome context = w'.outcome context) ∧
      ∀ reason, w.turn context = some (.error reason) →
        w.outcome context = (.error reason, w.tally) := by
  obtain ⟨pending, results, tally⟩ := w
  match pending with
  | [] => simp [turn]
  | ⟨n, depth, false⟩ :: rest =>
    simp only [outcome, walk, turn]
    split <;> simp
  | ⟨n, depth, true⟩ :: rest =>
    simp only [outcome, walk, turn]
    cases node context n (results.take n.children.length).reverse <;> simp [Except.map]

end WalkState

/-- So many turns lead from one state to another. -/
inductive Turns (context : EmissionContext) : Nat → WalkState → WalkState → Prop
  | none (w : WalkState) : Turns context 0 w w
  | next {k : Nat} {w w' w'' : WalkState} :
    w.turn context = some (.ok w') → Turns context k w' w'' → Turns context (k + 1) w w''

variable {w w' : WalkState}

theorem Turns.trans {j : Nat} {w'' : WalkState} (h : Turns context j w w')
    (h' : Turns context k w' w'') : Turns context (j + k) w w'' := by
  induction h with
  | none w => rwa [Nat.zero_add]
  | next hturn _ ih =>
    rw [Nat.add_right_comm]
    exact .next hturn (ih h')

theorem Turns.outcome_eq (h : Turns context k w w') : w.outcome context = w'.outcome context := by
  induction h with
  | none w => rfl
  | next hturn _ ih => rw [WalkState.outcome_of_turn.1 _ hturn, ih]

/-! ## The recursion -/

mutual

/-- Emit a node: its parts one level deeper, then the node itself. -/
def descend (context : EmissionContext) (depth : Nat) (n : Node) (tally : Tally) :
    Except EmissionError Emitted × Tally :=
  if context.maxDepth < depth then (.error (.tooDeep context.maxDepth), tally)
  else match descendAll context (depth + 1) n.children tally with
    | (.error reason, tally) => (.error reason, tally)
    | (.ok parts, tally) => match node context n parts with
      | .error reason => (.error reason, tally)
      | .ok e => (.ok e, tally.record context.scope n e)
termination_by 2 * n.size
decreasing_by
  rw [Node.size_eq n]
  omega

/-- Emit nodes of one level, from left to right. -/
def descendAll (context : EmissionContext) (depth : Nat) (ns : List Node) (tally : Tally) :
    Except EmissionError (List Emitted) × Tally :=
  match ns with
  | [] => (.ok [], tally)
  | n :: rest => match descend context depth n tally with
    | (.error reason, tally) => (.error reason, tally)
    | (.ok e, tally) => match descendAll context depth rest tally with
      | (.error reason, tally) => (.error reason, tally)
      | (.ok es, tally) => (.ok (e :: es), tally)
termination_by 2 * Node.sizes ns + 1
decreasing_by
  · simp only [Node.sizes]
    omega
  · have := Node.size_eq n
    simp only [Node.sizes]
    omega

end

/-- A node that was emitted: its parts were, and its rule took them. -/
theorem descend_eq_ok (h : descend context depth n s = (.ok e, t)) :
    ∃ parts u, descendAll context (depth + 1) n.children s = (.ok parts, u) ∧
      node context n parts = .ok e ∧ t = u.record context.scope n e := by
  rw [descend] at h
  split at h
  · cases h
  · split at h
    · cases h
    · next parts u hparts =>
      split at h
      · cases h
      · next hnode =>
        cases h
        exact ⟨parts, u, hparts, hnode, rfl⟩

/-- Nodes of one level that were emitted: the first one was, and then the others. -/
theorem descendAll_cons_eq_ok {ns : List Node}
    (h : descendAll context depth (n :: ns) s = (.ok es, t)) :
    ∃ e u fs, descend context depth n s = (.ok e, u) ∧
      descendAll context depth ns u = (.ok fs, t) ∧ es = e :: fs := by
  rw [descendAll] at h
  split at h
  · cases h
  · next e u hfirst =>
    split at h
    · cases h
    · next fs v hothers =>
      cases h
      exact ⟨e, u, fs, hfirst, hothers, rfl⟩

theorem descendAll_nil_eq_ok (h : descendAll context depth [] s = (.ok es, t)) :
    es = [] ∧ t = s := by
  rw [descendAll] at h
  cases h
  exact ⟨rfl, rfl⟩

section Induction

variable {context : EmissionContext} (one : Node → Tally → Emitted → Tally → Prop)
  (all : List Node → Tally → List Emitted → Tally → Prop)

theorem descendAll_induction (nil : ∀ s, all [] s [] s)
    (cons : ∀ {n s e u ns es t}, one n s e u → all ns u es t → all (n :: ns) s (e :: es) t)
    {ns : List Node}
    (hns : ∀ n ∈ ns, ∀ depth s t e, descend context depth n s = (.ok e, t) → one n s e t)
    {depth : Nat} {s t : Tally} {es : List Emitted}
    (h : descendAll context depth ns s = (.ok es, t)) : all ns s es t := by
  induction ns generalizing s es with
  | nil =>
    obtain ⟨rfl, rfl⟩ := descendAll_nil_eq_ok h
    exact nil _
  | cons n rest ih =>
    obtain ⟨hn, hrest⟩ := List.forall_mem_cons.mp hns
    obtain ⟨e, u, fs, hfirst, hothers, rfl⟩ := descendAll_cons_eq_ok h
    exact cons (hn _ _ _ _ hfirst) (ih hrest hothers)

/-- What carries over from the parts of a node to the node holds of every node that is emitted:
`one` is said of a node, `all` of the nodes of one level, both with the tally before and after. -/
theorem descend_induction (nil : ∀ s, all [] s [] s)
    (cons : ∀ {n s e u ns es t}, one n s e u → all ns u es t → all (n :: ns) s (e :: es) t)
    (rule : ∀ {n s parts u e}, all n.children s parts u → node context n parts = .ok e →
      one n s e (u.record context.scope n e))
    {n : Node} {depth : Nat} {s t : Tally} {e : Emitted}
    (h : descend context depth n s = (.ok e, t)) : one n s e t := by
  induction n using Node.induction generalizing depth s t e with
  | step n ih =>
    obtain ⟨parts, u, hparts, hnode, rfl⟩ := descend_eq_ok h
    exact rule (descendAll_induction one all nil cons (fun m hm _ _ _ _ => ih m hm) hparts) hnode

end Induction

theorem descendAll_length {ns : List Node} {tally' : Tally}
    (h : descendAll context depth ns tally = (.ok es, tally')) : es.length = ns.length := by
  induction ns generalizing tally es with
  | nil =>
    obtain ⟨rfl, -⟩ := descendAll_nil_eq_ok h
    rfl
  | cons n rest ih =>
    obtain ⟨e, u, fs, -, hrest, rfl⟩ := descendAll_cons_eq_ok h
    simp [ih hrest]

/-- What the walk does with the results of some nodes at once. -/
def resume (context : EmissionContext) (rest : List Frame) (results : List Emitted) :
    Except EmissionError (List Emitted) × Tally → Except EmissionError Emitted × Tally
  | (.error reason, tally) => (.error reason, tally)
  | (.ok es, tally) => walk context rest (es.reverse ++ results) tally

/-- Fewer than `k` turns lead to a state whose next turn fails. -/
def FailsWithin (context : EmissionContext) (k : Nat) (w : WalkState) (reason : EmissionError)
    (tally : Tally) : Prop :=
  ∃ j < k, ∃ last : WalkState, Turns context j w last ∧ last.tally = tally ∧
    last.turn context = some (.error reason)

theorem FailsWithin.after {i j : Nat} {reason : EmissionError}
    (h : FailsWithin context j w' reason tally) (hturns : Turns context i w w') (hle : i + j ≤ k) :
    FailsWithin context k w reason tally := by
  obtain ⟨j', hj, last, hlast, htally, hfails⟩ := h
  exact ⟨i + j', by omega, last, hturns.trans hlast, htally, hfails⟩

/-- Where `k` turns lead: to the results of some nodes on top of the stack, or to a failure on the
way. -/
def Leads (context : EmissionContext) (k : Nat) (w : WalkState) (rest : List Frame)
    (results : List Emitted) : Except EmissionError (List Emitted) × Tally → Prop
  | (.error reason, tally) => FailsWithin context k w reason tally
  | (.ok es, tally) => Turns context k w ⟨rest, es.reverse ++ results, tally⟩

/-- The turn that takes the results of the parts from the stack. -/
theorem turn_expanded (context : EmissionContext) (n : Node) (depth : Nat) (rest : List Frame)
    {parts : List Emitted} (results : List Emitted) (tally : Tally)
    (h : parts.length = n.children.length) :
    WalkState.turn context ⟨⟨n, depth, true⟩ :: rest, parts.reverse ++ results, tally⟩ =
      some ((node context n parts).map fun e =>
        ⟨rest, e :: results, tally.record context.scope n e⟩) := by
  have hlength : parts.reverse.length = n.children.length := by rw [List.length_reverse, h]
  simp only [WalkState.turn]
  rw [List.take_left' hlength, List.drop_left' hlength, List.reverse_reverse]

/-- From fresh nodes the turns lead where the recursion does, two for each node of their trees. The
induction is on the total size of the nodes: the parts of the first one are fresh nodes again. -/
theorem turns_fresh (context : EmissionContext) (depth : Nat) (ns : List Node) (rest : List Frame)
    (results : List Emitted) (tally : Tally) :
    Leads context (2 * Node.sizes ns)
      ⟨ns.map (fun n => ⟨n, depth, false⟩) ++ rest, results, tally⟩ rest results
      (descendAll context depth ns tally) := by
  induction h : Node.sizes ns using Nat.strongRecOn generalizing depth ns rest results tally with
  | ind k ih =>
    subst h
    cases ns with
    | nil =>
      rw [descendAll]
      exact .none _
    | cons n ns =>
      have hturns : 2 * Node.sizes (n :: ns) =
          1 + 2 * Node.sizes n.children + (1 + 2 * Node.sizes ns) := by
        rw [Node.sizes, Node.size_eq n]
        omega
      rw [List.map_cons, List.cons_append, descendAll, descend]
      by_cases hdeep : context.maxDepth < depth
      · simp only [if_pos hdeep]
        exact ⟨0, by omega, _, .none _, rfl, by simp only [WalkState.turn, if_pos hdeep]⟩
      · simp only [if_neg hdeep]
        have hdown : Turns context 1
            ⟨⟨n, depth, false⟩ :: (ns.map (fun n => ⟨n, depth, false⟩) ++ rest), results, tally⟩
            ⟨n.children.map (fun n => ⟨n, depth + 1, false⟩) ++
              ⟨n, depth, true⟩ :: (ns.map (fun n => ⟨n, depth, false⟩) ++ rest), results, tally⟩ :=
          .next (by simp only [WalkState.turn, if_neg hdeep, Frame.parts]) (.none _)
        have hparts := ih (Node.sizes n.children) (by omega) (depth + 1) n.children
          (⟨n, depth, true⟩ :: (ns.map (fun n => ⟨n, depth, false⟩) ++ rest)) results tally rfl
        rcases hinner : descendAll context (depth + 1) n.children tally with ⟨inner, t⟩
        rw [hinner] at hparts
        cases inner with
        | error reason => exact FailsWithin.after hparts hdown (by omega)
        | ok parts =>
          have hup := hdown.trans hparts
          have hturn := turn_expanded context n depth
            (ns.map (fun n => ⟨n, depth, false⟩) ++ rest) results t (descendAll_length hinner)
          cases hnode : node context n parts with
          | error reason =>
            rw [hnode] at hturn
            simp only [hnode]
            exact ⟨_, by omega, _, hup, rfl, hturn⟩
          | ok e =>
            rw [hnode] at hturn
            have hrest := ih (Node.sizes ns) (by omega) depth ns rest (e :: results)
              (t.record context.scope n e) rfl
            simp only [hnode]
            generalize descendAll context depth ns (t.record context.scope n e) = outcome at hrest ⊢
            obtain ⟨after, t'⟩ := outcome
            cases after with
            | error reason =>
              exact FailsWithin.after hrest (hup.trans (.next hturn (.none _))) (by omega)
            | ok es =>
              have hall := hup.trans (.next hturn hrest)
              rw [hturns, Nat.add_comm 1 (2 * Node.sizes ns)]
              simpa [Leads] using hall

/-- The walk emits fresh nodes by recursion and goes on with what was pending behind them. -/
theorem walk_fresh (context : EmissionContext) (depth : Nat) (ns : List Node) (rest : List Frame)
    (results : List Emitted) (tally : Tally) :
    walk context (ns.map (fun n => ⟨n, depth, false⟩) ++ rest) results tally =
      resume context rest results (descendAll context depth ns tally) := by
  have h := turns_fresh context depth ns rest results tally
  generalize descendAll context depth ns tally = outcome at h
  obtain ⟨result, t⟩ := outcome
  cases result with
  | error reason =>
    obtain ⟨j, -, last, hturns, rfl, hfails⟩ := h
    exact hturns.outcome_eq.trans (WalkState.outcome_of_turn.2 _ hfails)
  | ok es => exact Turns.outcome_eq h

theorem tree_eq_descend (context : EmissionContext) (root : Node) (tally : Tally) :
    tree context root tally = descend context 1 root tally := by
  have h := walk_fresh context 1 [root] [] [] tally
  rw [descendAll] at h
  simp only [List.map_cons, List.map_nil, List.nil_append, List.cons_append] at h
  rw [tree, h]
  match descend context 1 root tally with
  | (.error reason, t) => simp only [resume]
  | (.ok e, t) =>
    simp only [descendAll, resume]
    rw [walk]
    simp

/-! ## The result alone -/

/-- What a node is emitted as, the tally left aside. -/
def build (context : EmissionContext) (depth : Nat) (n : Node) : Except EmissionError Emitted :=
  (descend context depth n Tally.empty).1

mutual

/-- The tally is only written to. -/
theorem descend_fst (context : EmissionContext) (depth : Nat) (n : Node) (t u : Tally) :
    (descend context depth n t).1 = (descend context depth n u).1 := by
  have h := descendAll_fst context (depth + 1) n.children t u
  rw [descend, descend]
  by_cases hdeep : context.maxDepth < depth
  · simp only [if_pos hdeep]
  · simp only [if_neg hdeep]
    match ht : descendAll context (depth + 1) n.children t,
      hu : descendAll context (depth + 1) n.children u with
    | (.error a, _), (.error b, _) => simpa [ht, hu] using h
    | (.error a, _), (.ok b, _) => simp [ht, hu] at h
    | (.ok a, _), (.error b, _) => simp [ht, hu] at h
    | (.ok a, _), (.ok b, _) =>
      obtain rfl : a = b := by simpa [ht, hu] using h
      simp only
      cases node context n a <;> rfl
termination_by 2 * n.size
decreasing_by
  rw [Node.size_eq n]
  omega

theorem descendAll_fst (context : EmissionContext) (depth : Nat) (ns : List Node) (t u : Tally) :
    (descendAll context depth ns t).1 = (descendAll context depth ns u).1 := by
  match ns with
  | [] => simp only [descendAll]
  | n :: rest =>
    have h := descend_fst context depth n t u
    rw [descendAll, descendAll]
    match ht : descend context depth n t, hu : descend context depth n u with
    | (.error a, _), (.error b, _) => simpa [ht, hu] using h
    | (.error a, _), (.ok b, _) => simp [ht, hu] at h
    | (.ok a, _), (.error b, _) => simp [ht, hu] at h
    | (.ok a, t'), (.ok b, u') =>
      obtain rfl : a = b := by simpa [ht, hu] using h
      have hr := descendAll_fst context depth rest t' u'
      simp only
      match ht' : descendAll context depth rest t', hu' : descendAll context depth rest u' with
      | (.error c, _), (.error d, _) => simpa [ht', hu'] using hr
      | (.error c, _), (.ok d, _) => simp [ht', hu'] at hr
      | (.ok c, _), (.error d, _) => simp [ht', hu'] at hr
      | (.ok c, _), (.ok d, _) => simpa [ht', hu'] using hr
termination_by 2 * Node.sizes ns + 1
decreasing_by
  · simp only [Node.sizes]
    omega
  · have := Node.size_eq n
    simp only [Node.sizes]
    omega

end

theorem descendAll_fst_eq (context : EmissionContext) (depth : Nat) (ns : List Node) (t : Tally) :
    (descendAll context depth ns t).1 = ns.mapM (build context depth) := by
  induction ns generalizing t with
  | nil => simp only [descendAll, List.mapM_nil]; rfl
  | cons n rest ih =>
    have h := descend_fst context depth n t Tally.empty
    rw [descendAll, List.mapM_cons]
    change _ = (build context depth n).bind _
    match hn : descend context depth n t with
    | (.error reason, _) =>
      rw [build, ← h, hn]
      rfl
    | (.ok e, t') =>
      rw [build, ← h, hn, ← ih t']
      simp only
      match descendAll context depth rest t' with
      | (.error reason, _) => rfl
      | (.ok es, _) => rfl

/-- A node is too deep, or else it is what its rule makes of its parts. -/
theorem build_eq (context : EmissionContext) (depth : Nat) (n : Node) :
    build context depth n =
      if context.maxDepth < depth then .error (.tooDeep context.maxDepth)
      else (n.children.mapM (build context (depth + 1))).bind (node context n) := by
  rw [← descendAll_fst_eq context (depth + 1) n.children Tally.empty, build, descend]
  by_cases hdeep : context.maxDepth < depth
  · simp only [if_pos hdeep]
  · simp only [if_neg hdeep]
    match descendAll context (depth + 1) n.children Tally.empty with
    | (.error reason, _) => rfl
    | (.ok parts, _) =>
      simp only [Except.bind]
      cases node context n parts <;> rfl

theorem build_eq_ok_iff (context : EmissionContext) (depth : Nat) (n : Node) (e : Emitted) :
    build context depth n = .ok e ↔ (depth : Int) ≤ context.maxDepth ∧
      ∃ parts, List.Forall₂ (fun m p => build context (depth + 1) m = .ok p) n.children parts ∧
        node context n parts = .ok e := by
  rw [build_eq]
  by_cases hdeep : context.maxDepth < depth
  · simp [if_pos hdeep, Int.not_le.mpr hdeep]
  · simp only [if_neg hdeep, Int.not_lt.mp hdeep, true_and, ← mapM_eq_ok_iff]
    cases n.children.mapM (build context (depth + 1)) <;> simp [Except.bind]

theorem emitCondition_fst (context : EmissionContext) (c : Condition) (tally : Tally) :
    (emitCondition context (.condition c) tally).1 =
      (build context 1 (.condition c)).map (asMask context.scope) := by
  rw [emitCondition, tree_eq_descend, build, descend_fst context 1 _ Tally.empty tally]

theorem emitOperand_fst (context : EmissionContext) (o : Operand) (tally : Tally) :
    (emitOperand context (.operand o) tally).1 = (build context 1 (.operand o)).bind asValue := by
  rw [emitOperand, tree_eq_descend, build, descend_fst context 1 _ Tally.empty tally]

/-- An operand comes out as it was built, unless it is a list. -/
theorem emitOperand_eq_ok_iff {o : Operand} :
    (emitOperand context (.operand o) s).1 = .ok e ↔
      build context 1 (.operand o) = .ok e ∧ e.isList = false := by
  rw [emitOperand_fst]
  change (build context 1 (.operand o) >>= asValue) = .ok e ↔ _
  rw [bind_eq_ok_iff]
  constructor
  · rintro ⟨p, hp, h⟩
    unfold asValue at h
    split at h
    · cases h
    · next hlist =>
      cases h
      exact ⟨hp, by simpa using hlist⟩
  · rintro ⟨h, hlist⟩
    exact ⟨e, h, by simp [asValue, hlist]⟩

theorem build_of_descend (h : descend context 1 n s = (.ok e, t)) : build context 1 n = .ok e := by
  rw [build, descend_fst context 1 n Tally.empty s, h]

theorem emitOperand_descends {o : Operand} (h : emitOperand context (.operand o) s = (.ok e, t)) :
    descend context 1 (.operand o) s = (.ok e, t) := by
  rw [emitOperand, tree_eq_descend] at h
  generalize descend context 1 (.operand o) s = run at h ⊢
  obtain ⟨_ | p, u⟩ := run
  · cases h
  · obtain ⟨hvalue, rfl⟩ := Prod.mk.inj h
    change asValue p = .ok e at hvalue
    unfold asValue at hvalue
    split at hvalue
    · cases hvalue
    · rw [Except.ok.inj hvalue]

/-- What comes out of a condition is the mask of what was built. -/
theorem emitCondition_descends {c : Condition}
    (h : emitCondition context (.condition c) s = (.ok e, t)) :
    ∃ p, descend context 1 (.condition c) s = (.ok p, t) ∧ e = asMask context.scope p := by
  rw [emitCondition, tree_eq_descend] at h
  generalize descend context 1 (.condition c) s = run at h ⊢
  obtain ⟨_ | p, u⟩ := run
  · cases h
  · cases h
    exact ⟨p, rfl, rfl⟩

theorem emitCondition_eq_ok {c : Condition}
    (h : (emitCondition context (.condition c) tally).1 = .ok e) :
    ∃ p, build context 1 (.condition c) = .ok p ∧ e = asMask context.scope p := by
  obtain ⟨p, hp, he⟩ := emitCondition_descends (Prod.ext h rfl)
  exact ⟨p, build_of_descend hp, he⟩

end Emission

end Stratagem
