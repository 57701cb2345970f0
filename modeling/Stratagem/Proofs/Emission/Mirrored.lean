import Mathlib.Data.List.GetD
import Stratagem.Compiler.Error
import Stratagem.Proofs.Emission.Typing
import Stratagem.Proofs.Expression.Mirroring

/-! Emission of mirrored trees. A rule of emission asks the same of a node and of its mirror: it
looks at the traits of the parts and never at their code, and a mirrored operator belongs to the
same class as the operator. So a tree and its mirror are emitted or refused together, and they leave
the same tally behind. -/

namespace Stratagem

/-- The mirrored condition; operands stay. -/
def Node.mirror (p : MirrorPolicy) : Node → Node
  | .condition c => .condition (c.mirror p)
  | .operand o => .operand o

theorem Node.children_mirror (p : MirrorPolicy) (n : Node) :
    (n.mirror p).children = n.children.map (Node.mirror p) := by
  cases n with
  | operand o => cases o <;> simp [Node.mirror, Node.children, Function.comp_def]
  | condition c =>
    rw [Node.mirror, Condition.mirror_eq]
    cases c with
    | crossover mark a b | crossunder mark a b =>
      simp only [Condition.rebuild]
      split <;> rfl
    | _ =>
      simp [Condition.parts, Condition.rebuild, Node.children, Node.mirror, Function.comp_def]

/-! ## Traits -/

/-- All that a rule can see of an emitted part besides its code. -/
structure Traits where
  series : Bool
  market : Bool
  lookback : Nat
  prevLookback : Nat
  isList : Bool
  numeric : Bool
  deriving DecidableEq, Repr

def Emitted.traits (e : Emitted) : Traits :=
  ⟨e.series, e.market, e.lookback, e.prevLookback, e.isList, e.numeric⟩

/-- The kind of error that an offence is reported as. -/
def Offence.kind : Offence → ErrorKind
  | .tooDeep => .sizeLimit
  | .notImplemented | .unwritten | .malformed => .schema
  | .unresolved => .reference
  | .outOfScope => .scope
  | .illTyped => .type

theorem EmissionError.kind_eq (reason : EmissionError) : reason.kind = reason.offence.kind := by
  cases reason with
  | invalidConstant reason => cases reason <;> rfl
  | _ => rfl

/-- Two results are alike: both are good and look the same, or both are refused for the same
offence. -/
inductive Alike {α β : Type} (view : α → β) :
    Except EmissionError α → Except EmissionError α → Prop
  | ok {a b : α} (h : view a = view b) : Alike view (.ok a) (.ok b)
  | error {r s : EmissionError} (h : r.offence = s.offence) : Alike view (.error r) (.error s)

theorem Alike.refl {α β : Type} {view : α → β} (x : Except EmissionError α) : Alike view x x := by
  cases x with
  | ok a => exact .ok rfl
  | error r => exact .error rfl

namespace Emission

/-- Parts that have the same traits, one by one. -/
abbrev SameTraits (es fs : List Emitted) : Prop := es.map Emitted.traits = fs.map Emitted.traits

section Rules

variable {es fs : List Emitted}

theorem traits_getD (h : SameTraits es fs) (i : Nat) :
    (es.getD i absentBranch).traits = (fs.getD i absentBranch).traits := by
  have hget := congrArg (List.getD · i absentBranch.traits) h
  simpa only [List.getD_map] using hget

theorem any_eq_of_traits (f : Traits → Bool) (h : SameTraits es fs) :
    (es.any fun e => f e.traits) = fs.any fun e => f e.traits := by
  have hany := congrArg (List.any · f) h
  simpa only [List.any_map, Function.comp_def] using hany

theorem find?_eq_of_traits (f : Traits → Bool) (h : SameTraits es fs) :
    (es.find? fun e => f e.traits).map Emitted.traits =
      (fs.find? fun e => f e.traits).map Emitted.traits := by
  have hfind := congrArg (List.find? f) h
  simpa only [List.find?_map, Function.comp_def] using hfind

theorem greatest_eq_of_traits (f : Traits → Nat) (h : SameTraits es fs) :
    greatest (es.map fun e => f e.traits) = greatest (fs.map fun e => f e.traits) := by
  have hmap := congrArg (List.map f) h
  simp only [List.map_map, Function.comp_def] at hmap
  rw [hmap]

/-- A truth value has the traits that its parts give it, whatever its code. -/
theorem boolean_traits (h : SameTraits es fs) (code code' : Code) :
    (boolean code es).traits = (boolean code' fs).traits := by
  have hseries := any_eq_of_traits Traits.series h
  have hlookback := greatest_eq_of_traits Traits.lookback h
  simp only [Emitted.traits] at hseries hlookback
  simp only [boolean, Emitted.traits, hseries, hlookback]

theorem combine_traits (scope : Scope) (empty : Bool) (series scalar : Connective)
    (h : SameTraits es fs) :
    (combine scope empty series scalar es).traits =
      (combine scope empty series scalar fs).traits := by
  match es, fs with
  | [], [] => rfl
  | [e], [f] =>
    obtain ⟨he, -⟩ := List.cons.inj h
    exact he
  | _ :: _ :: _, _ :: _ :: _ => exact boolean_traits h _ _
  | [], _ :: _ | _ :: _, [] | [_], _ :: _ :: _ | _ :: _ :: _, [_] => simp [SameTraits] at h

end Rules

section Parts

variable {p p' q q' r r' : Emitted}

theorem negation_traits (scope : Scope) (hp : p.traits = p'.traits) :
    (negation scope p).traits = (negation scope p').traits := by
  have hparts : SameTraits [p] [p'] := by simp [SameTraits, hp]
  unfold negation
  split <;> split <;> exact boolean_traits hparts _ _

theorem ifThenElse_traits (scope : Scope) (hp : p.traits = p'.traits) (hq : q.traits = q'.traits)
    (hr : r.traits = r'.traits) :
    (ifThenElse scope p q r).traits = (ifThenElse scope p' q' r').traits := by
  have hparts : SameTraits [p, q, r] [p', q', r'] := by simp [SameTraits, hp, hq, hr]
  have hseries := any_eq_of_traits Traits.series hparts
  have hlookback := greatest_eq_of_traits Traits.lookback hparts
  simp only [Emitted.traits] at hseries hlookback
  unfold ifThenElse
  simp only [hseries]
  split
  · simp only [Emitted.traits, hlookback]
  · exact boolean_traits hparts _ _

/-- Comparisons that are both orderings or neither, and both memberships or neither, ask the same
of their sides. -/
theorem compare_alike (scope : Scope) {op op' : Comparison}
    (hrelation : (relation? op).isSome = (relation? op').isSome)
    (hordering : isOrdering op = isOrdering op') (hp : p.traits = p'.traits)
    (hq : q.traits = q'.traits) :
    Alike Emitted.traits (compare scope op p q) (compare scope op' p' q') := by
  have hparts : SameTraits [p, q] [p', q'] := by simp [SameTraits, hp, hq]
  have hleft : p.isList = p'.isList := congrArg Traits.isList hp
  have hright : q.isList = q'.isList := congrArg Traits.isList hq
  have hnumber : p.numeric = p'.numeric := congrArg Traits.numeric hp
  have hnumber' : q.numeric = q'.numeric := congrArg Traits.numeric hq
  simp only [compare, hleft, hright, hnumber, hnumber', hordering]
  split
  · exact .error rfl
  · generalize relation? op = relation at hrelation ⊢
    generalize relation? op' = relation' at hrelation ⊢
    cases relation with
    | none =>
      obtain rfl : relation' = none := by simpa using hrelation.symm
      simp only
      split
      · exact .ok (boolean_traits hparts _ _)
      · exact .error rfl
    | some _ =>
      obtain ⟨_, rfl⟩ := Option.isSome_iff_exists.mp hrelation.symm
      simp only
      split
      · exact .error rfl
      · split
        · exact .error rfl
        · split
          · exact .error rfl
          · exact .ok (boolean_traits hparts _ _)

/-- The two crossings ask the same of their sides and read the same candles. -/
theorem crossing_alike (scope : Scope) (above above' : Bool) (hp : p.traits = p'.traits)
    (hq : q.traits = q'.traits) :
    Alike Emitted.traits (crossing scope above p q) (crossing scope above' p' q') := by
  have hparts : SameTraits [p, q] [p', q'] := by simp [SameTraits, hp, hq]
  have hfirst : p.market = p'.market := congrArg Traits.market hp
  have hsecond : q.market = q'.market := congrArg Traits.market hq
  simp only [crossing, hfirst, hsecond]
  split
  · exact .error rfl
  · split
    · exact .error rfl
    · apply Alike.ok
      cases scope with
      | series => exact boolean_traits hparts _ _
      | leverage =>
        simp only [Emitted.traits, Traits.mk.injEq] at hp hq
        simp only [crossingCode, Emitted.traits, hp, hq]

theorem inRange_alike (scope : Scope) (inclusive : Bool) (hp : p.traits = p'.traits)
    (hq : q.traits = q'.traits) (hr : r.traits = r'.traits) :
    Alike Emitted.traits (inRange scope inclusive p q r) (inRange scope inclusive p' q' r') := by
  have hparts : SameTraits [p, q, r] [p', q', r'] := by simp [SameTraits, hp, hq, hr]
  have hfind : ([p, q, r].find? fun e => e.isList || !e.numeric).map Emitted.traits =
      ([p', q', r'].find? fun e => e.isList || !e.numeric).map Emitted.traits :=
    find?_eq_of_traits (fun t => t.isList || !t.numeric) hparts
  unfold inRange
  generalize [p, q, r].find? (fun e => e.isList || !e.numeric) = found at hfind ⊢
  generalize [p', q', r'].find? (fun e => e.isList || !e.numeric) = found' at hfind ⊢
  cases found with
  | none =>
    obtain rfl : found' = none := by simpa using hfind.symm
    exact .ok (boolean_traits hparts _ _)
  | some _ =>
    obtain ⟨_, rfl, _⟩ := Option.map_eq_some_iff.mp hfind.symm
    exact .error rfl

end Parts

theorem computed_alike (scope : Scope) (operation : Operation) {es fs : List Emitted}
    (h : SameTraits es fs) :
    Alike Emitted.traits (computed scope operation es) (computed scope operation fs) := by
  have hfind : (es.find? (! ·.numeric)).map Emitted.traits =
      (fs.find? (! ·.numeric)).map Emitted.traits := find?_eq_of_traits (fun t => !t.numeric) h
  have hseries := any_eq_of_traits Traits.series h
  have hmarket := any_eq_of_traits Traits.market h
  have hlookback := greatest_eq_of_traits Traits.lookback h
  have hprev := greatest_eq_of_traits (fun t => max t.prevLookback t.lookback) h
  simp only [Emitted.traits] at hseries hmarket hlookback hprev
  unfold computed
  generalize es.find? (! ·.numeric) = found at hfind ⊢
  generalize fs.find? (! ·.numeric) = found' at hfind ⊢
  cases found with
  | none =>
    obtain rfl : found' = none := by simpa using hfind.symm
    apply Alike.ok
    simp only [Emitted.traits, hseries, hmarket, hlookback, hprev]
  | some _ =>
    obtain ⟨_, rfl, _⟩ := Option.map_eq_some_iff.mp hfind.symm
    exact .error rfl

/-- An operand is emitted alike from parts with the same traits. -/
theorem operand_alike (context : EmissionContext) (o : Operand) {es fs : List Emitted}
    (h : SameTraits es fs) :
    Alike Emitted.traits (operand context o es) (operand context o fs) := by
  cases o with
  | computed operation operands => exact computed_alike context.scope operation h
  | _ => exact .refl _

/-- The rule of a mirrored node does as the rule of the node. -/
theorem node_mirror (context : EmissionContext) (p : MirrorPolicy) (n : Node)
    {es fs : List Emitted} (h : SameTraits es fs) :
    Alike Emitted.traits (node context (n.mirror p) es) (node context n fs) := by
  have hpart := traits_getD h
  cases n with
  | operand o => exact operand_alike context o h
  | condition c =>
    rw [Node.mirror, Condition.mirror_eq]
    cases c with
    | all mark children | any mark children => exact .ok (combine_traits _ _ _ _ h)
    | not mark child => exact .ok (negation_traits _ (hpart 0))
    | ifThen mark c t => exact .ok (ifThenElse_traits _ (hpart 0) (hpart 1) rfl)
    | ifThenElse mark c t e => exact .ok (ifThenElse_traits _ (hpart 0) (hpart 1) (hpart 2))
    | compare mark left op right =>
      -- Turning an ordering round gives an ordering, and nothing else is turned.
      apply compare_alike _ _ _ (hpart 0) (hpart 1) <;>
        cases p.invertComparisons <;> cases op <;> rfl
    | crossover mark a b | crossunder mark a b =>
      simp only [Condition.rebuild]
      split <;> exact crossing_alike _ _ _ (hpart 0) (hpart 1)
    | inRange mark v low high inclusive =>
      exact inRange_alike _ _ (hpart 0) (hpart 1) (hpart 2)

theorem nodeImports_mirror (scope : Scope) (p : MirrorPolicy) (n : Node) :
    nodeImports scope (n.mirror p) = nodeImports scope n := by
  cases n with
  | operand o => rfl
  | condition c =>
    rw [Node.mirror, Condition.mirror_eq]
    cases c with
    | crossover mark a b | crossunder mark a b =>
      simp only [Condition.rebuild]
      split <;> rfl
    | _ => rfl

theorem record_mirror (tally : Tally) (scope : Scope) (p : MirrorPolicy) (n : Node)
    {e f : Emitted} (h : e.traits = f.traits) :
    tally.record scope (n.mirror p) e = tally.record scope n f := by
  have hlookback : e.lookback = f.lookback := congrArg Traits.lookback h
  simp only [Tally.record, nodeImports_mirror, hlookback]

/-! ## Whole trees -/

/-- Two emissions agree: their results are alike, and they leave the same tally. -/
inductive Agree {α β : Type} (view : α → β) :
    Except EmissionError α × Tally → Except EmissionError α × Tally → Prop
  | intro {x y : Except EmissionError α} (h : Alike view x y) (tally : Tally) :
      Agree view (x, tally) (y, tally)

theorem descendAll_mirror {context : EmissionContext} {p : MirrorPolicy} {depth : Nat}
    {ns : List Node}
    (h : ∀ n ∈ ns, ∀ tally, Agree Emitted.traits (descend context depth (n.mirror p) tally)
      (descend context depth n tally)) (tally : Tally) :
    Agree (List.map Emitted.traits) (descendAll context depth (ns.map (Node.mirror p)) tally)
      (descendAll context depth ns tally) := by
  induction ns generalizing tally with
  | nil =>
    rw [List.map_nil, descendAll]
    exact .intro (.refl _) tally
  | cons n rest ih =>
    obtain ⟨hn, hrest⟩ := List.forall_mem_cons.mp h
    have hfirst := hn tally
    rw [List.map_cons, descendAll, descendAll]
    generalize descend context depth (n.mirror p) tally = x at hfirst ⊢
    generalize descend context depth n tally = y at hfirst ⊢
    rcases hfirst with ⟨hef | hoffence, t⟩
    · have hothers := ih hrest t
      simp only
      generalize descendAll context depth (rest.map (Node.mirror p)) t = x at hothers ⊢
      generalize descendAll context depth rest t = y at hothers ⊢
      rcases hothers with ⟨hmaps | hoffence, t'⟩
      · refine .intro (.ok ?_) t'
        rw [List.map_cons, List.map_cons, hef, hmaps]
      · exact .intro (.error hoffence) t'
    · exact .intro (.error hoffence) t

/-- The induction is on the tree; the depth is free, since parts lie one level deeper, and so is the
tally, since each part goes on from the tally of the one before. -/
theorem descend_mirror (context : EmissionContext) (p : MirrorPolicy) (n : Node) :
    ∀ depth tally, Agree Emitted.traits (descend context depth (n.mirror p) tally)
      (descend context depth n tally) := by
  induction n using Node.induction with
  | step n ih =>
    intro depth tally
    have hparts := descendAll_mirror (fun m hm => ih m hm (depth + 1)) tally
    rw [descend, descend, Node.children_mirror]
    split
    · exact .intro (.refl _) tally
    · generalize descendAll context (depth + 1) (n.children.map (Node.mirror p)) tally = x
        at hparts ⊢
      generalize descendAll context (depth + 1) n.children tally = y at hparts ⊢
      rcases hparts with ⟨@⟨es, fs, hmaps⟩ | hoffence, t⟩
      · have hnode := node_mirror context p n hmaps
        simp only
        generalize node context (n.mirror p) es = x at hnode ⊢
        generalize node context n fs = y at hnode ⊢
        rcases hnode with @⟨e, f, hef⟩ | hoffence
        · have hrecord := record_mirror t context.scope p n hef
          simp only [hrecord]
          exact .intro (.ok hef) _
        · exact .intro (.error hoffence) t
      · exact .intro (.error hoffence) t

/-- Spreading a truth value over the candles keeps traits alike. -/
theorem asMask_traits (scope : Scope) {e f : Emitted} (h : e.traits = f.traits) :
    (asMask scope e).traits = (asMask scope f).traits := by
  have hseries : e.series = f.series := congrArg Traits.series h
  have hlookback : e.lookback = f.lookback := congrArg Traits.lookback h
  unfold asMask
  rw [hseries]
  split
  · simp only [Emitted.traits, hlookback]
  · exact h

/-- A condition and its mirror are emitted together, with the same flag and the same candles, or
refused together for the same offence and with the same kind of error; and what emission leaves
behind, the imports and the most candles read, is the same for both. -/
theorem emitCondition_mirror_agrees (context : EmissionContext) (p : MirrorPolicy) (c : Condition)
    (tally : Tally) :
    ((∃ e f, (emitCondition context (.condition (c.mirror p)) tally).1 = .ok e ∧
        (emitCondition context (.condition c) tally).1 = .ok f ∧
        e.series = f.series ∧ e.lookback = f.lookback) ∨
      ∃ r s, (emitCondition context (.condition (c.mirror p)) tally).1 = .error r ∧
        (emitCondition context (.condition c) tally).1 = .error s ∧ r.offence = s.offence ∧
        r.kind = s.kind) ∧
    (emitCondition context (.condition (c.mirror p)) tally).2 =
      (emitCondition context (.condition c) tally).2 := by
  have hagree : Agree Emitted.traits (descend context 1 (.condition (c.mirror p)) tally)
    (descend context 1 (.condition c) tally) := descend_mirror context p (.condition c) 1 tally
  simp only [emitCondition, tree_eq_descend]
  generalize descend context 1 (.condition (c.mirror p)) tally = x at hagree ⊢
  generalize descend context 1 (.condition c) tally = y at hagree ⊢
  rcases hagree with ⟨@⟨e, f, hef⟩ | @⟨r, s, hoffence⟩, t⟩
  · have hmask := asMask_traits context.scope hef
    exact ⟨.inl ⟨_, _, rfl, rfl, congrArg Traits.series hmask, congrArg Traits.lookback hmask⟩, rfl⟩
  · have hkind : r.kind = s.kind := by rw [EmissionError.kind_eq, EmissionError.kind_eq, hoffence]
    exact ⟨.inr ⟨r, s, rfl, rfl, hoffence, hkind⟩, rfl⟩

end Emission

end Stratagem
