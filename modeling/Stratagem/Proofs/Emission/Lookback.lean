import Stratagem.Proofs.Emission.LastCandle

/-! The candles that emitted code needs in leverage scope. What a tree needs is read off its prices
and indicators: one candle more than the offset, and two more under a crossing. The two counters of
an emitted node and the tally of a walk come to the greatest of these numbers. -/

namespace Stratagem

/-- How far back a price or an indicator looks. -/
def Node.offset? : Node → Option Nat
  | .operand (.indicator _ _ offset) => some offset
  | .operand (.price _ offset) => some offset
  | _ => none

/-- The offsets of the prices and indicators in an operand. -/
def Operand.offsets (o : Operand) : List Nat := o.preorder.filterMap Node.offset?

/-- The candles that an operand of a condition takes without an offset: a crossing also reads the
candle before. -/
def Condition.margin (c : Condition) : Nat := if c.isCrossing then 2 else 1

/-- The candles that the prices and indicators in a condition take. -/
def Condition.candles (c : Condition) : List Nat :=
  c.conditions.flatMap fun d => (d.operands.flatMap Operand.offsets).map (· + d.margin)

theorem Operand.filterMap_offset?_preorders (os : List Operand) :
    (Operand.preorders os).filterMap Node.offset? = os.flatMap Operand.offsets := by
  induction os with
  | nil => rfl
  | cons o rest ih => simp [Operand.preorders, ih, Operand.offsets]

theorem Operand.offsets_computed (operation : Operation) (os : List Operand) :
    (Operand.computed operation os).offsets = os.flatMap Operand.offsets := by
  rw [Operand.offsets, Operand.preorder, List.filterMap_cons_none rfl,
    Operand.filterMap_offset?_preorders]

theorem Condition.candles_eq (c : Condition) :
    c.candles = (c.operands.flatMap Operand.offsets).map (· + c.margin) ++
      c.parts.flatMap Condition.candles := by
  rw [Condition.candles, Condition.conditions_eq, List.flatMap_cons, List.flatMap_assoc]
  rfl

theorem Condition.children_eq (c : Condition) :
    (Node.condition c).children = c.parts.map .condition ++ c.operands.map .operand := by
  cases c <;> simp [Node.children, Condition.parts, Condition.operands]

/-- The candles that the prices and indicators in a node take, if the node is not crossed. -/
def Node.candles : Node → List Nat
  | .operand o => o.offsets.map (· + 1)
  | .condition c => c.candles

namespace Emission

variable {n : Node} {e : Emitted} {parts : List Emitted} {b : Binding} {maxDepth : Int}

/-! ## The greatest of some numbers -/

theorem greatest_append (xs ys : List Nat) :
    greatest (xs ++ ys) = max (greatest xs) (greatest ys) := by
  rw [greatest, List.foldl_append, foldl_max]
  rfl

theorem greatest_flatMap {α : Type} (f : α → List Nat) (xs : List α) :
    greatest (xs.flatMap f) = greatest (xs.map fun x => greatest (f x)) := by
  induction xs with
  | nil => rfl
  | cons x rest ih => rw [List.flatMap_cons, greatest_append, List.map_cons, greatest_cons, ih]

theorem greatest_map_le {α : Type} {f g : α → Nat} {xs : List α} (h : ∀ x ∈ xs, f x ≤ g x) :
    greatest (xs.map f) ≤ greatest (xs.map g) := by
  induction xs with
  | nil => exact Nat.le_refl _
  | cons x rest ih =>
    obtain ⟨hx, hrest⟩ := List.forall_mem_cons.mp h
    have := ih hrest
    rw [List.map_cons, List.map_cons, greatest_cons, greatest_cons]
    omega

/-! ## One node -/

/-- The counters of an emitted node say how many candles it takes: of an operand also how many it
takes to be read one candle earlier. -/
def Counts : Node → Emitted → Prop
  | .operand o, e => e.series = false ∧ e.lookback = greatest (o.offsets.map (· + 1)) ∧
    max e.prevLookback e.lookback = greatest (o.offsets.map (· + 2))
  | .condition c, e => e.series = false ∧ e.lookback = greatest c.candles

theorem Counts.series (h : Counts n e) : e.series = false := by
  cases n <;> exact h.1

theorem Counts.lookback (h : Counts n e) : e.lookback = greatest n.candles := by
  cases n with
  | operand o => exact h.2.1
  | condition c => exact h.2

theorem greatest_parts {ns : List Node} (h : List.Forall₂ Counts ns parts) :
    greatest (parts.map Emitted.lookback) = greatest (ns.flatMap Node.candles) := by
  rw [greatest_flatMap]
  exact congrArg greatest (map_eq_of_forall₂ (h.imp fun _ _ hp => hp.lookback))

theorem columns_counts {o : Operand} {offset : Nat} (ho : o.offsets = [offset])
    (names : List String) : Counts (.operand o) (columns .leverage names offset) := by
  refine ⟨rfl, ?_, ?_⟩
  · simp [ho, columns, reach, greatest]
  · simp [ho, columns, reach, greatest]

theorem computed_counts {operation : Operation} {os : List Operand}
    (hparts : List.Forall₂ (fun o p => Counts (.operand o) p) os parts)
    (h : computed .leverage operation parts = .ok e) :
    Counts (.operand (.computed operation os)) e := by
  obtain ⟨-, rfl⟩ := computed_eq_ok h
  have hoffsets : ∀ margin, greatest ((Operand.computed operation os).offsets.map (· + margin)) =
      greatest (os.map fun o => greatest (o.offsets.map (· + margin))) := by
    intro margin
    rw [Operand.offsets_computed, List.map_flatMap, greatest_flatMap]
  have hnow : parts.map Emitted.lookback = os.map fun o => greatest (o.offsets.map (· + 1)) :=
    map_eq_of_forall₂ (hparts.imp fun _ _ hp => hp.2.1)
  have hbefore : parts.map (fun p => max p.prevLookback p.lookback) =
      os.map fun o => greatest (o.offsets.map (· + 2)) :=
    map_eq_of_forall₂ (hparts.imp fun _ _ hp => hp.2.2)
  have hle : greatest (parts.map Emitted.lookback) ≤
      greatest (parts.map fun p => max p.prevLookback p.lookback) :=
    greatest_map_le fun p _ => Nat.le_max_right ..
  refine ⟨?_, ?_, ?_⟩
  · simpa using forall_of_forall₂ hparts fun _ _ hp => hp.1
  · rw [hoffsets, ← hnow]
  · rw [hoffsets, ← hbefore]
    exact Nat.max_eq_left hle

theorem operand_counts {o : Operand} (hparts : List.Forall₂ Counts (Node.operand o).children parts)
    (h : operand ⟨.leverage, b, maxDepth⟩ o parts = .ok e) : Counts (.operand o) e := by
  cases o with
  | constant value =>
    obtain ⟨-, rfl⟩ := constant_eq_ok h
    exact ⟨rfl, rfl, rfl⟩
  | indicator id field offset =>
    obtain ⟨name, -, rfl⟩ := indicator_eq_ok h
    exact columns_counts rfl [name]
  | price field offset =>
    cases h
    exact columns_counts rfl (priceColumns field)
  | tradeContext field =>
    obtain ⟨name, numeric, -, rfl⟩ := tradeContext_eq_ok h
    exact ⟨rfl, rfl, rfl⟩
  | time field zone =>
    cases h
    exact ⟨rfl, rfl, rfl⟩
  | computed operation operands =>
    exact computed_counts (List.forall₂_map_left_iff (f := Node.operand).mp hparts) h
  | external source => cases h
  | custom name => cases h

theorem crossing_counts {above : Bool} {mark : Mark} {x y : Operand} {p q : Emitted}
    (hp : Counts (.operand x) p) (hq : Counts (.operand y) q)
    (h : crossing .leverage above p q = .ok e) :
    Counts (.condition (Condition.crossing above mark x y)) e := by
  obtain ⟨-, -, rfl⟩ := crossing_eq_ok h
  have hcandles : (Condition.crossing above mark x y).candles =
      x.offsets.map (· + 2) ++ y.offsets.map (· + 2) := by
    cases above <;>
      simp [Condition.crossing, Condition.candles_eq, Condition.operands, Condition.parts,
        Condition.margin, Condition.isCrossing]
  refine ⟨rfl, ?_⟩
  rw [hcandles, greatest_append, ← hp.2.2, ← hq.2.2]
  simp only [crossingCode, greatest, List.foldl_cons, List.foldl_nil]
  omega

theorem condition_counts {c : Condition}
    (hparts : List.Forall₂ Counts (Node.condition c).children parts)
    (h : condition ⟨.leverage, b, maxDepth⟩ c parts = .ok e) : Counts (.condition c) e := by
  have hs : ∀ p ∈ parts, p.series = false := forall_of_forall₂ hparts fun _ _ hp => hp.series
  obtain ⟨hseries, hlook⟩ := condition_leverage hs hparts.length_eq.symm h
  cases hc : c.isCrossing with
  | false =>
    refine ⟨hseries, ?_⟩
    have hmargin : c.margin = 1 := by simp [Condition.margin, hc]
    rw [hlook hc, greatest_parts hparts, Condition.children_eq, Condition.candles_eq, hmargin,
      List.flatMap_append, greatest_append, greatest_append, Nat.max_comm, List.flatMap_map,
      List.flatMap_map, List.map_flatMap]
    rfl
  | true =>
    obtain ⟨above, mark, x, y, rfl⟩ := Condition.exists_crossing hc
    rw [Condition.children_crossing] at hparts
    obtain ⟨p, q, hp, hq, rfl⟩ := forall₂_pair hparts
    exact crossing_counts hp hq (condition_crossing h)

theorem node_counts (hparts : List.Forall₂ Counts n.children parts)
    (h : node ⟨.leverage, b, maxDepth⟩ n parts = .ok e) : Counts n e := by
  cases n with
  | operand o => exact operand_counts hparts h
  | condition c => exact condition_counts hparts h

/-! ## The tally of a walk -/

theorem greatest_children_le (n : Node) :
    greatest (n.children.flatMap Node.candles) ≤ greatest n.candles := by
  cases n with
  | operand o =>
    cases o with
    | computed operation os =>
      rw [Node.candles, Operand.offsets_computed, List.map_flatMap, Node.children,
        List.flatMap_map]
      exact Nat.le_refl _
    | _ => exact Nat.zero_le _
  | condition c =>
    have hmargin : 1 ≤ c.margin := by
      unfold Condition.margin
      split <;> omega
    have hown : greatest ((c.operands.flatMap Operand.offsets).map (· + 1)) ≤
        greatest ((c.operands.flatMap Operand.offsets).map (· + c.margin)) :=
      greatest_map_le fun k _ => Nat.add_le_add_left hmargin k
    rw [List.map_flatMap] at hown
    rw [Node.candles, Condition.candles_eq, Condition.children_eq, List.flatMap_append,
      List.flatMap_map, List.flatMap_map, greatest_append, greatest_append, Nat.max_comm]
    exact max_le_max hown (Nat.le_refl _)

/-- A walk raises the tally to what the node takes: no part of the node takes more. -/
def Raises (n : Node) : Prop :=
  ∀ (b : Binding) (maxDepth : Int) (depth : Nat) (s t : Tally) (e : Emitted),
    descend ⟨.leverage, b, maxDepth⟩ depth n s = (.ok e, t) →
      Counts n e ∧ t.lookback = max s.lookback e.lookback

theorem raises (n : Node) : Raises n := by
  intro b maxDepth depth s t e h
  refine descend_induction
    (fun n s e t => Counts n e ∧ t.lookback = max s.lookback e.lookback)
    (fun ns s es t => List.Forall₂ Counts ns es ∧
      t.lookback = max s.lookback (greatest (es.map Emitted.lookback)))
    (fun s => ⟨.nil, (Nat.max_zero _).symm⟩) ?_ ?_ h
  · rintro n s e u ns es t ⟨hcount, hu⟩ ⟨hcounts, ht⟩
    refine ⟨.cons hcount hcounts, ?_⟩
    rw [ht, hu, List.map_cons, greatest_cons]
    omega
  · rintro n s parts u e ⟨hcounts, hu⟩ hnode
    have hcount := node_counts hcounts hnode
    refine ⟨hcount, ?_⟩
    have hle : greatest (parts.map Emitted.lookback) ≤ e.lookback := by
      rw [greatest_parts hcounts, hcount.lookback]
      exact greatest_children_le n
    show max u.lookback e.lookback = _
    omega

end Emission

end Stratagem
