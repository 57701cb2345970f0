import Stratagem.Proofs.Emission.Conditions
import Stratagem.Proofs.Script.Lexing

/-! Series scope as a whole. Main statement: the text of an emitted condition reads as an expression
that evaluates to a truth value for every candle, and to the meaning of the condition wherever
enough earlier candles are there. -/

namespace Stratagem

open Script Code

mutual

theorem Operand.anyLeaf_mono {p q : Operand → Bool} (h : ∀ o, p o = true → q o = true)
    (o : Operand) (ho : o.anyLeaf p = true) : o.anyLeaf q = true := by
  cases o with
  | computed operation operands => exact Operand.anyLeaves_mono h operands ho
  | _ => exact h _ ho

theorem Operand.anyLeaves_mono {p q : Operand → Bool} (h : ∀ o, p o = true → q o = true)
    (os : List Operand) (hos : Operand.anyLeaves p os = true) : Operand.anyLeaves q os = true := by
  cases os with
  | nil => exact hos
  | cons o rest =>
    rw [Operand.anyLeaves, Bool.or_eq_true] at hos ⊢
    exact hos.imp (Operand.anyLeaf_mono h o) (Operand.anyLeaves_mono h rest)

end

theorem Operand.varies_of_isMarket {o : Operand} (h : o.isMarket = true) : o.varies = true := by
  refine Operand.anyLeaf_mono (fun o ho => ?_) o h
  cases o <;> first | rfl | cases ho

theorem Operand.isNumeric_of_isMarket {o : Operand} (h : o.isMarket = true) :
    o.isNumeric = true := by
  cases o <;> first | rfl | cases h

namespace Emission

variable {t : Table} {n : Node} {e : Emitted} {depth : Nat} {b : Binding} {maxDepth : Int}

/-- What emitted nodes stand for in series scope. -/
def SeriesMeaning (t : Table) (b : Binding) : Node → Emitted → Prop
  | .operand o, e => o.Stands t b id e.code e.series o.reach ∧ o.isReadable = true
  | .condition c, e => e.Tells t c.reach (c.holds t b)

theorem build_marks {context : EmissionContext} (hadm : ∀ m ∈ n.preorder, m.Admissible)
    (h : build context depth n = .ok e) : n.Marks context.scope e := by
  have hverdict := build_verdict context n hadm depth
  rw [h] at hverdict
  exact hverdict.2

/-- A crossing of market series compares them now and one candle before. -/
theorem crossing_series (above : Bool) {x y : Operand} {p q : Emitted}
    (hp : Part t b id x.reach x p) (hq : Part t b id y.reach y q) (hx : x.Marks .series p)
    (hy : y.Marks .series q) (h : crossing .series above p q = .ok e) :
    e.Tells t (max x.reach y.reach + 1) fun i =>
      (if above then Relation.gt else .lt).holds (x.datum t b i) (y.datum t b i) &&
        (if above then Relation.lte else .gte).holds (x.datum t b (i - 1))
          (y.datum t b (i - 1)) := by
  obtain ⟨hxm, hym, rfl⟩ := crossing_eq_ok h
  have hxmarket : x.isMarket = true := hx.market ▸ hxm
  have hymarket : y.isMarket = true := hy.market ▸ hym
  have hps : p.series = true := by simp [hx.series, Operand.varies_of_isMarket hxmarket]
  have hqs : q.series = true := by simp [hy.series, Operand.varies_of_isMarket hymarket]
  obtain ⟨f, hf, hplain⟩ := hp.stands.value (isList_of_isMarket hxmarket)
  obtain ⟨f', hf', hplain'⟩ := hq.stands.value (isList_of_isMarket hymarket)
  rw [hps] at hf
  rw [hqs] at hf'
  have hcrossed := yields_crossed above hf hf' fun i => by
    rw [Datum.number?_congr (hplain i), Datum.number?_congr (hplain' i),
      Operand.number?_datum (Operand.isNumeric_of_isMarket hxmarket) hp.readable,
      Operand.number?_datum (Operand.isNumeric_of_isMarket hymarket) hq.readable]
    exact ⟨rfl, rfl⟩
  simp only [holds_congr _ (hplain _) (hplain' _)] at hcrossed
  simpa [Emitted.Tells, crossingCode, boolean, hps, hqs] using hcrossed

theorem part_series {o : Operand} {p : Emitted} (hm : o.Marks .series p)
    (h : SeriesMeaning t b (.operand o) p) : Part t b id o.reach o p := by
  refine ⟨hm.isList, hm.numeric, h.2, fun hlist => ?_, h.1⟩
  have hconstant : o.isList = true := hm.isList ▸ hlist
  cases o with
  | constant value => simp [hm.series, Operand.varies, Operand.anyLeaf]
  | _ => cases hconstant

/-- One node: if the parts stand for their meaning, so does the node. -/
theorem node_series (hdate : Dateless b) {parts : List Emitted} (hadm : n.Admissible)
    (hcounts : n.Counts) (hzero : n.NoZeroDivisor t b)
    (hparts : List.Forall₂ (fun m p => m.Marks .series p ∧ m.Grouped p ∧ SeriesMeaning t b m p)
      n.children parts) (h : node ⟨.series, b, maxDepth⟩ n parts = .ok e) :
    SeriesMeaning t b n e := by
  cases n with
  | operand o =>
    refine operand_series rfl hdate hadm hcounts hzero ?_ h
    rintro operation operands rfl
    refine (List.forall₂_map_left_iff (f := Node.operand).mp hparts).imp fun o p hp => ?_
    exact ⟨hp.1, hp.2.1, hp.2.2.1, hp.2.2.2⟩
  | condition c =>
    have htelling : List.Forall₂ (Telling t b .series id) (Node.condition c).children parts := by
      refine hparts.imp fun m p hp => ?_
      cases m with
      | operand o => exact part_series hp.1 hp.2.2
      | condition d => exact hp.2.2
    refine condition_tells ⟨.series, b, maxDepth⟩ nofun htelling (fun hc => ?_) h
    obtain ⟨above, mark, x, y, rfl⟩ := Condition.exists_crossing hc
    rw [Condition.children_crossing] at hparts
    obtain ⟨p, q, hp, hq, rfl⟩ := forall₂_pair hparts
    have htells := crossing_series above (part_series hp.1 hp.2.2) (part_series hq.1 hq.2.2) hp.1
      hq.1 (condition_crossing h)
    simp only [← Condition.holds_crossing _ _ _ mark,
      ← Condition.reach_crossing above mark] at htells
    exact htells

theorem build_series (hdate : Dateless b) (hadm : ∀ m ∈ n.preorder, m.Admissible)
    (hcounts : n.Counts) (hzero : n.NoZeroDivisor t b)
    (h : build ⟨.series, b, maxDepth⟩ depth n = .ok e) : SeriesMeaning t b n e := by
  refine build_induction (P := fun n e => (∀ m ∈ n.preorder, m.Admissible) → n.Counts →
    n.NoZeroDivisor t b → SeriesMeaning t b n e) (fun n parts e depth hparts hnode => ?_) h hadm
    hcounts hzero
  intro hadm hcounts hzero
  obtain ⟨hself, hbelow⟩ := (Node.forall_mem_preorder n).mp hadm
  refine node_series hdate hself hcounts hzero (hparts.imp fun m p hp => ?_) hnode
  obtain ⟨hm, hbuild, hmeaning⟩ := hp
  exact ⟨build_marks (hbelow m hm) hbuild, build_grouped hbuild,
    hmeaning (hbelow m hm) (hcounts.of_mem_children hm) (hzero.of_mem_children hm)⟩

/-- The mask of a condition: one truth value for each candle, the meaning of the condition where
enough earlier candles are there. -/
structure IsMask (t : Table) (b : Binding) (c : Condition) (mask : List Cell) : Prop where
  length : mask.length = t.rows
  boolean : ∀ cell ∈ mask, ∃ told, cell = some (.truth told)
  meaning : ∀ i, c.reach ≤ i → i < t.rows → mask[i]? = some (some (.truth (c.holds t b i)))

theorem asMask_tells {first : Nat} {holds : Nat → Bool} (h : e.Tells t first holds) :
    (asMask .series e).code.YieldsTruth t true first holds := by
  unfold asMask
  split
  · next hs =>
    have hsingle : e.series = false := by simpa using hs
    exact yields_broadcast (hsingle ▸ h)
  · next hs =>
    have hseries : e.series = true := by simpa using hs
    exact hseries ▸ h

theorem mask_of_build (hdate : Dateless b) {c : Condition} (hadm : c.Admissible)
    (hcounts : (Node.condition c).Counts) (hzero : (Node.condition c).NoZeroDivisor t b)
    (h : build ⟨.series, b, maxDepth⟩ depth (.condition c) = .ok e) :
    ∃ expr mask, Script.read (asMask .series e).text = some expr ∧
      Script.eval t expr = .ok (.series mask) ∧ IsMask t b c mask := by
  obtain ⟨hgrouped, hrank⟩ := asMask_grouped h
  obtain ⟨told, ⟨v, hv, hd⟩, htold⟩ := asMask_tells (build_series hdate hadm hcounts hzero h)
  cases hd
  refine ⟨_, _, Code.read_render _ hgrouped hrank, hv, ?_, ?_, ?_⟩
  · simp
  · simp [cells, cell_zero]
  · intro i hi hrows
    simp [cells, hrows, cell_zero, htold i hi]

/-- The text of a condition in series scope evaluates to its mask, if no number is made of truth
values alone. -/
theorem emitCondition_text_evaluates_to_mask {registry : Registry}
    {declarations : List IndicatorDeclaration} {binding : Binding}
    (hbind : registry.bind declarations = .ok binding) {raw : Value} {c : Condition}
    (hc : Condition.read raw = .good c) {maxDepth : Int} {tally : Tally} {e : Emitted}
    (he : (emitCondition ⟨.series, binding, maxDepth⟩ (.condition c) tally).1 = .ok e)
    (hcounts : (Node.condition c).Counts) (hzero : (Node.condition c).NoZeroDivisor t binding) :
    ∃ expr mask, Script.read e.text = some expr ∧ Script.eval t expr = .ok (.series mask) ∧
      IsMask t binding c mask := by
  obtain ⟨p, hbuild, rfl⟩ := emitCondition_eq_ok he
  exact mask_of_build (dateless_of_bind hbind) (Condition.read_admissible hc) hcounts hzero hbuild

/-- A close above the open of the candle before, on a crossing of the two. -/
def risingRaw : Value :=
  .object [(.text "type", .text "AND"), (.text "children", .list [
    .object [(.text "type", .text "COMPARE"),
      (.text "left", .object [(.text "type", .text "COMPUTED"), (.text "operation", .text "div"),
        (.text "operands", .list [
          .object [(.text "type", .text "PRICE"), (.text "field", .text "close")],
          .object [(.text "type", .text "PRICE"), (.text "field", .text "open"),
            (.text "offset", .int 1)]])]),
      (.text "operator", .text "gt"),
      (.text "right", .object [(.text "type", .text "CONSTANT"), (.text "value", .int 1)])],
    .object [(.text "type", .text "CROSSOVER"),
      (.text "series1", .object [(.text "type", .text "PRICE"), (.text "field", .text "close")]),
      (.text "series2", .object [(.text "type", .text "PRICE"), (.text "field", .text "open")])]])]

def rising : Condition :=
  .all ⟨none, none⟩
    [.compare ⟨none, none⟩ (.computed .div [.price .close 0, .price .open_ 1]) .gt
      (.constant (.scalar (.int 1))),
     .crossover ⟨none, none⟩ (.price .close 0) (.price .open_ 0)]

theorem read_risingRaw : Condition.read risingRaw = .good rising := by
  with_unfolding_all rfl

/-- Three candles, with one more than its place in every column of a candle. -/
def ticking : Table := ⟨3, fun _ i => i + 1, fun _ _ _ => 0⟩

/-- The quotient is all that is computed. -/
theorem rising_computed {operation : Operation} {operands : List Operand}
    (h : Node.operand (.computed operation operands) ∈ (Node.condition rising).preorder) :
    operation = .div ∧ operands = [.price .close 0, .price .open_ 1] := by
  simpa [rising, Node.preorder, Condition.preorder, Condition.preorders, Operand.preorder,
    Operand.preorders] using h

theorem rising_noZeroDivisor : (Node.condition rising).NoZeroDivisor ticking Binding.empty := by
  rintro operation x y - hm i - -
  obtain ⟨-, hoperands⟩ := rising_computed hm
  cases hoperands
  show ((i - 1 : ℕ) : ℚ) + 1 ≠ 0
  positivity

theorem rising_counts : (Node.condition rising).Counts := by
  intro operation operands hm
  obtain ⟨rfl, rfl⟩ := rising_computed hm
  rfl

theorem rising_text_evaluates_to_mask :
    Registry.empty.bind [] = .ok Binding.empty ∧ Condition.read risingRaw = .good rising ∧
    (Node.condition rising).Counts ∧ (Node.condition rising).NoZeroDivisor ticking Binding.empty ∧
    ∃ e expr mask,
      (emitCondition ⟨.series, Binding.empty, 8⟩ (.condition rising) Tally.empty).1 = .ok e ∧
      Script.read e.text = some expr ∧ Script.eval ticking expr = .ok (.series mask) ∧
      IsMask ticking Binding.empty rising mask := by
  have hbind : Registry.empty.bind [] = .ok Binding.empty := rfl
  have hemit : (emitCondition ⟨.series, Binding.empty, 8⟩ (.condition rising)
      Tally.empty).1.toOption.isSome = true := by decide +kernel
  obtain ⟨e, he⟩ := Option.isSome_iff_exists.mp hemit
  replace he := toOption_eq_some he
  obtain ⟨expr, mask, h⟩ :=
    emitCondition_text_evaluates_to_mask hbind read_risingRaw he rising_counts rising_noZeroDivisor
  exact ⟨hbind, read_risingRaw, rising_counts, rising_noZeroDivisor, e, expr, mask, he, h⟩

/-- Whether it is a weekend, less the same. -/
def evenedRaw : Value :=
  let weekend : Value := .object [(.text "type", .text "TIME"), (.text "field", .text "is_weekend")]
  .object [(.text "type", .text "COMPARE"),
    (.text "left", .object [(.text "type", .text "COMPUTED"), (.text "operation", .text "sub"),
      (.text "operands", .list [weekend, weekend])]),
    (.text "operator", .text "eq"),
    (.text "right", .object [(.text "type", .text "CONSTANT"), (.text "value", .int 0)])]

def evened : Condition :=
  .compare ⟨none, none⟩ (.computed .sub [.time .isWeekend none, .time .isWeekend none]) .eq
    (.constant (.scalar (.int 0)))

/-- A difference of truth values is emitted, and its text has no value. -/
theorem evened_text_faults :
    Condition.read evenedRaw = .good evened ∧
    (Node.condition evened).NoZeroDivisor ticking Binding.empty ∧ ∃ e expr,
      (emitCondition ⟨.series, Binding.empty, 8⟩ (.condition evened) Tally.empty).1 = .ok e ∧
      Script.read e.text = some expr ∧ Script.eval ticking expr = .error .type := by
  refine ⟨by with_unfolding_all rfl, ?_, ?_⟩
  · rintro operation x y ho hm
    simp only [evened, Node.preorder, Condition.preorder, Operand.preorder, Operand.preorders,
      List.mem_cons, List.mem_append, reduceCtorEq, Node.operand.injEq, Operand.computed.injEq,
      List.not_mem_nil, or_false, false_or] at hm
    simp [hm.1] at ho
  · have hfault : ((emitCondition ⟨.series, Binding.empty, 8⟩ (.condition evened)
        Tally.empty).1.toOption.map fun e => Script.eval ticking e.code.script) =
          some (.error .type) := by with_unfolding_all rfl
    obtain ⟨e, he, hfault⟩ := Option.map_eq_some_iff.mp hfault
    obtain ⟨p, hp, rfl⟩ := emitCondition_eq_ok (toOption_eq_some he)
    obtain ⟨hgrouped, hrank⟩ := asMask_grouped hp
    exact ⟨_, _, toOption_eq_some he, Code.read_render _ hgrouped hrank, hfault⟩

end Emission

end Stratagem
