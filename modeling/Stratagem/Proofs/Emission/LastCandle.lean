import Stratagem.Proofs.Emission.Masks

/-! Leverage scope as a whole, for trees that read neither the clock nor the trade. Code of an
operand is its value at the last candle and, one candle earlier, at the candle before; a condition
is its meaning at the last candle, if there are as many candles as it looks back. Main statement:
both scopes accept the same of these trees and agree at the last candle. -/

namespace Stratagem

open Script Code

/-- Operands that the table of candles does not decide. -/
def Node.isOutside : Node → Bool
  | .operand (.time ..) | .operand (.tradeContext _) => true
  | _ => false

/-- No operand of the tree reads the clock or the trade. -/
def Node.OnCandles (root : Node) : Prop := ∀ m ∈ root.preorder, m.isOutside = false

theorem Node.OnCandles.of_mem_children {n k : Node} (h : n.OnCandles) (hk : k ∈ n.children) :
    k.OnCandles :=
  fun m hm => h m ((Node.mem_preorder n).mpr (.inr ⟨k, hk, hm⟩))

theorem Operation.counts_of_forall {operation : Operation} {exact : List Bool}
    (h : ∀ b ∈ exact, b = true) (harity : operation.arity.allows exact.length = true) :
    operation.counts exact = true := by
  match exact, harity with
  | [], harity => cases operation <;> cases harity
  | [a], harity =>
    obtain rfl : a = true := h a (by simp)
    cases operation <;> rfl
  | a :: b :: rest, harity =>
    obtain rfl : a = true := h a (by simp)
    cases operation <;> first | rfl | simp [arity, Arity.allows] at harity

/-- Off the clock every operand has a number inside. -/
theorem Node.OnCandles.hasNumber {o : Operand} (h : (Node.operand o).OnCandles)
    (hadm : ∀ m ∈ (Node.operand o).preorder, m.Admissible) : o.hasNumber = true := by
  generalize hn : Node.operand o = n at h hadm
  induction n using Node.induction generalizing o with
  | step n ih =>
    subst hn
    obtain ⟨hself, hbelow⟩ := (Node.forall_mem_preorder _).mp hadm
    cases o with
    | computed operation operands =>
      rw [Operand.hasNumber_computed]
      cases operands with
      | nil => cases operation <;> cases hself
      | cons o rest =>
        have ho : Node.operand o ∈ (Node.operand (.computed operation (o :: rest))).children := by
          simp [Node.children]
        rw [List.any_cons, ih _ ho rfl (h.of_mem_children ho) (hbelow _ ho), Bool.true_or]
    | time field zone => cases h _ ((Node.mem_preorder _).mpr (.inl rfl))
    | _ => rfl

theorem Node.OnCandles.counts {root : Node} (h : root.OnCandles)
    (hadm : ∀ m ∈ root.preorder, m.Admissible) : root.Counts := by
  induction root using Node.induction with
  | step root ih =>
    intro operation operands hm
    obtain ⟨hself, hbelow⟩ := (Node.forall_mem_preorder root).mp hadm
    rcases (Node.mem_preorder root).mp hm with rfl | ⟨k, hk, hm⟩
    · have harity : operation.arity.allows operands.length = true := hself
      refine Operation.counts_of_forall (List.forall_mem_map.mpr fun o ho => ?_)
        (by rwa [List.length_map])
      have hchild : Node.operand o ∈ (Node.operand (.computed operation operands)).children := by
        simpa [Node.children] using ho
      exact (h.of_mem_children hchild).hasNumber (hbelow _ hchild)
    · exact ih k hk (h.of_mem_children hk) (hbelow k hk) operation operands hm

mutual

/-- Only prices and indicators look back. -/
theorem Operand.reach_eq_zero (o : Operand) (h : o.isMarket = false) : o.reach = 0 := by
  cases o with
  | computed operation operands =>
    rw [Operand.reach]
    exact Operand.reaches_eq_zero operands h
  | indicator _ _ _ | price _ _ => cases h
  | _ => rfl

theorem Operand.reaches_eq_zero (os : List Operand)
    (h : Operand.anyLeaves (fun
      | .price .. | .indicator .. => true
      | _ => false) os = false) : Operand.reaches os = 0 := by
  cases os with
  | nil => rfl
  | cons o rest =>
    rw [Operand.anyLeaves, Bool.or_eq_false_iff] at h
    rw [Operand.reaches, Operand.reach_eq_zero o h.1, Operand.reaches_eq_zero rest h.2]
    rfl

end

def Node.reach : Node → Nat
  | .operand o => o.reach
  | .condition c => c.reach

/-- Conditions other than crossings look back as far as their parts do. -/
theorem Condition.reach_eq {c : Condition} (h : c.isCrossing = false) :
    c.reach = ((Node.condition c).children.map Node.reach).foldr max 0 := by
  have hreaches : ∀ cs : List Condition,
      Condition.reaches cs = ((cs.map Node.condition).map Node.reach).foldr max 0 := by
    intro cs
    induction cs with
    | nil => rfl
    | cons c rest ih => rw [Condition.reaches, ih]; rfl
  cases c with
  | all mark children => rw [Condition.reach, hreaches]; rfl
  | any mark children => rw [Condition.reach, hreaches]; rfl
  | crossover _ _ _ | crossunder _ _ _ => cases h
  | _ => simp [Condition.reach, Node.children, Node.reach]

/-- So many candles are enough to read so many back, and more if there are any to read. -/
def Covers (lookback reach : Nat) : Prop := reach = 0 ∨ reach < lookback

theorem Covers.max {l l' n n' : Nat} (h : Covers l n) (h' : Covers l' n') :
    Covers (max l l') (max n n') := by
  unfold Covers at *
  omega

theorem Covers.le {l n rows : Nat} (h : Covers l n) (hl : l ≤ rows) (hrows : 0 < rows) :
    n ≤ rows - 1 := by
  unfold Covers at h
  omega

namespace Emission

variable {o : Operand} {parts : List Emitted} {e : Emitted} {maxDepth : Int} {c : Condition}
  {n : Node} {depth : Nat}

theorem foldl_max (xs : List Nat) (a : Nat) : xs.foldl max a = max a (greatest xs) := by
  induction xs generalizing a with
  | nil => simp [greatest]
  | cons x rest ih => rw [greatest, List.foldl_cons, List.foldl_cons, ih, ih]; omega

theorem greatest_cons (x : Nat) (xs : List Nat) : greatest (x :: xs) = max x (greatest xs) := by
  rw [greatest, List.foldl_cons, foldl_max]
  omega

theorem greatest_le_iff {xs : List Nat} {n : Nat} : greatest xs ≤ n ↔ ∀ x ∈ xs, x ≤ n := by
  induction xs with
  | nil => simp [greatest]
  | cons x rest ih => simp [greatest_cons, ih]

theorem covers_greatest {α β : Type} {reach : α → Nat} {lookback : β → Nat} {xs : List α}
    {ys : List β} (h : List.Forall₂ (fun x y => Covers (lookback y) (reach x)) xs ys) :
    Covers (greatest (ys.map lookback)) ((xs.map reach).foldr max 0) := by
  induction h with
  | nil => exact .inl rfl
  | cons hxy _ ih =>
    rw [List.map_cons, List.map_cons, greatest_cons, List.foldr_cons]
    exact hxy.max ih

variable {t : Table} {b : Binding}

/-- What an emitted operand stands for in leverage scope, now and one candle before. -/
structure LastOperand (t : Table) (b : Binding) (o : Operand) (e : Emitted) : Prop where
  readable : o.isReadable = true
  covers : Covers e.lookback o.reach
  coversBefore : o.isMarket = true → o.reach + 1 < e.prevLookback
  now : 0 < t.rows → e.lookback ≤ t.rows →
    o.Stands t b (fun _ => t.rows - 1) e.code false 0
  before : 0 < t.rows → e.prevLookback ≤ t.rows →
    o.Stands t b (fun _ => t.rows - 2) e.before false 0

theorem columns_last (value : Nat → ℚ) {names : List String} {offset : Nat}
    (hreadable : o.isReadable = true) (hlist : o.isList = false) (hreach : o.reach = offset)
    (hdatum : ∀ i, o.datum t b i = .number (value (i - offset))) (hcolumns : ∀ ago, ago < t.rows →
      (columnsAt .leverage names ago).YieldsNumbers t false 0 (fun _ => value (t.rows - 1 - ago))
        true) :
    LastOperand t b o (columns .leverage names offset) where
  readable := hreadable
  covers := by simp [Covers, columns, Emission.reach, hreach]
  coversBefore _ := by simp [columns, Emission.reach, hreach]
  now _ hl := by
    refine Operand.stands_of_numbers ((hcolumns offset ?_).weaken _) hlist fun i => by
      rw [hdatum]; rfl
    simpa [columns, Emission.reach] using hl
  before _ hl := by
    refine Operand.stands_of_numbers ((hcolumns (offset + 1) ?_).weaken _) hlist fun i => ?_
    · simpa [columns, Emission.reach] using hl
    · rw [hdatum, show t.rows - 1 - (offset + 1) = t.rows - 2 - offset by omega]
      rfl

/-- A computed operand at one candle, from parts at the same candle. -/
theorem computed_at {operation : Operation} {operands : List Operand} {code : Emitted → Code}
    {k : Nat} (h : List.Forall₂ (fun o e => o.Stands t b (fun _ => k) (code e) false 0 ∧
      o.isNumeric = true ∧ o.isReadable = true ∧ 1 ≤ (code e).rank) operands parts)
    (harity : operation.arity.allows operands.length = true)
    (hzero : (Node.operand (.computed operation operands)).NoZeroDivisor t b)
    (hreach : ∀ o ∈ operands, o.reach ≤ k) (hrows : k < t.rows) :
    (Operand.computed operation operands).Stands t b (fun _ => k)
      (arithmetic .leverage operation (parts.map code)) false 0 := by
  have hdiv : ∀ x y (p q : Emitted), operation = .div ∨ operation = .percentChange →
      operands = [x, y] → parts = [p, q] → ∀ i : Nat, (false = true → i < t.rows) → 0 ≤ i →
        y.amount t b k ≠ 0 := by
    rintro x y p q ho rfl - - - -
    have hself : Node.operand (.computed operation [x, y]) ∈
        (Node.operand (.computed operation [x, y])).preorder :=
      (Node.mem_preorder _).mpr (.inl rfl)
    exact hzero operation x y ho hself k (fun _ => hrows) (hreach y (by simp))
  have hstands := @computed_stands t b (fun _ => k) code (fun _ => false) (fun _ => 0) operands
    parts .leverage operation h harity (fun _ => ⟨fun _ => rfl, fun _ => rfl⟩) (by simp) hdiv
  have hfirst : ∀ os : List Operand, (os.map fun _ => 0).foldr max 0 = 0 := by
    intro os
    induction os with
    | nil => rfl
    | cons o rest ih => rw [List.map_cons, List.foldr_cons, ih]; rfl
  have hseries : parts.any (fun _ => false) = false := by simp
  rwa [hfirst, hseries] at hstands

theorem reaches_le_iff {os : List Operand} {n : Nat} :
    Operand.reaches os ≤ n ↔ ∀ o ∈ os, o.reach ≤ n := by
  induction os with
  | nil => simp [Operand.reaches]
  | cons o rest ih => simp [Operand.reaches, ih]

theorem LastOperand.reach_le (h : LastOperand t b o e) (hrows : 0 < t.rows)
    (hl : e.prevLookback ≤ t.rows) : o.reach ≤ t.rows - 2 := by
  cases hm : o.isMarket with
  | true =>
    have := h.coversBefore hm
    omega
  | false =>
    rw [o.reach_eq_zero hm]
    exact Nat.zero_le _

theorem computed_last {operation : Operation} {operands : List Operand}
    (h : List.Forall₂ (fun o e => o.Marks .leverage e ∧ (Node.operand o).Grouped e ∧
      LastOperand t b o e) operands parts) (harity : operation.arity.allows operands.length = true)
    (hzero : (Node.operand (.computed operation operands)).NoZeroDivisor t b)
    (he : computed .leverage operation parts = .ok e) :
    LastOperand t b (.computed operation operands) e := by
  obtain ⟨hnumeric, rfl⟩ := computed_eq_ok he
  have htight : ∀ {c : Code}, c.Tight → 1 ≤ c.rank := fun hc => Nat.le_trans (by decide) hc.2
  refine ⟨rfl, ?_, fun hmarket => ?_, fun hrows hl => ?_, fun hrows hl => ?_⟩
  · rw [Operand.reach, ← reaches_eq]
    exact covers_greatest (h.imp fun o p hp => hp.2.2.covers)
  · rw [Operand.isMarket, Operand.anyLeaf_computed, List.any_eq_true] at hmarket
    obtain ⟨m, hm, hmarket⟩ := hmarket
    have hroom : ∀ top, (∀ p ∈ parts, p.prevLookback ≤ top) →
        Operand.reaches operands + 1 < top := by
      intro top hbelow
      -- one part of market data leaves room for all others
      have hone : ∀ o ∈ operands, o.isMarket = true → o.reach + 1 < top := by
        intro o ho hom
        obtain ⟨p, hp, -, -, hlast⟩ := exists_of_forall₂ h ho
        exact Nat.lt_of_lt_of_le (hlast.coversBefore hom) (hbelow p hp)
      have hmroom := hone m hm hmarket
      have hall : ∀ o ∈ operands, o.reach ≤ top - 2 := by
        intro o ho
        cases hom : o.isMarket with
        | true => have := hone o ho hom; omega
        | false => rw [o.reach_eq_zero hom]; exact Nat.zero_le _
      have := reaches_le_iff.mpr hall
      omega
    refine hroom _ fun p hp => ?_
    exact Nat.le_trans (Nat.le_max_left ..)
      (greatest_le_iff.mp le_rfl _ (List.mem_map_of_mem hp))
  · have hlook : ∀ p ∈ parts, p.lookback ≤ t.rows := by simpa [greatest_le_iff] using hl
    refine computed_at ?_ harity hzero (fun o ho => ?_) (by omega)
    · refine (forall₂_and_right (forall₂_and_right h hnumeric) hlook).imp fun o p hp => ?_
      obtain ⟨⟨⟨hm, hg, ho⟩, hn⟩, hle⟩ := hp
      exact ⟨ho.now hrows hle, hm.numeric ▸ hn, ho.readable, htight hg.1⟩
    · obtain ⟨p, hp, -, -, hlast⟩ := exists_of_forall₂ h ho
      exact hlast.covers.le (hlook p hp) hrows
  · have hlook : ∀ p ∈ parts, p.prevLookback ≤ t.rows ∧ p.lookback ≤ t.rows := by
      simpa [greatest_le_iff] using hl
    refine computed_at ?_ harity hzero (fun o ho => ?_) (by omega)
    · refine (forall₂_and_right (forall₂_and_right h hnumeric) hlook).imp fun o p hp => ?_
      obtain ⟨⟨⟨hm, hg, ho⟩, hn⟩, hle⟩ := hp
      exact ⟨ho.before hrows hle.1, hm.numeric ▸ hn, ho.readable, htight hg.2.1⟩
    · obtain ⟨p, hp, -, -, hlast⟩ := exists_of_forall₂ h ho
      exact hlast.reach_le hrows (hlook p hp).1

theorem operand_last {context : EmissionContext} (hscope : context.scope = .leverage)
    (hdate : Dateless context.binding) (hadm : (Node.operand o).Admissible)
    (hinside : (Node.operand o).isOutside = false)
    (hzero : (Node.operand o).NoZeroDivisor t context.binding)
    (hparts : ∀ operation operands, o = .computed operation operands →
      List.Forall₂ (fun o e => o.Marks .leverage e ∧ (Node.operand o).Grouped e ∧
        LastOperand t context.binding o e) operands parts) (h : operand context o parts = .ok e) :
    LastOperand t context.binding o e := by
  cases o with
  | constant value =>
    obtain ⟨-, rfl⟩ := constant_eq_ok h
    exact ⟨rfl, .inl rfl, nofun, fun _ _ => constant_stands, fun _ _ => constant_stands⟩
  | indicator id field offset =>
    obtain ⟨name, hname, rfl⟩ := indicator_eq_ok h
    rw [hscope]
    refine columns_last (t.column name) rfl rfl rfl (fun i => ?_) fun ago ha =>
      columnAt_leverage (hdate _ _ _ hname) ha
    simp [Operand.datum, Binding.columnOf, hname]
  | price field offset =>
    cases h
    rw [hscope]
    exact columns_last (fun i => field.value t i) rfl rfl rfl (fun i => rfl) fun ago ha =>
      price_numbers (fun name hn => columnAt_leverage hn ha) field
  | tradeContext field => cases hinside
  | time field zone => cases hinside
  | computed operation operands =>
    rw [operand, hscope] at h
    exact computed_last (hparts operation operands rfl) hadm hzero h
  | external source => cases h
  | custom name => cases h

/-! ## Conditions -/

theorem combine_leverage (empty : Bool) (c c' : Connective) {children : List Emitted}
    (hs : ∀ p ∈ children, p.series = false) :
    (combine .leverage empty c c' children).series = false ∧
      (combine .leverage empty c c' children).lookback =
        greatest (children.map Emitted.lookback) := by
  unfold combine
  split
  · exact ⟨rfl, rfl⟩
  · next child => exact ⟨hs child (by simp), by simp [greatest]⟩
  · exact ⟨by simpa [boolean] using hs, rfl⟩

/-- In leverage scope conditions are single, and all but crossings look back as far as their parts
do. -/
theorem condition_leverage {b : Binding} (hs : ∀ p ∈ parts, p.series = false)
    (hlength : parts.length = (Node.condition c).children.length)
    (h : condition ⟨.leverage, b, maxDepth⟩ c parts = .ok e) :
    e.series = false ∧
      (c.isCrossing = false → e.lookback = greatest (parts.map Emitted.lookback)) := by
  have hboolean : ∀ code : Code, (boolean code parts).series = false ∧ (c.isCrossing = false →
      (boolean code parts).lookback = greatest (parts.map Emitted.lookback)) :=
    fun code => ⟨by simpa [boolean] using hs, fun _ => rfl⟩
  cases c with
  | all mark children =>
    cases h
    have := combine_leverage true .seriesAnd .and hs
    exact ⟨this.1, fun _ => this.2⟩
  | any mark children =>
    cases h
    have := combine_leverage false .seriesOr .or hs
    exact ⟨this.1, fun _ => this.2⟩
  | not mark child =>
    cases h
    obtain ⟨p, rfl⟩ := List.length_eq_one_iff.mp hlength
    exact hboolean _
  | ifThen mark c d =>
    cases h
    obtain ⟨p, q, rfl⟩ := List.length_eq_two.mp hlength
    refine ⟨?_, fun _ => ?_⟩
    · simpa [ifThenElse, boolean, absentBranch] using hs
    · simp [ifThenElse, boolean, greatest, absentBranch]
  | ifThenElse mark c d e =>
    cases h
    obtain ⟨p, q, r, rfl⟩ := List.length_eq_three.mp hlength
    exact hboolean _
  | compare mark left operator right =>
    obtain ⟨p, q, rfl⟩ := List.length_eq_two.mp hlength
    obtain ⟨-, ⟨-, -, rfl⟩ | ⟨r, -, -, -, rfl⟩⟩ := compare_eq_ok h
    · exact hboolean _
    · exact hboolean _
  | crossover mark x y | crossunder mark x y =>
    obtain ⟨-, -, rfl⟩ := crossing_eq_ok h
    exact ⟨rfl, by simp [Condition.isCrossing]⟩
  | inRange mark x low high inclusive =>
    obtain ⟨p, q, r, rfl⟩ := List.length_eq_three.mp hlength
    have hrule : inRange .leverage inclusive p q r = .ok e := h
    obtain ⟨-, rfl⟩ := inRange_eq_ok hrule
    exact hboolean _

theorem series_of_marks (h : o.Marks .leverage e) : e.series = false := by
  simp [h.series]

theorem part_last (hm : o.Marks .leverage e) (h : LastOperand t b o e) (hrows : 0 < t.rows)
    (hl : e.lookback ≤ t.rows) : Part t b (fun _ => t.rows - 1) 0 o e := by
  have hs := series_of_marks hm
  exact ⟨hm.isList, hm.numeric, h.readable, fun _ => hs, hs ▸ h.now hrows hl⟩

/-- The same operand one candle before. -/
theorem part_before (hm : o.Marks .leverage e) (h : LastOperand t b o e) (hrows : 0 < t.rows)
    (hl : e.prevLookback ≤ t.rows) :
    Part t b (fun _ => t.rows - 2) 0 o { e with code := e.before } := by
  have hs := series_of_marks hm
  exact ⟨hm.isList, hm.numeric, h.readable, fun _ => hs, hs ▸ h.before hrows hl⟩

theorem crossing_last (mark : Mark) (above : Bool) {x y : Operand} {p q : Emitted}
    (hp : LastOperand t b x p) (hq : LastOperand t b y q) (hx : x.Marks .leverage p)
    (hy : y.Marks .leverage q) (h : crossing .leverage above p q = .ok e) :
    Covers e.lookback (max x.reach y.reach + 1) ∧
      (0 < t.rows → e.lookback ≤ t.rows → e.Tells t 0 fun _ =>
        (Condition.crossing above mark x y).holds t b (t.rows - 1)) := by
  obtain ⟨hxm, hym, rfl⟩ := crossing_eq_ok h
  have hxmarket : x.isMarket = true := hx.market ▸ hxm
  have hymarket : y.isMarket = true := hy.market ▸ hym
  have hlook : (crossingCode .leverage above p q).lookback =
      greatest [p.lookback, q.lookback, p.prevLookback, q.prevLookback] := rfl
  refine ⟨.inr ?_, fun hrows hl => ?_⟩
  · have := hp.coversBefore hxmarket
    have := hq.coversBefore hymarket
    simp only [hlook, greatest_cons]
    omega
  · rw [hlook, greatest_le_iff] at hl
    have hpnum : p.numeric = true := hx.numeric.trans (Operand.isNumeric_of_isMarket hxmarket)
    have hqnum : q.numeric = true := hy.numeric.trans (Operand.isNumeric_of_isMarket hymarket)
    have hpl : p.isList = false := hx.isList.trans (isList_of_isMarket hxmarket)
    have hql : q.isList = false := hy.isList.trans (isList_of_isMarket hymarket)
    have hnow := relation_tells (if above then .gt else .lt)
      (part_last hx hp hrows (hl _ (by simp))) (part_last hy hq hrows (hl _ (by simp))) hpl hql
      fun _ => ⟨hpnum, hqnum⟩
    have hbefore := relation_tells (if above then .lte else .gte)
      (part_before hx hp hrows (hl _ (by simp))) (part_before hy hq hrows (hl _ (by simp))) hpl hql
      fun _ => ⟨hpnum, hqnum⟩
    have hjoin := yields_join .and hbefore hnow fun _ => by
      simp [series_of_marks hx, series_of_marks hy]
    simp only [series_of_marks hx, series_of_marks hy, Bool.or_self, Nat.max_self] at hjoin
    rw [Condition.holds_crossing, Bool.and_comm]
    cases above <;> exact hjoin

/-- What emitted nodes stand for in leverage scope. -/
def LastMeaning (t : Table) (b : Binding) : Node → Emitted → Prop
  | .operand o, e => LastOperand t b o e
  | .condition c, e => e.series = false ∧ Covers e.lookback c.reach ∧
    (0 < t.rows → e.lookback ≤ t.rows → e.Tells t 0 fun _ => c.holds t b (t.rows - 1))

theorem covers_parts (hc : c.isCrossing = false)
    (h : List.Forall₂ (fun m p => m.Marks .leverage p ∧ m.Grouped p ∧ LastMeaning t b m p)
      (Node.condition c).children parts) :
    Covers (greatest (parts.map Emitted.lookback)) c.reach := by
  rw [Condition.reach_eq hc]
  refine covers_greatest (h.imp fun m p hp => ?_)
  cases m with
  | operand o => exact hp.2.2.covers
  | condition d => exact hp.2.2.2.1

/-- One node: if the parts stand for their meaning at the last candle, so does the node. -/
theorem node_last (hdate : Dateless b) (hadm : n.Admissible) (hinside : n.isOutside = false)
    (hzero : n.NoZeroDivisor t b)
    (hparts : List.Forall₂ (fun m p => m.Marks .leverage p ∧ m.Grouped p ∧ LastMeaning t b m p)
      n.children parts) (h : node ⟨.leverage, b, maxDepth⟩ n parts = .ok e) :
    LastMeaning t b n e := by
  cases n with
  | operand o =>
    refine operand_last rfl hdate hadm hinside hzero ?_ h
    rintro operation operands rfl
    exact List.forall₂_map_left_iff (f := Node.operand).mp hparts
  | condition c =>
    have hs : ∀ p ∈ parts, p.series = false := by
      refine forall_of_forall₂ hparts fun m p hp => ?_
      cases m with
      | operand o => exact series_of_marks hp.1
      | condition d => exact hp.2.2.1
    obtain ⟨hseries, hlook⟩ := condition_leverage hs hparts.length_eq.symm h
    refine ⟨hseries, ?_⟩
    cases hc : c.isCrossing with
    | false =>
      rw [hlook hc]
      refine ⟨covers_parts hc hparts, fun hrows hl => ?_⟩
      have hle : ∀ p ∈ parts, p.lookback ≤ t.rows := by simpa [greatest_le_iff] using hl
      refine condition_tells ⟨.leverage, b, maxDepth⟩ (fun _ => hs) ?_ (by simp [hc]) h
      refine (forall₂_and_right hparts hle).imp fun m p hp => ?_
      cases m with
      | operand o => exact part_last hp.1.1 hp.1.2.2 hrows hp.2
      | condition d => exact hp.1.2.2.2.2 hrows hp.2
    | true =>
      obtain ⟨above, mark, x, y, rfl⟩ := Condition.exists_crossing hc
      rw [Condition.children_crossing] at hparts
      obtain ⟨p, q, hp, hq, rfl⟩ := forall₂_pair hparts
      rw [Condition.reach_crossing]
      exact crossing_last mark above hp.2.2 hq.2.2 hp.1 hq.1 (condition_crossing h)

theorem build_last (hdate : Dateless b) (hadm : ∀ m ∈ n.preorder, m.Admissible)
    (hinside : n.OnCandles) (hzero : n.NoZeroDivisor t b)
    (h : build ⟨.leverage, b, maxDepth⟩ depth n = .ok e) : LastMeaning t b n e := by
  refine build_induction (P := fun n e => (∀ m ∈ n.preorder, m.Admissible) → n.OnCandles →
    n.NoZeroDivisor t b → LastMeaning t b n e) (fun n parts e depth hparts hnode => ?_) h hadm
    hinside hzero
  intro hadm hinside hzero
  obtain ⟨hself, hbelow⟩ := (Node.forall_mem_preorder n).mp hadm
  have hroot := hinside n ((Node.mem_preorder n).mpr (.inl rfl))
  refine node_last hdate hself hroot hzero (hparts.imp fun m p hp => ?_) hnode
  obtain ⟨hm, hbuild, hmeaning⟩ := hp
  exact ⟨build_marks (hbelow m hm) hbuild, build_grouped hbuild,
    hmeaning (hbelow m hm) (hinside.of_mem_children hm) (hzero.of_mem_children hm)⟩

/-! ## Both scopes -/

theorem mem_preorder_of_occurs {root : Node} {d : Nat} (h : root.Occurs depth n d) :
    n ∈ root.preorder := by
  have htrans : ∀ r m k : Node, m ∈ r.preorder → k ∈ m.children → k ∈ r.preorder := by
    intro r
    induction r using Node.induction with
    | step r ih =>
      intro m k hm hk
      refine (Node.mem_preorder r).mpr (.inr ?_)
      rcases (Node.mem_preorder r).mp hm with rfl | ⟨p, hp, hm⟩
      · exact ⟨k, hk, (Node.mem_preorder k).mpr (.inl rfl)⟩
      · exact ⟨p, hp, ih p hp m k hm hk⟩
  induction h with
  | root => exact (Node.mem_preorder root).mpr (.inl rfl)
  | part _ hm ih => exact htrans root _ _ ih hm

/-- Off the trade the scope does not matter for typing. -/
theorem wellTyped_scope {b : Binding} {root : Node} (h : root.OnCandles) (scope scope' : Scope)
    (depth : Nat) (hw : WellTyped ⟨scope, b, maxDepth⟩ depth root) :
    WellTyped ⟨scope', b, maxDepth⟩ depth root := by
  intro n d hocc
  obtain ⟨hdepth, htyped⟩ := hw n d hocc
  refine ⟨hdepth, ⟨htyped.implemented, htyped.resolved, ?_, htyped.lists, htyped.numbers,
    htyped.crossing⟩, htyped.written⟩
  rintro field rfl
  cases h _ (mem_preorder_of_occurs hocc)

/-- The value of a condition in leverage scope, and that it looks back far enough for its mask. -/
theorem leverage_value (hdate : Dateless b) (hadm : c.Admissible)
    (hinside : (Node.condition c).OnCandles) (hzero : (Node.condition c).NoZeroDivisor t b)
    (hrows : 0 < t.rows) (hl : e.lookback ≤ t.rows)
    (h : build ⟨.leverage, b, maxDepth⟩ depth (.condition c) = .ok e) :
    c.reach ≤ t.rows - 1 ∧ ∃ expr, Script.read e.text = some expr ∧
      Script.eval t expr = .ok (.single (.truth (c.holds t b (t.rows - 1)))) := by
  obtain ⟨hseries, hcovers, htells⟩ := build_last hdate hadm hinside hzero h
  obtain ⟨hgrouped, hrank⟩ := asMask_grouped h
  obtain ⟨told, hyields, htold⟩ := htells hrows hl
  rw [hseries] at hyields
  refine ⟨hcovers.le hl hrows, _, Code.read_render _ hgrouped hrank, ?_⟩
  have hvalue : told 0 = c.holds t b (t.rows - 1) := htold 0 (Nat.le_refl 0)
  rw [← hvalue]
  exact hyields.single 0

/-- Both scopes accept the same trees that read candles only, and the value in leverage scope is
that of the mask at the last candle. -/
theorem emitCondition_scopes_agree {registry : Registry}
    {declarations : List IndicatorDeclaration} {binding : Binding}
    (hbind : registry.bind declarations = .ok binding) {raw : Value} {c : Condition}
    (hc : Condition.read raw = .good c) (hcandles : (Node.condition c).OnCandles) (maxDepth : Int)
    (tally tally' : Tally) :
    ((∃ s, (emitCondition ⟨.series, binding, maxDepth⟩ (.condition c) tally).1 = .ok s) ↔
      ∃ l, (emitCondition ⟨.leverage, binding, maxDepth⟩ (.condition c) tally').1 = .ok l) ∧
    ∀ s l, (emitCondition ⟨.series, binding, maxDepth⟩ (.condition c) tally).1 = .ok s →
      (emitCondition ⟨.leverage, binding, maxDepth⟩ (.condition c) tally').1 = .ok l →
      ∀ t : Table, 0 < t.rows → l.lookback ≤ t.rows →
        (Node.condition c).NoZeroDivisor t binding →
        ∃ wide mask narrow value, Script.read s.text = some wide ∧
          Script.eval t wide = .ok (.series mask) ∧ Script.read l.text = some narrow ∧
          Script.eval t narrow = .ok (.single (.truth value)) ∧
          mask[t.rows - 1]? = some (some (.truth value)) := by
  have hadm := Condition.read_admissible hc
  have hdate := dateless_of_bind hbind
  constructor
  · rw [exists_emitted_iff _ hadm, exists_emitted_iff _ hadm]
    exact ⟨wellTyped_scope hcandles .series .leverage 1,
      wellTyped_scope hcandles .leverage .series 1⟩
  · intro s l hs hl t hrows hlook hzero
    obtain ⟨p, hp, rfl⟩ := emitCondition_eq_ok hs
    obtain ⟨q, hq, rfl⟩ := emitCondition_eq_ok hl
    obtain ⟨wide, mask, hread, heval, hmask⟩ :=
      mask_of_build hdate hadm (hcandles.counts hadm) hzero hp
    obtain ⟨hreach, narrow, hread', heval'⟩ :=
      leverage_value hdate hadm hcandles hzero hrows hlook hq
    exact ⟨wide, mask, narrow, _, hread, heval, hread', heval',
      hmask.meaning (t.rows - 1) hreach (by omega)⟩

theorem rising_scopes_agree :
    (Node.condition rising).OnCandles ∧ ∃ s l wide mask narrow value,
      (emitCondition ⟨.series, Binding.empty, 8⟩ (.condition rising) Tally.empty).1 = .ok s ∧
      (emitCondition ⟨.leverage, Binding.empty, 8⟩ (.condition rising) Tally.empty).1 = .ok l ∧
      l.lookback ≤ ticking.rows ∧ Script.read s.text = some wide ∧
      Script.eval ticking wide = .ok (.series mask) ∧ Script.read l.text = some narrow ∧
      Script.eval ticking narrow = .ok (.single (.truth value)) ∧
      mask[ticking.rows - 1]? = some (some (.truth value)) := by
  have hbind : Registry.empty.bind [] = .ok Binding.empty := rfl
  have hcandles : (Node.condition rising).OnCandles := by
    have h : (Node.condition rising).preorder.all (fun m => !m.isOutside) = true := rfl
    simpa [Node.OnCandles] using h
  have hseries : (emitCondition ⟨.series, Binding.empty, 8⟩ (.condition rising)
      Tally.empty).1.toOption.isSome = true := by decide +kernel
  have hleverage : ((emitCondition ⟨.leverage, Binding.empty, 8⟩ (.condition rising)
      Tally.empty).1.toOption.any fun l => l.lookback ≤ ticking.rows) = true := by decide +kernel
  obtain ⟨s, hs⟩ := Option.isSome_iff_exists.mp hseries
  obtain ⟨l, hl, hlook⟩ := (Option.any_eq_true _ _).mp hleverage
  replace hs := toOption_eq_some hs
  replace hl := toOption_eq_some hl
  obtain ⟨wide, mask, narrow, value, h⟩ :=
    (emitCondition_scopes_agree hbind read_risingRaw hcandles 8 Tally.empty Tally.empty).2 s l
      hs hl ticking (by decide) (of_decide_eq_true hlook) rising_noZeroDivisor
  exact ⟨hcandles, s, l, wide, mask, narrow, value, hs, hl, of_decide_eq_true hlook, h⟩

end Emission

end Stratagem
