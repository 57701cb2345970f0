import Stratagem.Proofs.Emission.Recursion
import Stratagem.Proofs.Script.Spelling

/-! Emitted code has parentheses wherever they are needed. Operands come out tight, so that any
operator may stand beside them, and conditions at least hold together as an argument. What a rule
that succeeded has checked, and what it gave, is said first. -/

namespace Stratagem

open Script (Binary)

namespace Emission

variable {e : Emitted} {scope : Scope}

/-! ## Rules that succeeded -/

/-- A property of all emitted nodes follows from one rule at a time. -/
theorem build_induction {context : EmissionContext} {P : Node → Emitted → Prop}
    (step : ∀ n parts e depth,
      List.Forall₂ (fun m p => m ∈ n.children ∧ build context depth m = .ok p ∧ P m p)
        n.children parts →
      node context n parts = .ok e → P n e) {n : Node} {depth : Nat}
    (h : build context depth n = .ok e) : P n e := by
  induction n using Node.induction generalizing e depth with
  | step n ih =>
    obtain ⟨-, parts, hparts, hnode⟩ := (build_eq_ok_iff context depth n e).mp h
    refine step n parts e (depth + 1) ?_ hnode
    have hmem : List.Forall₂ (fun m p => m ∈ n.children ∧ build context (depth + 1) m = .ok p)
        n.children parts := by
      rw [List.forall₂_iff_zip] at hparts ⊢
      exact ⟨hparts.1, fun hz => ⟨(List.of_mem_zip hz).1, hparts.2 hz⟩⟩
    exact hmem.imp fun m p h => ⟨h.1, h.2, ih m h.1 h.2⟩

theorem computed_eq_ok {operation : Operation} {parts : List Emitted}
    (h : computed scope operation parts = .ok e) :
    (∀ p ∈ parts, p.numeric = true) ∧ e = {
      code := arithmetic scope operation (parts.map Emitted.code)
      series := parts.any Emitted.series
      market := parts.any Emitted.market
      prev := some (arithmetic scope operation (parts.map Emitted.before))
      lookback := greatest (parts.map Emitted.lookback)
      prevLookback := greatest (parts.map fun e => max e.prevLookback e.lookback) } := by
  unfold computed at h
  split at h
  · cases h
  · next hfind =>
    cases h
    exact ⟨by simpa using hfind, rfl⟩

theorem constant_eq_ok {value : Constant} (h : constant value = .ok e) :
    (∃ s, value.toValue.literal = .ok s) ∧ e = {
      code := .literal value
      prev := some (.literal value)
      isList := value.isList
      numeric := value.isNumber } := by
  unfold constant at h
  split at h
  · cases h
  · next s hs =>
    cases h
    exact ⟨⟨s, hs⟩, rfl⟩

theorem indicator_eq_ok {context : EmissionContext} {id : String} {field : Option String}
    {offset : Nat} (h : indicator context id field offset = .ok e) :
    ∃ name, context.binding.column id field = .ok name ∧
      e = columns context.scope [name] offset := by
  unfold indicator at h
  split at h
  · cases h
  · next name hname =>
    cases h
    exact ⟨name, hname, rfl⟩

theorem tradeContext_eq_ok {field : TradeField} (h : tradeContext scope field = .ok e) :
    ∃ name numeric, callbackArgument field = some (name, numeric) ∧
      e = { code := .variable name, prev := some (.variable name), numeric } := by
  unfold tradeContext at h
  split at h
  · cases h
  · cases h
  · next name numeric hname =>
    cases h
    exact ⟨name, numeric, hname, rfl⟩

theorem compare_eq_ok {operator : Comparison} {left right : Emitted}
    (h : compare scope operator left right = .ok e) :
    left.isList = false ∧
      ((relation? operator = none ∧ right.isList = true ∧
          e = membership scope operator left right) ∨
        ∃ r, relation? operator = some r ∧ right.isList = false ∧
          (isOrdering operator = true → left.numeric = true ∧ right.numeric = true) ∧
          e = boolean (.paren (.compare r left.code right.code)) [left, right]) := by
  unfold compare at h
  split at h
  · cases h
  · next hleft =>
    refine ⟨by simpa using hleft, ?_⟩
    split at h
    · next hr =>
      split at h
      · next hright => cases h; exact .inl ⟨hr, hright, rfl⟩
      · cases h
    · next r hr =>
      split at h
      · cases h
      · next hright =>
        split at h
        · cases h
        · next hl =>
          split at h
          · cases h
          · next hn =>
            cases h
            refine .inr ⟨r, hr, by simpa using hright, fun ho => ?_, rfl⟩
            simp only [ho, Bool.true_and, Bool.not_eq_true', Bool.not_eq_false] at hl hn
            exact ⟨hl, hn⟩

theorem crossing_eq_ok {above : Bool} {first second : Emitted}
    (h : crossing scope above first second = .ok e) :
    first.market = true ∧ second.market = true ∧ e = crossingCode scope above first second := by
  unfold crossing at h
  dsimp only at h
  split at h
  · cases h
  · next h1 =>
    split at h
    · cases h
    · next h2 =>
      cases h
      exact ⟨by simpa using h1, by simpa using h2, rfl⟩

/-- The code of a range. -/
def rangeCode (scope : Scope) (inclusive : Bool) (value low high : Code) : Code :=
  .paren (.join (match scope with
      | .series => Connective.seriesAnd
      | .leverage => .and)
    (.paren (.compare (rangeRelations inclusive).1 value low))
    (.paren (.compare (rangeRelations inclusive).2 value high)))

theorem inRange_eq_ok {inclusive : Bool} {value low high : Emitted}
    (h : inRange scope inclusive value low high = .ok e) :
    (∀ p ∈ [value, low, high], p.isList = false ∧ p.numeric = true) ∧
      e = boolean (rangeCode scope inclusive value.code low.code high.code) [value, low, high] := by
  unfold inRange at h
  split at h
  · cases h
  · next hfind =>
    cases h
    refine ⟨by simpa using hfind, rfl⟩

end Emission

/-! ## Tight code -/

namespace Code

variable {c : Code}

/-- Any operator may stand beside the code. -/
def Tight (c : Code) : Prop := c.Grouped ∧ 10 ≤ c.rank

/-- The code is fit for an attribute, a call or a subscript behind it. -/
def Closed (c : Code) : Prop := c.Grouped ∧ c.rank = 11

/-- The code holds together as an argument. -/
def Loose (c : Code) : Prop := c.Grouped ∧ 2 ≤ c.rank

theorem Closed.tight (h : c.Closed) : c.Tight := ⟨h.1, by rw [h.2]; decide⟩

theorem closed_paren (h : c.Grouped) (hrank : 1 ≤ c.rank) : (paren c).Closed :=
  ⟨⟨h, hrank⟩, rfl⟩

theorem Closed.loose (h : c.Closed) : c.Loose := ⟨h.1, by rw [h.2]; decide⟩

theorem Loose.paren (h : c.Loose) : (Code.paren c).Closed :=
  closed_paren h.1 (Nat.le_trans (by decide) h.2)

theorem level_arith_lt (op : Arith) : (Binary.arith op).level < 10 := by cases op <;> decide

theorem tail_arith (op : Arith) : (Binary.arith op).level < tail (Binary.arith op).level := by
  cases op <;> decide

theorem one_le_rank_arith (op : Arith) (l r : Code) : 1 ≤ (arith op l r).rank := by
  cases op <;> simp [rank, Binary.level]

theorem sides_of_tight {op : Binary} (hop : op.level < 10) {l r : Code} (hl : l.Tight)
    (hr : r.Tight) : Sides op l r :=
  ⟨by have := hl.2; omega, Nat.lt_of_lt_of_le (Nat.lt_of_lt_of_le hop hl.2) (rank_le_tail _),
    Nat.lt_of_lt_of_le hop hr.2⟩

/-- Terms joined by an operator from the left group as they stand. -/
theorem foldl_arith_grouped (op : Arith) {terms : List Code} (h : ∀ c ∈ terms, c.Tight) {e : Code}
    (he : e.Grouped) (hlow : (Binary.arith op).level ≤ e.rank)
    (htail : (Binary.arith op).level < tail e.rank) :
    (terms.foldl (arith op) e).Grouped ∧ 1 ≤ (terms.foldl (arith op) e).rank := by
  induction terms generalizing e with
  | nil =>
    have hpos : 1 ≤ (Binary.arith op).level := by cases op <;> decide
    exact ⟨he, Nat.le_trans hpos hlow⟩
  | cons c rest ih =>
    have hc := h c List.mem_cons_self
    exact ih (fun d hd => h d (List.mem_cons_of_mem c hd))
      ⟨he, hc.1, hlow, htail, Nat.lt_of_lt_of_le (level_arith_lt op) hc.2⟩
      (Nat.le_refl _) (tail_arith op)

theorem chain_arith_grouped (op : Arith) {terms : List Code} (h : ∀ c ∈ terms, c.Tight) :
    (chain (arith op) terms).Grouped ∧ 1 ≤ (chain (arith op) terms).rank := by
  cases terms with
  | nil => exact ⟨rfl, by simp [chain, rank]⟩
  | cons e rest =>
    have he := h e List.mem_cons_self
    have hop := level_arith_lt op
    exact foldl_arith_grouped op (fun c hc => h c (List.mem_cons_of_mem e hc)) he.1
      (Nat.le_trans (Nat.le_of_lt hop) he.2)
      (Nat.lt_of_lt_of_le hop (Nat.le_trans he.2 (rank_le_tail _)))

theorem tight_number (n : Nat) : (number n).Tight := ⟨rfl, by simp [number, rank]⟩

end Code

namespace Emission

open Code

variable {terms : List Code}

theorem joined_closed (op : Arith) (h : ∀ c ∈ terms, c.Tight) : (joined op terms).Closed :=
  closed_paren (chain_arith_grouped op h).1 (chain_arith_grouped op h).2

theorem mean_closed (h : ∀ c ∈ terms, c.Tight) : (mean terms).Closed := by
  have hsum := closed_paren (chain_arith_grouped .add h).1 (chain_arith_grouped .add h).2
  refine closed_paren ⟨hsum.1, (tight_number _).1, ?_⟩ (one_le_rank_arith ..)
  exact sides_of_tight (by decide) hsum.tight (tight_number _)

theorem percentChange_closed {a b : Code} (ha : a.Tight) (hb : b.Tight) :
    (percentChange a b).Closed := by
  have hsub : (Code.arith .sub a b).Grouped := ⟨ha.1, hb.1, sides_of_tight (by decide) ha hb⟩
  have hparen := closed_paren hsub (one_le_rank_arith ..)
  have hdiv : (Code.arith .div (.paren (.arith .sub a b)) b).Grouped :=
    ⟨hparen.1, hb.1, sides_of_tight (by decide) hparen.tight hb⟩
  have hmul : Sides (.arith .mul) (.arith .div (.paren (.arith .sub a b)) b) (.number 100) := by
    simp [Sides, rank, tail, Binary.level, number]
  exact closed_paren ⟨hdiv, (tight_number 100).1, hmul⟩ (one_le_rank_arith ..)

theorem foldl_pairwise_closed (f : Extremum) (h : ∀ c ∈ terms, c.Tight) {e : Code} (he : e.Tight) :
    (terms.foldl (Code.pairwise f) e).Tight ∧
      (terms ≠ [] → (terms.foldl (Code.pairwise f) e).rank = 11) := by
  induction terms generalizing e with
  | nil => exact ⟨he, fun hne => absurd rfl hne⟩
  | cons c rest ih =>
    have hc := h c List.mem_cons_self
    have hpair : (Code.pairwise f e c).Closed :=
      ⟨⟨he.1, hc.1, Nat.le_trans (by decide) he.2, Nat.le_trans (by decide) hc.2⟩, rfl⟩
    have hrest := ih (fun d hd => h d (List.mem_cons_of_mem c hd)) hpair.tight
    refine ⟨hrest.1, fun _ => ?_⟩
    cases rest with
    | nil => rfl
    | cons d rest => exact hrest.2 (by simp)

theorem foldl_also_grouped (h : ∀ c ∈ terms, c.Tight) {e : Code} (he : e.Grouped) :
    (terms.foldl Code.also e).Grouped := by
  induction terms generalizing e with
  | nil => exact he
  | cons c rest ih =>
    exact ih (fun d hd => h d (List.mem_cons_of_mem c hd)) ⟨he, (h c List.mem_cons_self).1⟩

theorem extremum_tight (scope : Scope) (f : Extremum) (h : ∀ c ∈ terms, c.Tight) :
    (extremum scope f terms).Tight ∧
      ((∀ c, terms = [c] → c.rank = 11) → (extremum scope f terms).rank = 11) := by
  cases scope with
  | series =>
    cases terms with
    | nil => exact ⟨⟨rfl, by simp [extremum, chain, rank]⟩, fun _ => rfl⟩
    | cons e rest =>
      obtain ⟨htight, hrank⟩ := foldl_pairwise_closed f
        (fun c hc => h c (List.mem_cons_of_mem e hc)) (h e List.mem_cons_self)
      refine ⟨htight, fun hone => ?_⟩
      cases rest with
      | nil => exact hone e rfl
      | cons d rest => exact hrank (by simp)
  | leverage =>
    have harguments : (chain Code.also terms).Grouped := by
      cases terms with
      | nil => rfl
      | cons e rest =>
        exact foldl_also_grouped (fun c hc => h c (List.mem_cons_of_mem e hc))
          (h e List.mem_cons_self).1
    exact ⟨⟨harguments, by simp [extremum, rank]⟩, fun _ => rfl⟩

/-- Arithmetic on tight terms is tight, and closed unless it is the only term itself. -/
theorem arithmetic_tight (scope : Scope) (operation : Operation) (h : ∀ c ∈ terms, c.Tight) :
    (arithmetic scope operation terms).Tight ∧
      ((∀ c, terms = [c] → c.rank = 11) → (arithmetic scope operation terms).rank = 11) := by
  have hterm : ∀ i, (terms.getD i (.literal (.scalar .null))).Tight := by
    intro i
    rw [List.getD]
    cases hi : terms[i]? with
    | none => exact ⟨rfl, by simp [rank]⟩
    | some c => exact h c (List.mem_of_getElem? hi)
  have hclosed : ∀ {d : Code}, d.Closed →
      d.Tight ∧ ((∀ c, terms = [c] → c.rank = 11) → d.rank = 11) :=
    fun hc => ⟨hc.tight, fun _ => hc.2⟩
  have hpointwise : ∀ f, (Code.pointwise f (terms.getD 0 (.literal (.scalar .null)))).Closed :=
    fun f => ⟨⟨(hterm 0).1, Nat.le_trans (by decide) (hterm 0).2⟩, rfl⟩
  cases operation with
  | add | sum => exact hclosed (joined_closed .add h)
  | sub => exact hclosed (joined_closed .sub h)
  | mul => exact hclosed (joined_closed .mul h)
  | div => exact hclosed (joined_closed .div h)
  | neg => exact hclosed (closed_paren (hterm 0) (by simp [rank]))
  | abs => exact hclosed (hpointwise .abs)
  | round => exact hclosed (hpointwise .round)
  | floor => exact hclosed (hpointwise .floor)
  | ceil => exact hclosed (hpointwise .ceil)
  | average => exact hclosed (mean_closed h)
  | percentChange => exact hclosed (percentChange_closed (hterm 0) (hterm 1))
  | min => exact extremum_tight scope .min h
  | max => exact extremum_tight scope .max h

/-! ## Operands -/

theorem columnAt_closed (scope : Scope) (name : String) (ago : Nat) :
    (columnAt scope name ago).Closed := by
  cases scope with
  | series =>
    by_cases h : ago = 0
    · rw [columnAt, if_pos h]; exact ⟨trivial, rfl⟩
    · rw [columnAt, if_neg h]; exact ⟨⟨trivial, rfl⟩, rfl⟩
  | leverage => exact ⟨trivial, rfl⟩

theorem columnsAt_closed (scope : Scope) (names : List String) (ago : Nat) :
    (columnsAt scope names ago).Closed := by
  unfold columnsAt
  split
  · exact columnAt_closed ..
  · refine mean_closed fun c hc => ?_
    obtain ⟨name, -, rfl⟩ := List.mem_map.mp hc
    exact (columnAt_closed scope name ago).tight

theorem timePart_closed {part : TimePart → Code} (h : ∀ p, (part p).Closed) (field : TimeField) :
    (timePart part field).Closed := by
  cases field with
  | isWeekend =>
    exact closed_paren ⟨(h _).1, (tight_number 5).1,
      sides_of_tight (by decide) (h _).tight (tight_number 5)⟩ (by simp [rank])
  | _ => exact h _

end Emission

theorem Scalar.isFinite_of_literal {s : Scalar} {text : String}
    (h : s.toValue.literal = .ok text) : s.isFinite = true := by
  cases s with
  | float x =>
    rw [Scalar.toValue, Value.literal] at h
    split at h
    · assumption
    · cases h
  | _ => rfl

theorem Constant.isFinite_of_literal {c : Constant} {text : String}
    (h : c.toValue.literal = .ok text) : c.isFinite = true := by
  cases c with
  | scalar s => exact Scalar.isFinite_of_literal h
  | list items =>
    rw [Constant.toValue, Value.literal] at h
    have hitems : ∀ texts, Value.literals (items.map Scalar.toValue) = .ok texts →
        items.all Scalar.isFinite = true := by
      clear h
      induction items with
      | nil => intro _ _; rfl
      | cons s rest ih =>
        intro texts hs
        rw [List.map_cons, Value.literals] at hs
        obtain ⟨first, hfirst, hs⟩ := exists_of_bind_ok hs
        obtain ⟨texts, hrest, -⟩ := exists_of_bind_ok hs
        rw [List.all_cons, Scalar.isFinite_of_literal hfirst, ih texts hrest]
        rfl
    obtain ⟨texts, htexts, -⟩ := exists_of_bind_ok h
    exact hitems texts htexts

/-- The code of an emitted node may stand where the rules put it. -/
def Node.Grouped : Node → Emitted → Prop
  | .operand _, e => e.code.Tight ∧ e.before.Tight ∧ (e.series = true → e.code.rank = 11)
  | .condition _, e => e.code.Loose

namespace Emission

open Code

variable {e : Emitted} {context : EmissionContext}

theorem operand_grouped_of_closed {o : Operand} (h : e.code.Closed) (hbefore : e.before.Closed) :
    (Node.operand o).Grouped e :=
  ⟨h.tight, hbefore.tight, fun _ => h.2⟩

theorem time_grouped (scope : Scope) (field : TimeField) (zone : Option String) :
    (Node.operand (.time field zone)).Grouped (time scope field zone) := by
  cases scope with
  | series =>
    have hbase : (zone.elim (Code.column "date") (.seriesZone (.column "date"))).Closed := by
      cases zone with
      | none => exact ⟨trivial, rfl⟩
      | some z => exact ⟨⟨trivial, rfl⟩, rfl⟩
    have hcode := @timePart_closed
      (.seriesPart (zone.elim (Code.column "date") (.seriesZone (.column "date"))))
      (fun p => ⟨hbase, rfl⟩) field
    exact operand_grouped_of_closed hcode ⟨hcode, rfl⟩
  | leverage =>
    have hnow : (Code.variable "current_time").Closed := ⟨⟨by decide, by decide⟩, rfl⟩
    have hbase : (zone.elim (Code.variable "current_time")
        (.momentZone (.variable "current_time"))).Closed := by
      cases zone with
      | none => exact hnow
      | some z => exact ⟨hnow, rfl⟩
    have hcode := @timePart_closed
      (.momentPart (zone.elim (Code.variable "current_time")
        (.momentZone (.variable "current_time"))))
      (fun p => ⟨hbase, rfl⟩) field
    exact operand_grouped_of_closed hcode hcode

theorem tradeContext_grouped {scope : Scope} {field : TradeField}
    (h : tradeContext scope field = .ok e) : (Node.operand (.tradeContext field)).Grouped e := by
  obtain ⟨name, numeric, hname, rfl⟩ := tradeContext_eq_ok h
  have hvar : (Code.variable name).Closed := by
    cases field <;> cases hname <;> exact ⟨⟨by decide, by decide⟩, rfl⟩
  exact operand_grouped_of_closed hvar hvar

theorem columns_grouped (scope : Scope) (names : List String) (offset : Nat) (o : Operand) :
    (Node.operand o).Grouped (columns scope names offset) :=
  operand_grouped_of_closed (columnsAt_closed scope names offset)
    (columnsAt_closed scope names (offset + 1))

theorem operand_grouped {o : Operand} {parts : List Emitted}
    (hparts : List.Forall₂ Node.Grouped (Node.operand o).children parts)
    (h : operand context o parts = .ok e) : (Node.operand o).Grouped e := by
  cases o with
  | constant value =>
    obtain ⟨⟨s, hs⟩, rfl⟩ := constant_eq_ok h
    have htight : (Code.literal value).Tight := by
      refine ⟨Constant.isFinite_of_literal hs, ?_⟩
      rcases value with (_ | _ | _ | _ | _) | _ <;> simp [rank]
    exact ⟨htight, htight, nofun⟩
  | indicator id field offset =>
    obtain ⟨name, -, rfl⟩ := indicator_eq_ok h
    exact columns_grouped ..
  | price field offset =>
    cases h
    exact columns_grouped ..
  | tradeContext field => exact tradeContext_grouped h
  | time field zone =>
    cases h
    exact time_grouped context.scope field zone
  | computed operation operands =>
    obtain ⟨-, rfl⟩ := computed_eq_ok h
    have hall : ∀ p ∈ parts, p.code.Tight ∧ p.before.Tight ∧ (p.series = true → p.code.rank = 11) :=
      forall_of_forall₂ (List.forall₂_map_left_iff (f := Node.operand).mp hparts) fun _ _ hp => hp
    have hcode := @arithmetic_tight (parts.map Emitted.code) context.scope operation
      (by simpa using fun p hp => (hall p hp).1)
    have hprev := @arithmetic_tight (parts.map Emitted.before) context.scope operation
      (by simpa using fun p hp => (hall p hp).2.1)
    refine ⟨hcode.1, hprev.1, fun hseries => hcode.2 fun c hc => ?_⟩
    obtain ⟨p, rfl, rfl⟩ : ∃ p, parts = [p] ∧ p.code = c := by
      simpa [List.map_eq_singleton_iff] using hc
    exact (hall p (by simp)).2.2 (by simpa using hseries)
  | external source => cases h
  | custom name => cases h

/-! ## Conditions -/

theorem tail_join (c : Connective) : c.binary.level < tail c.binary.level := by
  cases c <;> decide

theorem foldl_join_loose (c : Connective) {terms : List Code} (h : ∀ d ∈ terms, d.Closed) {e : Code}
    (he : e.Grouped) (hlow : c.binary.level ≤ e.rank) (htail : c.binary.level < tail e.rank) :
    Loose (terms.foldl (Code.join c) e) := by
  induction terms generalizing e with
  | nil =>
    have htwo : 2 ≤ c.binary.level := by cases c <;> decide
    exact ⟨he, Nat.le_trans htwo hlow⟩
  | cons d rest ih =>
    have hd := h d List.mem_cons_self
    have hlevel : c.binary.level < d.rank := by rw [hd.2]; cases c <;> decide
    exact ih (fun x hx => h x (List.mem_cons_of_mem d hx)) ⟨he, hd.1, hlow, htail, hlevel⟩
      (Nat.le_refl _) (tail_join c)

theorem combine_loose (scope : Scope) (empty : Bool) (series scalar : Connective)
    {children : List Emitted} (h : ∀ p ∈ children, Loose p.code) :
    Loose (combine scope empty series scalar children).code := by
  unfold combine
  split
  · cases scope with
    | series => exact Closed.loose ⟨⟨rfl, by simp [truth, rank]⟩, rfl⟩
    | leverage => exact ⟨rfl, by simp [constantTruth, truth, rank]⟩
  · exact h _ (by simp)
  · cases children with
    | nil => exact ⟨rfl, by simp [boolean, chain, rank]⟩
    | cons p rest =>
      have hp := (h p (by simp)).paren
      refine foldl_join_loose _ ?_ hp.1 ?_ ?_
      · simp only [List.mem_map]
        rintro d ⟨q, hq, rfl⟩
        exact (h q (by simp [hq])).paren
      · rw [hp.2]
        cases scope <;> cases series <;> cases scalar <;> decide
      · rw [hp.2]
        cases scope <;> cases series <;> cases scalar <;> decide

theorem negation_loose (scope : Scope) {child : Emitted} (h : Loose child.code) :
    Loose (negation scope child).code := by
  unfold negation
  split
  · exact ⟨⟨h.paren.1, by simp [rank]⟩, by simp [boolean, rank]⟩
  · exact Closed.loose (closed_paren ⟨h.paren.1, by simp [rank]⟩ (by simp [rank]))

theorem ifThenElse_loose (scope : Scope) {c d : Emitted} (hc : Loose c.code) (hd : Loose d.code)
    (he : Loose e.code) : Loose (ifThenElse scope c d e).code := by
  have hone : ∀ {x : Code}, Loose x → 1 ≤ x.rank := fun h => Nat.le_trans (by decide) h.2
  unfold ifThenElse
  dsimp only
  split
  · exact Closed.loose
      ⟨⟨⟨hc.1, hd.1, he.1, hone hc, hone hd, hone he⟩, by simp [rank]⟩, rfl⟩
  · exact Closed.loose (closed_paren
      ⟨hd.paren.1, hc.paren.1, he.paren.1, by simp [rank], by simp [rank], by simp [rank]⟩
      (by simp [rank]))

theorem compared_closed (r : Relation) {left right : Code} (hl : left.Tight) (hr : right.Tight) :
    (Code.paren (.compare r left right)).Closed :=
  closed_paren ⟨hl.1, hr.1, sides_of_tight (by simp [Binary.level]) hl hr⟩ (by simp [rank])

theorem membership_loose (scope : Scope) (operator : Comparison) {left right : Emitted}
    (hl : left.code.Tight) (hr : right.code.Tight)
    (hseries : left.series = true → left.code.rank = 11) :
    Loose (membership scope operator left right).code := by
  have hone : 1 ≤ right.code.rank := Nat.le_trans (by decide) hr.2
  unfold membership
  dsimp only
  split
  · next hs =>
    have hleft : left.code.rank = 11 := hseries (by simp at hs; exact hs.2)
    have htest : (Code.isIn left.code right.code).Closed := ⟨⟨hl.1, hr.1, hleft, hone⟩, rfl⟩
    split
    · exact ⟨htest.tight, by simp [boolean, rank]⟩
    · exact Closed.loose htest
  · exact Closed.loose (closed_paren
      ⟨hl.1, hr.1, sides_of_tight (by simp [Binary.level]) hl hr⟩ (by simp [rank]))

theorem joined_pair_loose (c : Connective) {left right : Code} (hl : left.Closed)
    (hr : right.Closed) : Loose (Code.paren (.join c left right)) := by
  have hsides : Sides c.binary left right := by
    rw [Sides, hl.2, hr.2]
    cases c <;> decide
  refine Closed.loose (closed_paren ⟨hl.1, hr.1, hsides⟩ ?_)
  cases c <;> simp [rank, Connective.binary, Binary.level]

theorem crossingCode_loose (scope : Scope) (above : Bool) {first second : Emitted}
    (h : first.code.Tight ∧ first.before.Tight) (h' : second.code.Tight ∧ second.before.Tight) :
    Loose (crossingCode scope above first second).code := by
  cases scope with
  | series =>
    exact Closed.loose ⟨⟨h.1.1, h'.1.1, Nat.le_trans (by decide) h.1.2,
      Nat.le_trans (by decide) h'.1.2⟩, rfl⟩
  | leverage =>
    exact joined_pair_loose .and (compared_closed _ h.2 h'.2) (compared_closed _ h.1 h'.1)

theorem condition_grouped {c : Condition} {parts : List Emitted}
    (hparts : List.Forall₂ Node.Grouped (Node.condition c).children parts)
    (h : condition context c parts = .ok e) : (Node.condition c).Grouped e := by
  cases c with
  | all mark children =>
    cases h
    exact combine_loose context.scope true .seriesAnd .and
      (forall_of_forall₂ (List.forall₂_map_left_iff (f := Node.condition).mp hparts)
        fun _ _ hp => hp)
  | any mark children =>
    cases h
    exact combine_loose context.scope false .seriesOr .or
      (forall_of_forall₂ (List.forall₂_map_left_iff (f := Node.condition).mp hparts)
        fun _ _ hp => hp)
  | not mark child =>
    cases h
    obtain ⟨p, rest, hp, hrest, rfl⟩ := List.forall₂_cons_left_iff.mp hparts
    exact negation_loose context.scope hp
  | ifThen mark c d =>
    cases h
    obtain ⟨p, q, hp, hq, rfl⟩ := forall₂_pair hparts
    exact ifThenElse_loose context.scope hp hq ⟨rfl, by simp [absentBranch, truth, rank]⟩
  | ifThenElse mark c d e =>
    cases h
    obtain ⟨p, q, r, hp, hq, hr, rfl⟩ := forall₂_triple hparts
    exact ifThenElse_loose context.scope hp hq hr
  | compare mark left operator right =>
    obtain ⟨p, q, hp, hq, rfl⟩ := forall₂_pair hparts
    obtain ⟨-, ⟨-, -, rfl⟩ | ⟨r, -, -, -, rfl⟩⟩ := compare_eq_ok h
    · exact membership_loose context.scope operator hp.1 hq.1 hp.2.2
    · exact Closed.loose (compared_closed r hp.1 hq.1)
  | crossover mark a b =>
    obtain ⟨p, q, hp, hq, rfl⟩ := forall₂_pair hparts
    obtain ⟨-, -, rfl⟩ := crossing_eq_ok h
    exact crossingCode_loose context.scope true ⟨hp.1, hp.2.1⟩ ⟨hq.1, hq.2.1⟩
  | crossunder mark a b =>
    obtain ⟨p, q, hp, hq, rfl⟩ := forall₂_pair hparts
    obtain ⟨-, -, rfl⟩ := crossing_eq_ok h
    exact crossingCode_loose context.scope false ⟨hp.1, hp.2.1⟩ ⟨hq.1, hq.2.1⟩
  | inRange mark value low high inclusive =>
    obtain ⟨p, q, r, hp, hq, hr, rfl⟩ := forall₂_triple hparts
    obtain ⟨-, rfl⟩ := inRange_eq_ok h
    exact joined_pair_loose _ (compared_closed _ hp.1 hq.1) (compared_closed _ hp.1 hr.1)

theorem build_grouped {n : Node} {depth : Nat} (h : build context depth n = .ok e) :
    n.Grouped e := by
  refine build_induction (P := Node.Grouped) (fun n parts e depth hparts hnode => ?_) h
  have hgrouped := hparts.imp fun _ _ hp => hp.2.2
  cases n with
  | operand o => exact operand_grouped hgrouped hnode
  | condition c => exact condition_grouped hgrouped hnode

theorem asMask_grouped {c : Condition} {depth : Nat}
    (h : build context depth (.condition c) = .ok e) :
    (asMask context.scope e).code.Grouped ∧ 1 ≤ (asMask context.scope e).code.rank := by
  obtain ⟨hg, hrank⟩ : Loose e.code := build_grouped h
  have hone : 1 ≤ e.code.rank := Nat.le_trans (by decide) hrank
  unfold asMask
  split
  · exact ⟨⟨hg, hone⟩, by simp [rank]⟩
  · exact ⟨hg, hone⟩

end Emission

end Stratagem
