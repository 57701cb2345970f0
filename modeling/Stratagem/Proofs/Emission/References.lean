import Stratagem.Proofs.Emission.Grouping
import Stratagem.Proofs.Expression.Admissible
import Stratagem.Proofs.Indicator.Columns

/-! What code refers to outside itself: columns, arguments of the callback, and the functions of two
libraries that have to be imported for it. The code of a tree refers to columns of market data and
to columns that its indicators mean, and it calls a library only for a node that asks for the
import. -/

namespace Stratagem

inductive Reference where
  | column (name : String)
  | argument (name : String)
  | crossing
  | zone
  deriving DecidableEq

namespace Code

variable {P : Reference → Prop}

def references : Code → List Reference
  | .literal _ => []
  | .variable name => [.argument name]
  | .column name | .candle name _ => [.column name]
  | .momentZone e _ => .zone :: e.references
  | .crossed _ left right => .crossing :: (left.references ++ right.references)
  | .shifted e _ | .seriesZone e _ | .seriesPart e _ | .momentPart e _ | .paren e | .negative e
  | .pointwise _ e | .extremum _ e | .invert e | .not e | .broadcast e => e.references
  | .arith _ left right | .pairwise _ left right | .also left right | .compare _ left right
  | .join _ left right | .isIn left right | .member _ left right =>
    left.references ++ right.references
  | .choose first second third | .ifElse first second third =>
    first.references ++ second.references ++ third.references

/-- All that the code refers to is among those. -/
def Refers (P : Reference → Prop) (c : Code) : Prop := ∀ r ∈ c.references, P r

theorem Refers.imp {Q : Reference → Prop} {c : Code} (h : c.Refers P) (hpq : ∀ r, P r → Q r) :
    c.Refers Q := fun r hr => hpq r (h r hr)

theorem Refers.pair {c l r : Code} (h : c.references = l.references ++ r.references)
    (hl : l.Refers P) (hr : r.Refers P) : c.Refers P := by
  rw [Refers, h, List.forall_mem_append]
  exact ⟨hl, hr⟩

theorem chain_refers {combine : Code → Code → Code}
    (hcombine : ∀ c d, (combine c d).references = c.references ++ d.references) {terms : List Code}
    (h : ∀ c ∈ terms, c.Refers P) : (chain combine terms).Refers P := by
  cases terms with
  | nil => nofun
  | cons first rest =>
    rw [chain]
    obtain ⟨hfirst, hrest⟩ := List.forall_mem_cons.mp h
    clear h
    induction rest generalizing first with
    | nil => exact hfirst
    | cons d rest ih =>
      obtain ⟨hd, hrest⟩ := List.forall_mem_cons.mp hrest
      exact ih (combine first d) (.pair (hcombine first d) hfirst hd) hrest

end Code

/-- The code of an emitted node, and that of one candle earlier, refers to nothing else. -/
def Emitted.Refers (P : Reference → Prop) (e : Emitted) : Prop :=
  e.code.Refers P ∧ e.before.Refers P

namespace Emission

open Code

variable {parts : List Emitted} {e : Emitted}

/-- The names of what the callback is called with. -/
def callbackNames : List String :=
  ["current_time", "pair", "side", "is_short", "current_rate", "proposed_leverage", "max_leverage",
    "entry_tag"]

/-- What the code of a node may refer to, whatever its parts are. -/
def Permitted (context : EmissionContext) (n : Node) : Reference → Prop
  | .column name => name ∈ marketColumns ∨ ∃ id field, context.binding.column id field = .ok name
  | .argument name => name ∈ callbackNames
  | .crossing => "qtpylib" ∈ nodeImports context.scope n
  | .zone => "zoneinfo" ∈ nodeImports context.scope n

variable {P : Reference → Prop} {context : EmissionContext}

theorem mean_refers {terms : List Code} (h : ∀ c ∈ terms, c.Refers P) : (mean terms).Refers P := by
  have hsame : (mean terms).references = (chain (.arith .add) terms).references := by
    simp [mean, Code.number, Code.references]
  rw [Code.Refers, hsame]
  exact chain_refers (fun _ _ => rfl) h

theorem columnAt_refers (scope : Scope) {column : String} (h : P (.column column)) (ago : Nat) :
    (columnAt scope column ago).Refers P := by
  have hsame : (columnAt scope column ago).references = [.column column] := by
    unfold columnAt
    split
    · split <;> rfl
    · rfl
  simpa [Code.Refers, hsame] using h

theorem columns_refers (scope : Scope) {names : List String}
    (h : ∀ name ∈ names, P (.column name)) (offset : Nat) :
    Emitted.Refers P (columns scope names offset) := by
  have hat : ∀ ago, (columnsAt scope names ago).Refers P := by
    intro ago
    unfold columnsAt
    split
    · exact columnAt_refers scope (h _ (by simp)) ago
    · refine mean_refers (List.forall_mem_map.mpr fun name hname => ?_)
      exact columnAt_refers scope (h name hname) ago
  exact ⟨hat offset, hat (offset + 1)⟩

theorem arithmetic_refers (scope : Scope) (operation : Operation) {terms : List Code}
    (h : ∀ c ∈ terms, c.Refers P) : (arithmetic scope operation terms).Refers P := by
  have hterm : ∀ i, (terms.getD i (.literal (.scalar .null))).Refers P := by
    intro i
    rw [List.getD]
    cases hi : terms[i]? with
    | none => nofun
    | some c => exact h c (List.mem_of_getElem? hi)
  have hjoined : ∀ op, (joined op terms).Refers P := fun op => chain_refers (fun _ _ => rfl) h
  have hextremum : ∀ f, (extremum scope f terms).Refers P := by
    intro f
    cases scope <;> exact chain_refers (fun _ _ => rfl) h
  cases operation with
  | add | sum => exact hjoined .add
  | sub => exact hjoined .sub
  | mul => exact hjoined .mul
  | div => exact hjoined .div
  | neg | abs | round | floor | ceil => exact hterm 0
  | average => exact mean_refers h
  | percentChange =>
    have h0 := hterm 0
    have h1 := hterm 1
    simp only [Code.Refers, arithmetic, percentChange, Code.number, Code.references,
      List.append_nil, List.forall_mem_append] at h0 h1 ⊢
    exact ⟨⟨h0, h1⟩, h1⟩
  | min => exact hextremum .min
  | max => exact hextremum .max

theorem timePart_refers {f : TimePart → Code} (h : ∀ p, (f p).Refers P) (field : TimeField) :
    (timePart f field).Refers P := by
  cases field with
  | isWeekend =>
    have hday := h .dayOfWeek
    simp only [Code.Refers, timePart, Code.number, Code.references, List.append_nil] at hday ⊢
    exact hday
  | _ => exact h _

theorem time_refers (context : EmissionContext) (field : TimeField) (zone : Option String) :
    Emitted.Refers (Permitted context (.operand (.time field zone)))
      (time context.scope field zone) := by
  cases hscope : context.scope with
  | series =>
    have hbase : (zone.elim (Code.column "date") (.seriesZone (.column "date"))).Refers
        (Permitted context (.operand (.time field zone))) := by
      have hdate : "date" ∈ marketColumns := by decide
      cases zone <;> simp [Code.Refers, Code.references, Permitted, hdate]
    have hcode := timePart_refers (f := .seriesPart _) (fun _ => hbase) field
    exact ⟨hcode, hcode⟩
  | leverage =>
    have hbase : (zone.elim (Code.variable "current_time")
        (.momentZone (.variable "current_time"))).Refers
          (Permitted context (.operand (.time field zone))) := by
      cases zone <;>
        simp [Code.Refers, Code.references, Permitted, callbackNames, nodeImports, hscope]
    have hcode := timePart_refers (f := .momentPart _) (fun _ => hbase) field
    exact ⟨hcode, hcode⟩

theorem operand_refers {o : Operand} (hown : ∀ r, Permitted context (.operand o) r → P r)
    (hparts : ∀ p ∈ parts, p.Refers P) (h : operand context o parts = .ok e) : e.Refers P := by
  cases o with
  | constant value =>
    obtain ⟨-, rfl⟩ := constant_eq_ok h
    exact ⟨nofun, nofun⟩
  | indicator id field offset =>
    obtain ⟨name, hname, rfl⟩ := indicator_eq_ok h
    have hcolumn : P (.column name) := hown _ (Or.inr ⟨id, field, hname⟩)
    exact columns_refers _ (List.forall_mem_singleton.mpr hcolumn) offset
  | price field offset =>
    cases h
    refine columns_refers _ (fun name hname => hown _ (Or.inl ?_)) offset
    revert name
    cases field <;> decide
  | tradeContext field =>
    obtain ⟨name, numeric, hargument, rfl⟩ := tradeContext_eq_ok h
    have hname : name ∈ callbackNames := by
      cases field <;> cases hargument <;> decide
    have hrefers : (Code.variable name).Refers P := List.forall_mem_singleton.mpr (hown _ hname)
    exact ⟨hrefers, hrefers⟩
  | time field zone =>
    cases h
    have htime := time_refers context field zone
    exact ⟨htime.1.imp hown, htime.2.imp hown⟩
  | computed operation operands =>
    obtain ⟨-, rfl⟩ := computed_eq_ok h
    exact ⟨arithmetic_refers _ operation (List.forall_mem_map.mpr fun p hp => (hparts p hp).1),
      arithmetic_refers _ operation (List.forall_mem_map.mpr fun p hp => (hparts p hp).2)⟩
  | external source => cases h
  | custom name => cases h

/-! ## Conditions -/

theorem boolean_refers {code : Code} (h : code.Refers P) :
    (boolean code parts).Refers P := ⟨h, h⟩

theorem combine_refers (scope : Scope) (empty : Bool) (c c' : Connective)
    (h : ∀ p ∈ parts, p.Refers P) : (combine scope empty c c' parts).Refers P := by
  unfold combine
  split
  · cases scope <;> exact ⟨nofun, nofun⟩
  · exact h _ (by simp)
  · refine boolean_refers (chain_refers (fun _ _ => rfl) (List.forall_mem_map.mpr fun p hp => ?_))
    exact (h p hp).1

theorem ifThenElse_refers (scope : Scope) {c t d : Emitted} (hc : c.code.Refers P)
    (ht : t.code.Refers P) (hd : d.code.Refers P) : (ifThenElse scope c t d).Refers P := by
  unfold ifThenElse
  dsimp only
  split
  · have hcode : (Code.broadcast (.choose c.code t.code d.code)).Refers P :=
      .pair (r := d.code) rfl (.pair (c := .also c.code t.code) rfl hc ht) hd
    exact ⟨hcode, hcode⟩
  · refine boolean_refers ?_
    exact .pair (r := d.code) rfl (.pair (c := .also t.code c.code) rfl ht hc) hd

theorem membership_refers (scope : Scope) (operator : Comparison) {left right : Emitted}
    (hl : left.code.Refers P) (hr : right.code.Refers P) :
    (membership scope operator left right).Refers P := by
  unfold membership
  dsimp only
  split
  · split <;> exact boolean_refers (.pair rfl hl hr)
  · exact boolean_refers (.pair rfl hl hr)

/-- In a series a crossing is a call, of single candles it is two comparisons. -/
theorem crossingCode_refers (scope : Scope) (above : Bool) {first second : Emitted}
    (hcrossing : scope = .series → P .crossing) (h : first.Refers P) (h' : second.Refers P) :
    (crossingCode scope above first second).Refers P := by
  have hnow : ∀ r, (Code.compare r first.code second.code).Refers P := fun r => .pair rfl h.1 h'.1
  cases scope with
  | series => exact boolean_refers (List.forall_mem_cons.mpr ⟨hcrossing rfl, hnow .eq⟩)
  | leverage =>
    have hbefore : (Code.compare (crossingRelations above).1 first.before second.before).Refers P :=
      .pair rfl h.2 h'.2
    have hcode := Refers.pair rfl hbefore (hnow (crossingRelations above).2)
      (c := .join .and (.compare (crossingRelations above).1 first.before second.before)
        (.compare (crossingRelations above).2 first.code second.code))
    exact ⟨hcode, hcode⟩

theorem condition_refers {c : Condition} (hown : ∀ r, Permitted context (.condition c) r → P r)
    (hparts : ∀ p ∈ parts, p.Refers P) (h : condition context c parts = .ok e) : e.Refers P := by
  have hpart : ∀ i, (parts.getD i absentBranch).Refers P := by
    intro i
    rw [List.getD]
    cases hi : parts[i]? with
    | none => exact ⟨nofun, nofun⟩
    | some p => exact hparts p (List.mem_of_getElem? hi)
  cases c with
  | all mark children =>
    cases h
    exact combine_refers _ true _ _ hparts
  | any mark children =>
    cases h
    exact combine_refers _ false _ _ hparts
  | not mark child =>
    cases h
    unfold negation
    split <;> exact boolean_refers (hpart 0).1
  | ifThen mark c d =>
    cases h
    exact ifThenElse_refers _ (hpart 0).1 (hpart 1).1 nofun
  | ifThenElse mark c d e =>
    cases h
    exact ifThenElse_refers _ (hpart 0).1 (hpart 1).1 (hpart 2).1
  | compare mark left operator right =>
    obtain ⟨-, ⟨-, -, rfl⟩ | ⟨r, -, -, -, rfl⟩⟩ := compare_eq_ok h
    · exact membership_refers _ operator (hpart 0).1 (hpart 1).1
    · exact boolean_refers (.pair rfl (hpart 0).1 (hpart 1).1)
  | crossover mark x y =>
    obtain ⟨-, -, rfl⟩ := crossing_eq_ok h
    refine crossingCode_refers _ true (fun hscope => hown .crossing ?_) (hpart 0) (hpart 1)
    simp [Permitted, nodeImports, hscope]
  | crossunder mark x y =>
    obtain ⟨-, -, rfl⟩ := crossing_eq_ok h
    refine crossingCode_refers _ false (fun hscope => hown .crossing ?_) (hpart 0) (hpart 1)
    simp [Permitted, nodeImports, hscope]
  | inRange mark x low high inclusive =>
    obtain ⟨-, rfl⟩ := inRange_eq_ok h
    exact boolean_refers (.pair (r := .compare (rangeRelations inclusive).2 _ _) rfl
      (.pair (c := .compare (rangeRelations inclusive).1 _ _) rfl (hpart 0).1 (hpart 1).1)
      (.pair rfl (hpart 0).1 (hpart 2).1))

/-- **Emitted code refers to what the nodes of its tree permit.** -/
theorem build_refers {n : Node} {depth : Nat} (h : build context depth n = .ok e)
    (hnodes : ∀ m ∈ n.preorder, ∀ r, Permitted context m r → P r) : e.Refers P := by
  refine build_induction (P := fun n e =>
    (∀ m ∈ n.preorder, ∀ r, Permitted context m r → P r) → e.Refers P)
    (fun n parts e depth hparts hnode hnodes => ?_) h hnodes
  obtain ⟨hown, hchildren⟩ := (Node.forall_mem_preorder n).mp hnodes
  have hrefers : ∀ p ∈ parts, p.Refers P :=
    forall_of_forall₂ hparts fun m _ hp => hp.2.2 (hchildren m hp.1)
  cases n with
  | operand o => exact operand_refers hown hrefers hnode
  | condition c => exact condition_refers hown hrefers hnode

end Emission

end Stratagem
