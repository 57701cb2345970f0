import Stratagem.Proofs.Emission.Operands

/-! The truth values of emitted conditions, one rule at a time. Each rule is described for both
scopes at once: in leverage scope no part is a series. -/

namespace Stratagem

open Script Code

/-- The code of a part stands for truth values, known from a candle on. -/
def Emitted.Tells (t : Table) (e : Emitted) (first : Nat) (holds : Nat → Bool) : Prop :=
  e.code.YieldsTruth t e.series first holds

/-- In leverage scope everything is single. -/
def Scope.Fits (scope : Scope) (parts : List Emitted) : Prop :=
  scope = .leverage → ∀ e ∈ parts, e.series = false

theorem Condition.allHold_eq (t : Table) (b : Binding) (cs : List Condition) (i : Nat) :
    Condition.allHold t b cs i =
      (cs.map (Condition.holds t b · i)).foldr (truthOf .seriesAnd) true := by
  induction cs with
  | nil => rfl
  | cons c rest ih => rw [Condition.allHold, ih]; rfl

theorem Condition.anyHolds_eq (t : Table) (b : Binding) (cs : List Condition) (i : Nat) :
    Condition.anyHolds t b cs i =
      (cs.map (Condition.holds t b · i)).foldr (truthOf .seriesOr) false := by
  induction cs with
  | nil => rfl
  | cons c rest ih => rw [Condition.anyHolds, ih]; rfl

namespace Emission

variable {t : Table} {scope : Scope}

theorem truth_tells (b : Bool) (first : Nat) :
    (Code.truth b).YieldsTruth t false first fun _ => b :=
  ⟨fun _ => b, yields_scalar (.bool b), fun _ _ => rfl⟩

/-! ## Connectives -/

theorem foldl_seriesAnd (qs : List Bool) (q : Bool) :
    qs.foldl (truthOf .seriesAnd) q = (q :: qs).foldr (truthOf .seriesAnd) true := by
  induction qs generalizing q with
  | nil => simp [truthOf]
  | cons p rest ih => simp [List.foldl_cons, ih, truthOf, Bool.and_assoc]

theorem foldl_seriesOr (qs : List Bool) (q : Bool) :
    qs.foldl (truthOf .seriesOr) q = (q :: qs).foldr (truthOf .seriesOr) false := by
  induction qs generalizing q with
  | nil => simp [truthOf]
  | cons p rest ih => simp [List.foldl_cons, ih, truthOf, Bool.or_assoc]

section

variable {α : Type} {reach : α → Nat} {holds : α → Nat → Bool}

theorem foldl_join_tells {c : Connective} {cs : List α} {parts : List Emitted}
    (h : List.Forall₂ (fun a p => p.Tells t (reach a) (holds a)) cs parts) {e : Code}
    {series : Bool} {first : Nat} {g : Nat → Bool} (he : e.YieldsTruth t series first g)
    (hc : c = .and ∨ c = .or → series = false ∧ ∀ p ∈ parts, p.series = false) :
    ((parts.map fun p => .paren p.code).foldl (Code.join c) e).YieldsTruth t
      (series || parts.any Emitted.series) (max first ((cs.map reach).foldr max 0)) fun i =>
        (cs.map (holds · i)).foldl (truthOf c) (g i) := by
  induction h generalizing e series first g with
  | nil => simpa using he
  | @cons a p cs parts hp _ ih =>
    have hpair := yields_join (r := .paren p.code) c he hp fun hand =>
      ⟨(hc hand).1, (hc hand).2 p List.mem_cons_self⟩
    have hrest := ih hpair fun hand => ⟨by simp [(hc hand).1, (hc hand).2 p List.mem_cons_self],
      fun q hq => (hc hand).2 q (List.mem_cons_of_mem p hq)⟩
    rw [Bool.or_assoc, max_assoc] at hrest
    simpa using hrest

/-- All or any of the children, as a connective of truth values with the value of no children. -/
theorem combine_tells (empty : Bool) (c c' : Connective) {cs : List α} {children : List Emitted}
    (h : List.Forall₂ (fun a p => p.Tells t (reach a) (holds a)) cs children)
    (hfit : scope.Fits children) (hc : c ≠ .and ∧ c ≠ .or) (hsame : truthOf c' = truthOf c)
    (hunit : ∀ qs q, List.foldl (truthOf c) q qs = (q :: qs).foldr (truthOf c) empty) :
    (combine scope empty c c' children).Tells t ((cs.map reach).foldr max 0) fun i =>
      (cs.map (holds · i)).foldr (truthOf c) empty := by
  unfold combine
  split
  · cases h
    cases scope with
    | series => exact yields_broadcast (truth_tells empty 0)
    | leverage => exact truth_tells empty 0
  · next child =>
    obtain ⟨a, rest, ha, hrest, rfl⟩ := List.forall₂_cons_right_iff.mp h
    cases hrest
    simpa [← hunit] using ha
  · next hmany hone =>
    cases h with
    | nil => exact absurd rfl hmany
    | @cons a p cs children hp hrest =>
      have hfold : ∀ d : Connective, truthOf d = truthOf c →
          (d = .and ∨ d = .or → ∀ q ∈ p :: children, q.series = false) →
          (Code.chain (.join d) ((p :: children).map fun q => .paren q.code)).YieldsTruth t
            ((p :: children).any Emitted.series) (((a :: cs).map reach).foldr max 0) fun i =>
              ((a :: cs).map (holds · i)).foldr (truthOf c) empty := by
        intro d hd hsingle
        have hfirst : (Code.paren p.code).YieldsTruth t p.series (reach a) (holds a) := hp
        have hall := foldl_join_tells (c := d) hrest hfirst fun hand =>
          ⟨hsingle hand p List.mem_cons_self,
            fun q hq => hsingle hand q (List.mem_cons_of_mem p hq)⟩
        simp only [hd, hunit] at hall
        exact hall
      cases scope with
      | series => exact hfold c rfl fun hand => absurd hand (by simp [hc])
      | leverage => exact hfold c' hsame fun _ => hfit rfl

end

theorem negation_tells {child : Emitted} {first : Nat} {h : Nat → Bool} (hc : child.Tells t first h)
    (hfit : scope.Fits [child]) : (negation scope child).Tells t first fun i => !h i := by
  unfold negation
  split
  · next hs =>
    have hseries : child.series = true := by simp only [Bool.and_eq_true] at hs; exact hs.2
    have hparen : (Code.paren child.code).YieldsTruth t true first h := hseries ▸ hc
    simpa [Emitted.Tells, boolean, hseries] using yields_invert hparen
  · next hs =>
    have hsingle : child.series = false := by
      cases scope with
      | series => simpa using hs
      | leverage => exact hfit rfl child (by simp)
    have hparen : (Code.paren child.code).YieldsTruth t false first h := hsingle ▸ hc
    have hnot : (Code.paren (.not (.paren child.code))).YieldsTruth t false first _ :=
      yields_not hparen
    simpa [Emitted.Tells, boolean, hsingle] using hnot

theorem ifThenElse_tells {c d e : Emitted} {n₁ n₂ n₃ : Nat} {h₁ h₂ h₃ : Nat → Bool}
    (hc : c.Tells t n₁ h₁) (hd : d.Tells t n₂ h₂) (he : e.Tells t n₃ h₃)
    (hfit : scope.Fits [c, d, e]) :
    (ifThenElse scope c d e).Tells t (max n₁ (max n₂ n₃)) fun i =>
      if h₁ i then h₂ i else h₃ i := by
  unfold ifThenElse
  dsimp only
  split
  · next hs =>
    have hany := ((Bool.and_eq_true ..).mp hs).2
    exact yields_choose hc hd he (by simpa [Bool.or_assoc] using hany)
  · next hs =>
    have hsingle : c.series = false ∧ d.series = false ∧ e.series = false := by
      cases scope with
      | series => simpa using hs
      | leverage =>
        have := hfit rfl
        simpa using this
    obtain ⟨h1, h2, h3⟩ := hsingle
    have hchoice : (Code.paren (.ifElse (.paren d.code) (.paren c.code)
        (.paren e.code))).YieldsTruth t false (max n₁ (max n₂ n₃))
        fun i => if h₁ i then h₂ i else h₃ i :=
      yields_ifElse (c := .paren c.code) (d := .paren d.code) (e := .paren e.code)
        (h1 ▸ hc) (h2 ▸ hd) (h3 ▸ he)
    simpa [Emitted.Tells, boolean, h1, h2, h3] using hchoice

/-! ## Comparisons -/

theorem isOrder_eq {operator : Comparison} {r : Relation} (h : relation? operator = some r) :
    r.isOrder = isOrdering operator := by
  cases operator <;> cases h <;> rfl

theorem holds_eq {operator : Comparison} {r : Relation} (h : relation? operator = some r)
    (x y : Datum) (items : List Datum) : operator.holds x y items = r.holds x y := by
  cases operator <;> cases h <;> rfl

theorem holds_congr (r : Relation) {x x' y y' : Datum} (hx : x.plain = x'.plain)
    (hy : y.plain = y'.plain) : r.holds x y = r.holds x' y' := by
  have hxa : x.amount = x'.amount := by rw [Datum.amount, Datum.amount, Datum.number?_congr hx]
  have hya : y.amount = y'.amount := by rw [Datum.amount, Datum.amount, Datum.number?_congr hy]
  cases r <;> simp only [Relation.holds, Datum.same, hx, hy, hxa, hya]

theorem same_congr {x x' : Datum} (hx : x.plain = x'.plain) : x.same = x'.same := by
  funext y
  rw [Datum.same, Datum.same, hx]

section

variable {b : Binding} {candle : Nat → Nat} {e p q : Emitted} {n n' : Nat} {x y : Operand}

/-- An emitted operand stands for its value at the candle that each index means. -/
structure Part (t : Table) (b : Binding) (candle : Nat → Nat) (first : Nat) (o : Operand)
    (e : Emitted) : Prop where
  isList : e.isList = o.isList
  numeric : e.numeric = o.isNumeric
  readable : o.isReadable = true
  single : e.isList = true → e.series = false
  stands : o.Stands t b candle e.code e.series first

theorem Part.number? {first : Nat} {o : Operand} (h : Part t b candle first o e)
    (hn : e.numeric = true) (i : Nat) : (o.datum t b i).number? = some (o.amount t b i) :=
  Operand.number?_datum (h.numeric ▸ hn) h.readable t b i

/-- The code of a relation of two parts, in parentheses or not. -/
theorem relation_tells (r : Relation) (hp : Part t b candle n x p) (hq : Part t b candle n' y q)
    (hx : p.isList = false) (hy : q.isList = false)
    (hn : r.isOrder = true → p.numeric = true ∧ q.numeric = true) :
    (Code.paren (.compare r p.code q.code)).YieldsTruth t (p.series || q.series) (max n n') fun i =>
      r.holds (x.datum t b (candle i)) (y.datum t b (candle i)) := by
  obtain ⟨f, hf, hplain⟩ := hp.stands.value (hp.isList ▸ hx)
  obtain ⟨f', hf', hplain'⟩ := hq.stands.value (hq.isList ▸ hy)
  have hcompare := yields_compare r hf hf' fun ho i => by
    rw [Datum.number?_congr (hplain i), Datum.number?_congr (hplain' i),
      hp.number? (hn ho).1, hq.number? (hn ho).2]
    exact ⟨rfl, rfl⟩
  simp only [holds_congr r (hplain _) (hplain' _)] at hcompare
  exact hcompare

theorem membership_tells (operator : Comparison) (hm : relation? operator = none)
    (hp : Part t b candle n x p) (hq : Part t b candle n' y q) (hx : p.isList = false)
    (hy : q.isList = true) (hfit : scope.Fits [p, q]) :
    (membership scope operator p q).Tells t (max n n') fun i =>
      operator.holds (x.datum t b (candle i)) (y.datum t b (candle i)) y.items := by
  obtain ⟨f, hf, hplain⟩ := hp.stands.value (hp.isList ▸ hx)
  have hitems := hq.stands.list (hq.isList ▸ hy)
  have hholds : ∀ i, operator.holds (x.datum t b (candle i)) (y.datum t b (candle i)) y.items =
      (y.items.any (f i).same != decide (operator = .notIn)) := by
    intro i
    rw [same_congr (hplain i)]
    cases operator <;> cases hm <;> simp [Comparison.holds]
  have hmax : ∀ {c : Code} {series : Bool} {h : Nat → Bool}, c.YieldsTruth t series n h →
      c.YieldsTruth t series (max n n') h :=
    fun ⟨told, hy, ht⟩ => ⟨told, hy, fun i hi => ht i (by omega)⟩
  unfold membership
  dsimp only [Emitted.Tells, boolean]
  simp only [List.any_cons, hq.single hy, List.any_nil, Bool.or_false, hholds]
  split
  · next hs =>
    have hseries : p.series = true := by simp only [Bool.and_eq_true] at hs; exact hs.2
    rw [hseries] at hf ⊢
    have htest := yields_isIn hf hitems
    split
    · next hneg => simpa [hneg] using hmax (yields_invert htest)
    · next hneg => simpa [hneg] using hmax htest
  · next hs =>
    have hsingle : p.series = false := by
      cases scope with
      | series => simpa using hs
      | leverage => exact hfit rfl p (by simp)
    rw [hsingle] at hf ⊢
    exact hmax (yields_member (decide (operator = .notIn)) hf hitems)

theorem compare_tells {operator : Comparison} (hp : Part t b candle n x p)
    (hq : Part t b candle n' y q) (hfit : scope.Fits [p, q])
    (h : compare scope operator p q = .ok e) :
    e.Tells t (max n n') fun i =>
      operator.holds (x.datum t b (candle i)) (y.datum t b (candle i)) y.items := by
  obtain ⟨hx, ⟨hm, hy, rfl⟩ | ⟨r, hr, hy, hn, rfl⟩⟩ := compare_eq_ok h
  · exact membership_tells operator hm hp hq hx hy hfit
  · have hcompare := relation_tells r hp hq hx hy (by rwa [isOrder_eq hr])
    simpa [Emitted.Tells, boolean, holds_eq hr] using hcompare

/-! ## Ranges -/

theorem inRange_tells {inclusive : Bool} {n₁ n₂ n₃ : Nat} {low high : Operand} {r : Emitted}
    (hp : Part t b candle n₁ x p) (hq : Part t b candle n₂ low q) (hr : Part t b candle n₃ high r)
    (hfit : scope.Fits [p, q, r]) (h : inRange scope inclusive p q r = .ok e) :
    e.Tells t (max n₁ (max n₂ n₃)) fun i =>
      (rangeRelations inclusive).1.holds (x.datum t b (candle i)) (low.datum t b (candle i)) &&
        (rangeRelations inclusive).2.holds (x.datum t b (candle i))
          (high.datum t b (candle i)) := by
  obtain ⟨hnumeric, rfl⟩ := inRange_eq_ok h
  obtain ⟨⟨hpl, hpn⟩, ⟨hql, hqn⟩, hrl, hrn⟩ : (p.isList = false ∧ p.numeric = true) ∧
      (q.isList = false ∧ q.numeric = true) ∧ r.isList = false ∧ r.numeric = true := by
    simpa using hnumeric
  have hlower := relation_tells (rangeRelations inclusive).1 hp hq hpl hql fun _ => ⟨hpn, hqn⟩
  have hupper := relation_tells (rangeRelations inclusive).2 hp hr hpl hrl fun _ => ⟨hpn, hrn⟩
  have hjoin : (rangeCode scope inclusive p.code q.code r.code).YieldsTruth t
      ((p.series || q.series) || (p.series || r.series)) (max (max n₁ n₂) (max n₁ n₃)) fun i =>
        (rangeRelations inclusive).1.holds (x.datum t b (candle i)) (low.datum t b (candle i)) &&
          (rangeRelations inclusive).2.holds (x.datum t b (candle i))
            (high.datum t b (candle i)) := by
    cases scope with
    | series => exact yields_join .seriesAnd hlower hupper nofun
    | leverage =>
      have hsingle : p.series = false ∧ q.series = false ∧ r.series = false := by
        simpa using hfit rfl
      exact yields_join .and hlower hupper fun _ => by simp [hsingle]
  have hseries : ((p.series || q.series) || (p.series || r.series)) =
      (p.series || (q.series || r.series)) := by
    cases p.series <;> simp
  have hfirst : max (max n₁ n₂) (max n₁ n₃) = max n₁ (max n₂ n₃) := by omega
  rw [hseries, hfirst] at hjoin
  simpa [Emitted.Tells, boolean] using hjoin

end

end Emission

/-! ## All rules -/

/-- How many earlier candles matter: those of single values are not counted. -/
def Scope.need : Scope → Nat → Nat
  | .series, n => n
  | .leverage, _ => 0

theorem Scope.need_max (scope : Scope) (m n : Nat) :
    max (scope.need m) (scope.need n) = scope.need (max m n) := by
  cases scope <;> simp [Scope.need]

def Condition.isCrossing : Condition → Bool
  | .crossover .. | .crossunder .. => true
  | _ => false

/-- A crossing from below or from above. -/
def Condition.crossing (above : Bool) (mark : Mark) (x y : Operand) : Condition :=
  if above then .crossover mark x y else .crossunder mark x y

theorem Condition.exists_crossing {c : Condition} (h : c.isCrossing = true) :
    ∃ above mark x y, c = Condition.crossing above mark x y := by
  cases c with
  | crossover mark x y => exact ⟨true, mark, x, y, rfl⟩
  | crossunder mark x y => exact ⟨false, mark, x, y, rfl⟩
  | _ => cases h

theorem Condition.children_crossing (above : Bool) (mark : Mark) (x y : Operand) :
    (Node.condition (Condition.crossing above mark x y)).children = [.operand x, .operand y] := by
  cases above <;> rfl

theorem Condition.reach_crossing (above : Bool) (mark : Mark) (x y : Operand) :
    (Condition.crossing above mark x y).reach = max x.reach y.reach + 1 := by
  cases above <;> rfl

/-- A crossing compares its operands now and one candle before. -/
theorem Condition.holds_crossing (t : Table) (b : Binding) (above : Bool) (mark : Mark)
    (x y : Operand) (i : Nat) :
    (Condition.crossing above mark x y).holds t b i =
      ((if above then Relation.gt else .lt).holds (x.datum t b i) (y.datum t b i) &&
        (if above then Relation.lte else .gte).holds (x.datum t b (i - 1))
          (y.datum t b (i - 1))) := by
  rw [Bool.and_comm]
  cases above with
  | true =>
    show (Condition.crossover mark x y).holds t b i = _
    rw [Condition.holds]
    exact Bool.decide_and _ _
  | false =>
    show (Condition.crossunder mark x y).holds t b i = _
    rw [Condition.holds]
    exact Bool.decide_and _ _

namespace Emission

variable {t : Table} {b : Binding} {candle : Nat → Nat}

theorem condition_crossing {context : EmissionContext} {above : Bool} {mark : Mark} {x y : Operand}
    {p q e : Emitted}
    (h : condition context (Condition.crossing above mark x y) [p, q] = .ok e) :
    crossing context.scope above p q = .ok e := by
  cases above <;> exact h

/-- What the emitted parts of a condition stand for. -/
def Telling (t : Table) (b : Binding) (scope : Scope) (candle : Nat → Nat) : Node → Emitted → Prop
  | .operand o, e => Part t b candle (scope.need o.reach) o e
  | .condition c, e => e.Tells t (scope.need c.reach) fun i => c.holds t b (candle i)

theorem foldr_need (scope : Scope) (cs : List Condition) :
    (cs.map fun c => scope.need c.reach).foldr max 0 = scope.need (Condition.reaches cs) := by
  induction cs with
  | nil => cases scope <;> rfl
  | cons c rest ih => rw [List.map_cons, List.foldr_cons, ih, Scope.need_max, Condition.reaches]

theorem holds_inRange (mark : Mark) (x low high : Operand) (inclusive : Bool) (i : Nat) :
    (Condition.inRange mark x low high inclusive).holds t b i =
      ((rangeRelations inclusive).1.holds (x.datum t b i) (low.datum t b i) &&
        (rangeRelations inclusive).2.holds (x.datum t b i) (high.datum t b i)) := by
  cases inclusive with
  | true => rw [Condition.holds]; exact Bool.decide_and _ _
  | false => rw [Condition.holds]; exact Bool.decide_and _ _

/-- Every rule but that of crossings keeps to the meaning of the condition. -/
theorem condition_tells (context : EmissionContext) {c : Condition} {parts : List Emitted}
    {e : Emitted} (hfit : context.scope.Fits parts)
    (hparts : List.Forall₂ (Telling t b context.scope candle) (Node.condition c).children parts)
    (hcross : c.isCrossing = true → Telling t b context.scope candle (.condition c) e)
    (h : condition context c parts = .ok e) :
    Telling t b context.scope candle (.condition c) e := by
  cases c with
  | all mark children =>
    cases h
    have hall := combine_tells true .seriesAnd .and
      (List.forall₂_map_left_iff (f := Node.condition).mp hparts) hfit (by decide) rfl
      foldl_seriesAnd
    rw [foldr_need] at hall
    simpa only [Telling, Condition.reach, Condition.holds, Condition.allHold_eq] using hall
  | any mark children =>
    cases h
    have hany := combine_tells false .seriesOr .or
      (List.forall₂_map_left_iff (f := Node.condition).mp hparts) hfit (by decide) rfl
      foldl_seriesOr
    rw [foldr_need] at hany
    simpa only [Telling, Condition.reach, Condition.holds, Condition.anyHolds_eq] using hany
  | not mark child =>
    cases h
    obtain ⟨p, rest, hp, hrest, rfl⟩ := List.forall₂_cons_left_iff.mp hparts
    cases hrest
    exact negation_tells hp hfit
  | ifThen mark c d =>
    cases h
    obtain ⟨p, q, hp, hq, rfl⟩ := forall₂_pair hparts
    have habsent : absentBranch.Tells t 0 fun _ => false := truth_tells false 0
    have htells := ifThenElse_tells hp hq habsent fun hl => by simpa [absentBranch] using hfit hl
    rw [Nat.max_zero, Scope.need_max] at htells
    exact htells
  | ifThenElse mark c d e =>
    cases h
    obtain ⟨p, q, r, hp, hq, hr, rfl⟩ := forall₂_triple hparts
    have htells := ifThenElse_tells hp hq hr hfit
    rw [Scope.need_max, Scope.need_max] at htells
    exact htells
  | compare mark left operator right =>
    obtain ⟨p, q, hp, hq, rfl⟩ := forall₂_pair hparts
    have htells := compare_tells hp hq hfit h
    rw [Scope.need_max] at htells
    exact htells
  | crossover mark x y => exact hcross rfl
  | crossunder mark x y => exact hcross rfl
  | inRange mark x low high inclusive =>
    obtain ⟨p, q, r, hp, hq, hr, rfl⟩ := forall₂_triple hparts
    have htells := inRange_tells hp hq hr hfit h
    rw [Scope.need_max, Scope.need_max] at htells
    simpa only [Telling, Condition.reach, holds_inRange] using htells

end Emission

end Stratagem
