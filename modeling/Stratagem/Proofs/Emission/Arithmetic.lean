import Mathlib.Tactic.Ring
import Stratagem.Proofs.Emission.Grouping
import Stratagem.Proofs.Script.Parsing
import Stratagem.Proofs.Script.Yield

/-! The arithmetic of emitted code. Terms that stand for numbers are combined into code that stands
for the result of the operation at each candle, from the candle on where all of them are there. -/

namespace Stratagem

open Script

/-- Code together with the numbers that it is meant to stand for, and whether truth values may not
stand for them. -/
structure Term where
  code : Code
  series : Bool
  first : Nat
  amount : Nat → ℚ
  exact : Bool

namespace Term

def Stands (t : Table) (x : Term) : Prop :=
  x.code.YieldsNumbers t x.series x.first x.amount x.exact

/-- The candle from which on all terms are there. -/
def firsts (terms : List Term) : Nat := (terms.map first).foldr max 0

theorem firsts_cons (x : Term) (rest : List Term) :
    firsts (x :: rest) = max x.first (firsts rest) :=
  rfl

theorem firsts_eq_zero {terms : List Term} (h : ∀ x ∈ terms, x.first = 0) : firsts terms = 0 := by
  induction terms with
  | nil => rfl
  | cons x rest ih =>
    rw [firsts_cons, h x List.mem_cons_self, ih fun y hy => h y (List.mem_cons_of_mem x hy)]
    rfl

end Term

open Term

namespace Code

variable {t : Table} {c : Code} {series : Bool} {first : Nat} {q : Nat → ℚ}

theorem Yields.toNumbers {exact : Bool} (h : c.Yields t series first fun i => .number (q i)) :
    c.YieldsNumbers t series first q exact :=
  h.numbers fun _ => counts_number ..

theorem YieldsNumbers.weaken (h : c.YieldsNumbers t series first q true) (exact : Bool) :
    c.YieldsNumbers t series first q exact := by
  obtain ⟨v, hv, f, hd, hf⟩ := h
  exact ⟨v, hv, f, hd, fun i => (hf i).2 rfl ▸ counts_number ..⟩

/-- A step of a chain: it takes numbers, and truth values in series only if `free`. -/
def Combines (t : Table) (free : Prop) (combine : Code → Code → Code) (g : ℚ → ℚ → ℚ) : Prop :=
  ∀ {l r : Code} {s s' : Bool} {n n' : Nat} {p p' : Nat → ℚ} {e e' : Bool},
    l.YieldsNumbers t s n p e → r.YieldsNumbers t s' n' p' e' →
    (free ∨ ((s || s') = true → (e || e') = true)) →
    (combine l r).YieldsNumbers t (s || s') (max n n') (fun i => g (p i) (p' i)) (e || e')

variable {combine : Code → Code → Code} {g : ℚ → ℚ → ℚ} {free : Prop}

theorem foldl_numbers (hstep : Combines t free combine g) {terms : List Term}
    (h : ∀ x ∈ terms, x.Stands t) {e : Code} {exact : Bool}
    (he : e.YieldsNumbers t series first q exact)
    (hc : free ∨ ((series || terms.any Term.series) = true → exact = true)) :
    ((terms.map Term.code).foldl combine e).YieldsNumbers t (series || terms.any Term.series)
      (max first (firsts terms)) (fun i => (terms.map (Term.amount · i)).foldl g (q i))
      (exact || terms.any Term.exact) := by
  induction terms generalizing e series first q exact with
  | nil => simpa [firsts] using he
  | cons x rest ih =>
    have hx := hstep he (h x List.mem_cons_self) (hc.imp_right fun hc hs => by
      rw [hc (by rcases Bool.or_eq_true_iff.mp hs with hs | hs <;> simp [hs]), Bool.true_or])
    have hrest := ih (fun y hy => h y (List.mem_cons_of_mem x hy)) hx (hc.imp_right fun hc hs => by
      rw [hc (by simpa [Bool.or_assoc] using hs), Bool.true_or])
    rw [Bool.or_assoc, Bool.or_assoc, max_assoc] at hrest
    simpa [firsts_cons] using hrest

/-- A chain stands for its terms combined from the left. In series the first two may not both be
truth values, which settles it for the others. -/
theorem chain_numbers (hstep : Combines t free combine g) {x y : Term} {rest : List Term}
    (h : ∀ z ∈ x :: y :: rest, z.Stands t)
    (hc : free ∨ ((x :: y :: rest).any Term.series = true → (x.exact || y.exact) = true)) :
    (chain combine ((x :: y :: rest).map Term.code)).YieldsNumbers t
      ((x :: y :: rest).any Term.series) (firsts (x :: y :: rest))
      (fun i => ((y :: rest).map (Term.amount · i)).foldl g (x.amount i))
      ((x :: y :: rest).any Term.exact) := by
  simp only [List.forall_mem_cons] at h
  obtain ⟨hx, hy, hrest⟩ := h
  have hpair := hstep hx hy (hc.imp_right fun hc hs => hc (by
    rw [List.any_cons, List.any_cons, ← Bool.or_assoc, hs, Bool.true_or]))
  have hall := foldl_numbers hstep hrest hpair (hc.imp_right fun hc hs => hc (by
    simpa [Bool.or_assoc] using hs))
  rw [Bool.or_assoc, Bool.or_assoc, max_assoc] at hall
  simpa [firsts_cons, chain] using hall

/-! ## Extrema of single numbers -/

theorem arguments_foldl_also {terms : List Code} (h : ∀ c ∈ terms, 1 ≤ c.rank) (e : Code) :
    (terms.foldl also e).arguments = e.arguments.append (.ofList (terms.map script)) := by
  induction terms generalizing e with
  | nil => exact (ArgList.append_nil _).symm
  | cons c rest ih =>
    have hpair : (also e c).arguments = e.arguments.append (.cons none c.script .nil) := by
      rw [← arguments_of_rank (h c List.mem_cons_self)]
      rfl
    rw [List.foldl_cons, ih (fun d hd => h d (List.mem_cons_of_mem c hd)), hpair,
      ArgList.append_assoc]
    rfl

theorem arguments_chain_also {rest : List Code} (h : ∀ d ∈ c :: rest, 1 ≤ d.rank) :
    (chain also (c :: rest)).arguments = .ofList ((c :: rest).map script) := by
  rw [chain, arguments_foldl_also fun d hd => h d (List.mem_cons_of_mem c hd),
    arguments_of_rank (h c List.mem_cons_self)]
  rfl

/-- Single numbers evaluate one by one. -/
theorem eval_terms {terms : List Term} (h : ∀ x ∈ terms, x.Stands t)
    (hs : ∀ x ∈ terms, x.series = false) :
    ∃ vs, List.Forall₂ (fun e v => eval t e = .ok v) (terms.map fun x => x.code.script) vs ∧
      ∀ i, vs.mapM Script.amount = .ok (terms.map (Term.amount · i)) := by
  induction terms with
  | nil => exact ⟨[], .nil, fun _ => rfl⟩
  | cons x rest ih =>
    obtain ⟨vs, hvs, hamounts⟩ := ih (fun y hy => h y (List.mem_cons_of_mem x hy))
      fun y hy => hs y (List.mem_cons_of_mem x hy)
    obtain ⟨v, hv, f, hd, hf⟩ := h x List.mem_cons_self
    rw [hs x List.mem_cons_self] at hd
    refine ⟨v :: vs, .cons hv hvs, fun i => ?_⟩
    have hone : Script.amount v = .ok (x.amount i) := by
      rw [hd.2 i, Script.amount, (hf i).1]
    rw [List.mapM_cons, hone, hamounts i]
    rfl

theorem extremum_numbers (f : Extremum) {x y : Term} {rest : List Term}
    (h : ∀ z ∈ x :: y :: rest, z.Stands t) (hs : ∀ z ∈ x :: y :: rest, z.series = false)
    (hrank : ∀ z ∈ x :: y :: rest, 1 ≤ z.code.rank) :
    (extremum f (chain also ((x :: y :: rest).map Term.code))).Yields t false 0 fun i =>
      .number (((y :: rest).map (Term.amount · i)).foldl f.apply (x.amount i)) := by
  obtain ⟨vs, hvs, hamounts⟩ := eval_terms h hs
  have harguments : (chain also ((x :: y :: rest).map Term.code)).arguments =
      .ofList ((x :: y :: rest).map fun z => z.code.script) := by
    rw [List.map_cons, arguments_chain_also]
    · simp [Function.comp_def]
    · simpa using hrank
  refine yields_of_single fun i => ?_
  have hcall : eval t (extremum f (chain also ((x :: y :: rest).map Term.code))).script =
      Script.extremum f vs := by
    show eval t (.call (.name f.name) (chain also ((x :: y :: rest).map Term.code)).arguments) = _
    rw [harguments, eval, evalAll_ofList hvs]
    simp only [bind, Except.bind]
    rw [positional_map]
    cases f <;> rfl
  rw [hcall, Script.extremum, hamounts i]
  rfl

end Code

/-! ## Operations -/

theorem foldl_add (qs : List ℚ) (q : ℚ) : qs.foldl Arith.add.apply q = (q :: qs).sum := by
  induction qs generalizing q with
  | nil => simp
  | cons p rest ih =>
    rw [List.foldl_cons, ih, List.sum_cons, List.sum_cons, List.sum_cons, Arith.apply]
    ring

theorem foldl_mul (qs : List ℚ) (q : ℚ) : qs.foldl Arith.mul.apply q = (q :: qs).prod := by
  induction qs generalizing q with
  | nil => simp
  | cons p rest ih =>
    rw [List.foldl_cons, ih, List.prod_cons, List.prod_cons, List.prod_cons, Arith.apply]
    ring

namespace Emission

variable {t : Table}

open Code

variable {x : Term} {rest : List Term}

/-- The terms of an operation that divides do not divide by zero. -/
def Divides (t : Table) (operation : Operation) (terms : List Term) : Prop :=
  ∀ x y, operation = .div ∨ operation = .percentChange → terms = [x, y] →
    ∀ i, (y.series = true → i < t.rows) → y.first ≤ i → y.amount i ≠ 0

theorem joined_numbers (op : Arith) (hop : op ≠ .div) (h : ∀ y ∈ x :: rest, y.Stands t)
    (hc : op = .mul ∨ ((x :: rest).any Term.series = true →
      startsExact ((x :: rest).map Term.exact) = true)) :
    (joined op ((x :: rest).map Term.code)).YieldsNumbers t ((x :: rest).any Term.series)
      (firsts (x :: rest)) (fun i => (rest.map (Term.amount · i)).foldl op.apply (x.amount i))
      ((x :: rest).any Term.exact) := by
  cases rest with
  | nil =>
    have hx : (joined op [x.code]).YieldsNumbers t x.series x.first x.amount x.exact :=
      h x (by simp)
    simpa [firsts] using hx
  | cons y rest =>
    exact chain_numbers (fun hl hr hc => yields_arith op hl hr hc fun ho => absurd ho hop) h hc

theorem number_numbers (n : Nat) (exact : Bool) :
    (Code.number n).YieldsNumbers t false 0 (fun _ => n) exact :=
  (yields_scalar (.int n)).numbers fun _ => counts_number ..

theorem mean_numbers (h : ∀ y ∈ x :: rest, y.Stands t)
    (hc : (x :: rest).any Term.series = true → startsExact ((x :: rest).map Term.exact) = true)
    (exact : Bool) :
    (mean ((x :: rest).map Term.code)).YieldsNumbers t ((x :: rest).any Term.series)
      (firsts (x :: rest))
      (fun i => Operation.average.apply ((x :: rest).map (Term.amount · i))) exact := by
  have hsum := joined_numbers .add nofun h (.inr hc)
  have hcount := number_numbers (t := t) ((x :: rest).map Term.code).length true
  have hdiv := yields_arith .div hsum hcount (.inr fun _ => by simp)
    fun _ i _ _ => by simp; positivity
  rw [Bool.or_true] at hdiv
  have hmean : (mean ((x :: rest).map Term.code)).YieldsNumbers t _ _ _ _ := hdiv.weaken exact
  simpa [Arith.apply, Operation.apply, foldl_add] using hmean

theorem percentChange_numbers {y : Term} (hx : x.Stands t) (hy : y.Stands t)
    (hc : (x.series || y.series) = true → (x.exact || y.exact) = true)
    (hz : ∀ i, (y.series = true → i < t.rows) → y.first ≤ i → y.amount i ≠ 0) :
    (percentChange x.code y.code).YieldsNumbers t (x.series || y.series) (max x.first y.first)
      (fun i => (x.amount i - y.amount i) / y.amount i * 100) (x.exact || y.exact) := by
  have hsub := yields_arith .sub hx hy (.inr hc) nofun
  have hdiv := yields_arith .div hsub hy
    (.inr fun hs => by rw [hc (by simpa [Bool.or_assoc] using hs), Bool.true_or])
    fun _ i hi => hz i fun hs => hi (by simp [hs])
  have hmul := yields_arith .mul hdiv (number_numbers 100 false) (.inl rfl) nofun
  have hchange : (percentChange x.code y.code).YieldsNumbers t _ _ _ _ := hmul
  simpa [Arith.apply, Bool.or_assoc] using hchange

theorem extremum_arithmetic (scope : Scope) (f : Extremum) {y : Term}
    (h : ∀ z ∈ x :: y :: rest, z.Stands t) (hrank : ∀ z ∈ x :: y :: rest, 1 ≤ z.code.rank)
    (hscope : scope = .leverage → ∀ z ∈ x :: y :: rest, z.series = false ∧ z.first = 0) :
    (extremum scope f ((x :: y :: rest).map Term.code)).YieldsNumbers t
      ((x :: y :: rest).any Term.series) (firsts (x :: y :: rest))
      (fun i => ((y :: rest).map (Term.amount · i)).foldl f.apply (x.amount i))
      ((x :: y :: rest).any Term.exact) := by
  cases scope with
  | series =>
    have hstep : Combines t True (pairwise f) f.apply := fun hl hr _ => yields_pairwise f hl hr
    exact chain_numbers hstep h (.inl trivial)
  | leverage =>
    have hsingle := fun z hz => (hscope rfl z hz).1
    have hfirsts : firsts (x :: y :: rest) = 0 := firsts_eq_zero fun z hz => (hscope rfl z hz).2
    have hany : (x :: y :: rest).any Term.series = false := by
      rw [List.any_eq_false]
      intro z hz
      simp [hsingle z hz]
    rw [hfirsts, hany]
    exact (extremum_numbers f h hsingle hrank).toNumbers

/-- An operation on terms stands for the operation on their numbers. -/
theorem arithmetic_numbers (scope : Scope) (operation : Operation) {terms : List Term}
    (h : ∀ x ∈ terms, x.Stands t) (harity : operation.arity.allows terms.length = true)
    (hrank : ∀ x ∈ terms, 1 ≤ x.code.rank)
    (hscope : scope = .leverage → ∀ x ∈ terms, x.series = false ∧ x.first = 0)
    (hc : terms.any Term.series = true → operation.counts (terms.map Term.exact) = true)
    (hdiv : Divides t operation terms) :
    (arithmetic scope operation (terms.map Term.code)).YieldsNumbers t (terms.any Term.series)
      (firsts terms) (fun i => operation.apply (terms.map (Term.amount · i)))
      (terms.any Term.exact) := by
  match terms, harity with
  | [], harity => cases operation <;> cases harity
  | [x], harity =>
    have hx := h x (by simp)
    have hsame : [x].any Term.series = x.series ∧ [x].any Term.exact = x.exact ∧
        firsts [x] = x.first := by simp [firsts]
    have hsum := fun hc => joined_numbers .add nofun h (.inr hc)
    have hmean := fun hc => mean_numbers h hc x.exact
    rw [hsame.1] at hc
    simp only [hsame, foldl_add] at hsum hmean ⊢
    cases operation with
    | sum => exact hsum hc
    | average => exact hmean hc
    | neg => exact yields_negative hx fun hs => by simpa [Operation.counts] using hc hs
    | abs => exact yields_pointwise .abs hx
    | round => exact yields_pointwise .round hx
    | floor => exact yields_pointwise .floor hx
    | ceil => exact yields_pointwise .ceil hx
    | _ => cases harity
  | x :: y :: rest, harity =>
    have hpair : [x, y].any Term.series = (x.series || y.series) ∧
        [x, y].any Term.exact = (x.exact || y.exact) ∧ firsts [x, y] = max x.first y.first := by
      simp [firsts]
    cases operation with
    | add | sum =>
      have hsum := joined_numbers .add nofun h (.inr hc)
      simp only [foldl_add] at hsum
      exact hsum
    | mul =>
      have hprod := joined_numbers .mul nofun h (.inl rfl)
      simp only [foldl_mul] at hprod
      exact hprod
    | average => exact mean_numbers h hc _
    | min => exact extremum_arithmetic scope .min h hrank hscope
    | max => exact extremum_arithmetic scope .max h hrank hscope
    | sub =>
      obtain rfl : rest = [] := by simpa [Operation.arity, Arity.allows] using harity
      exact joined_numbers .sub nofun h (.inr hc)
    | div =>
      obtain rfl : rest = [] := by simpa [Operation.arity, Arity.allows] using harity
      rw [hpair.1] at hc
      rw [hpair.1, hpair.2.1, hpair.2.2]
      exact yields_arith .div (h x (by simp)) (h y (by simp)) (.inr hc) fun _ i hi =>
        hdiv x y (.inl rfl) rfl i fun hs => hi (by simp [hs])
    | percentChange =>
      obtain rfl : rest = [] := by simpa [Operation.arity, Arity.allows] using harity
      rw [hpair.1] at hc
      rw [hpair.1, hpair.2.1, hpair.2.2]
      exact percentChange_numbers (h x (by simp)) (h y (by simp)) hc (hdiv x y (.inr rfl) rfl)
    | _ => simp [Operation.arity, Arity.allows] at harity

end Emission

end Stratagem
