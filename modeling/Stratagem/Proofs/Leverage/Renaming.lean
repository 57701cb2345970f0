import Stratagem.Proofs.Leverage.Compiled

/-! Other names for a rule. The name of a rule is only used in its comment: with another name the
rule keeps its place, compiles to the same code, and the method that is written differs in one
comment line. -/

namespace Stratagem

/-- The rule under other names. -/
def LeverageRule.renamed (r : LeverageRule) (id label : Option String) : LeverageRule :=
  { r with id, label }

namespace Leverage

variable {before after : List LeverageRule} {r : LeverageRule} {context : EmissionContext}
  {compiled : List CompiledRule} {l : LeverageSettings}

/-! ## The place of a rule -/

/-- The enabled rules of a document, with a mark where another rule could stand. -/
def marked (before : List LeverageRule) (r : LeverageRule) (after : List LeverageRule) :
    List (Bool × LeverageRule) :=
  (before.filter LeverageRule.enabled).map (Prod.mk false) ++
    (true, r) :: (after.filter LeverageRule.enabled).map (Prod.mk false)

/-- Put a rule where the mark is. -/
def filled (s : LeverageRule) (e : Bool × LeverageRule) : LeverageRule := if e.1 then s else e.2

theorem map_filled_marked {s : LeverageRule} (hs : s.enabled = true) :
    (marked before r after).map (filled s) =
      (before ++ s :: after).filter LeverageRule.enabled := by
  simp [marked, filled, hs, Function.comp_def]

theorem priority_filled {s : LeverageRule} (h : s.priority = r.priority) :
    ∀ e ∈ marked before r after, (filled s e).priority = e.2.priority := by
  simp only [marked, List.forall_mem_append, List.forall_mem_cons, List.forall_mem_map]
  exact ⟨fun _ _ => rfl, h, fun _ _ => rfl⟩

theorem map_filled_unmarked {part : List (Bool × LeverageRule)} (h : ∀ e ∈ part, ¬ e.1 = true)
    (s : LeverageRule) : part.map (filled s) = part.map Prod.snd := by
  refine List.map_congr_left fun e he => ?_
  rw [filled, if_neg (h e he)]

/-- A rule keeps its place when another of the same priority takes it: sorting looks at priorities
alone, so it takes the mark to the same place whatever rule is put there. -/
theorem ordered_place (before : List LeverageRule) (r : LeverageRule)
    (after : List LeverageRule) :
    ∃ first rest, ∀ s : LeverageRule, s.enabled = true → s.priority = r.priority →
      ordered (before ++ s :: after) = first ++ s :: rest := by
  generalize hsorted : ((marked before r after).mergeSort fun a b =>
    decide (b.2.priority ≤ a.2.priority)) = sorted
  have hmark : sorted.filter Prod.fst = [(true, r)] := by
    have hperm : (sorted.filter Prod.fst).Perm ((marked before r after).filter Prod.fst) := by
      rw [← hsorted]
      exact (List.mergeSort_perm _ _).filter _
    have hone : (marked before r after).filter Prod.fst = [(true, r)] := by
      simp [marked, List.filter_map, Function.comp_def]
    rw [hone] at hperm
    exact List.perm_singleton.mp hperm
  obtain ⟨first, rest, hsplit, hfirst, -, hrest⟩ := List.filter_eq_cons_iff.mp hmark
  refine ⟨first.map Prod.snd, rest.map Prod.snd, fun s hs hpriority => ?_⟩
  have hrest : ∀ e ∈ rest, ¬ e.1 = true := by simpa using hrest
  have hfilled : ∀ e ∈ marked before r after, (filled s e).priority = e.2.priority :=
    priority_filled hpriority
  calc ordered (before ++ s :: after)
      = ((marked before r after).map (filled s)).mergeSort
          fun a b => decide (b.priority ≤ a.priority) := by rw [map_filled_marked hs, ordered]
    _ = sorted.map (filled s) := by
        rw [← hsorted]
        refine (List.map_mergeSort fun a ha b hb => ?_).symm
        rw [hfilled a ha, hfilled b hb]
    _ = first.map Prod.snd ++ s :: rest.map Prod.snd := by
        rw [hsplit, List.map_append, List.map_cons, map_filled_unmarked hfirst,
          map_filled_unmarked hrest]
        rfl

/-! ## The code of a rule -/

def CompiledRule.commented (c : CompiledRule) (comment : String) : CompiledRule :=
  { c with comment }

theorem compileRule_renamed (context : EmissionContext) (index : Nat) (r : LeverageRule)
    (id label : Option String) (tally : Tally) :
    compileRule context index (r.renamed id label) tally =
      (compileRule context index r tally).map fun p =>
        (p.1.commented (ruleComment index (r.renamed id label)), p.2) := by
  rw [compileRule_eq, compileRule_eq]
  cases hvalue : valueCode context r.leverage tally with
  | error reason => simp [LeverageRule.renamed, hvalue, Except.bind, Except.map]
  | ok p =>
    cases hcondition : conditionCode context r.condition p.2 with
    | error reason => simp [LeverageRule.renamed, hvalue, hcondition, Except.bind, Except.map]
    | ok q =>
      cases hpriority : isLong r.priority <;>
        simp [LeverageRule.renamed, hvalue, hcondition, hpriority, checkedComment, Except.bind,
          Except.map, CompiledRule.commented]

theorem compileRules_cons {start : Nat} {rest : List LeverageRule} {s t u : Tally}
    {c : CompiledRule} (hr : compileRule context start r s = .ok (c, t))
    (hrest : compileRules context (start + 1) rest t = .ok (compiled, u)) :
    compileRules context start (r :: rest) s = .ok (c :: compiled, u) := by
  change (compileRule context start r s).bind (fun p =>
    (compileRules context (start + 1) rest p.2).bind fun q => .ok (p.1 :: q.1, q.2)) = _
  simp only [hr, hrest, Except.bind]

/-- One rule renamed among others: the others compile to what they were, and the rule to its old
code under its new comment. -/
theorem compileRules_renamed {first rest : List LeverageRule} (id label : Option String)
    {start : Nat} {s t : Tally}
    (h : compileRules context start (first ++ r :: rest) s = .ok (compiled, t)) :
    ∃ before c after, compiled = before ++ c :: after ∧
      c.comment = ruleComment (start + first.length) r ∧
      compileRules context start (first ++ r.renamed id label :: rest) s = .ok (before ++
        c.commented (ruleComment (start + first.length) (r.renamed id label)) :: after, t) := by
  induction first generalizing start s compiled with
  | nil =>
    obtain ⟨c, u, hc, hafter⟩ := bind_eq_ok h
    obtain ⟨after, v, hafter, hcompiled⟩ := bind_eq_ok hafter
    cases hcompiled
    obtain ⟨-, -, -, -, hcomment⟩ := compileRule_eq_ok hc
    refine ⟨[], c, after, rfl, hcomment, compileRules_cons ?_ hafter⟩
    rw [compileRule_renamed, hc]
    rfl
  | cons x first ih =>
    obtain ⟨c, u, hc, hothers⟩ := bind_eq_ok h
    obtain ⟨others, v, hothers, hcompiled⟩ := bind_eq_ok hothers
    cases hcompiled
    obtain ⟨before, d, after, rfl, hcomment, hnew⟩ := ih hothers
    have hindex : start + (x :: first).length = start + 1 + first.length := by
      rw [List.length_cons]
      omega
    rw [hindex]
    exact ⟨c :: before, d, after, rfl, hcomment, compileRules_cons hc hnew⟩

/-! ## The routine -/

/-- A routine in which one comment is replaced by another. -/
inductive Recommented (old new : String) : Routine → Routine → Prop
  | branch {r : Routine} {before after : List Branch} {b : Branch}
    (hr : r.branches = before ++ b :: after) (hb : b.comment = old) :
    Recommented old new r { r with branches := before ++ { b with comment := new } :: after }
  | tail {r : Routine} (hr : r.tail.comment = old) :
    Recommented old new r { r with tail := { r.tail with comment := new } }

theorem branch?_commented (c : CompiledRule) (comment : String) :
    (c.commented comment).branch? = c.branch?.map fun b => { b with comment } := by
  cases c with
  | mk condition value lookback old => cases condition <;> rfl

theorem checkUnconditional_iff {rules : List LeverageRule} :
    checkUnconditional rules = .ok () ↔ (rules.filter (·.condition.isNone)).length ≤ 1 := by
  refine ⟨checkUnconditional_eq_ok, fun h => ?_⟩
  simp only [checkUnconditional, if_neg (Nat.not_lt.mpr h)]

/-- The rules without a condition compile to code without a condition, and no others do. -/
theorem length_filter_compiled {rules : List LeverageRule}
    (h : List.Forall₂ (Compiles context) rules compiled) :
    (compiled.filter (·.condition.isNone)).length =
      (rules.filter (·.condition.isNone)).length := by
  induction h with
  | nil => rfl
  | @cons r c rules compiled hrc _ ih =>
    have hsame : c.condition.isNone = r.condition.isNone := by
      have hrel := hrc.condition
      generalize r.condition = x at hrel ⊢
      generalize c.condition = y at hrel ⊢
      cases hrel <;> rfl
    simp only [List.filter_cons, hsame]
    split <;> simp [ih]

theorem compile_of_steps {binding : Binding} {defaults : LeverageDefaults} {maxDepth : Int}
    {tally : Tally} {tail : Tail} {steady fallbackUsed : Bool}
    (hcheck : checkUnconditional (ordered l.rules) = .ok ())
    (hrules : compileRules ⟨.leverage, binding, maxDepth⟩ 0 (ordered l.rules) Tally.empty =
      .ok (compiled, tally)) (hfinite : defaults.fallback.isFinite = true)
    (htail : tailOf l defaults.fallback compiled = .ok (tail, steady, fallbackUsed)) :
    compile binding defaults maxDepth l = .ok {
      branches := compiled.filterMap CompiledRule.branch?
      tail
      minCandles := tally.lookback
      guardValue := if steady then tail.value else .float defaults.fallback
      cap := l.maxLeverage
      imports := tally.imports
      fallbackUsed
      warnings := if fallbackUsed then [⟨defaults.fallback⟩] else [] } := by
  have hfallback : floatCode defaults.fallback = .ok (.float defaults.fallback) := by
    simp [floatCode, Value.literal, hfinite]
  simp only [compile, StateT.run, hcheck, hrules, hfallback, htail, bind, Except.bind, pure,
    Except.pure]

/-- The tail under a rule with another comment. A rule with a condition has no part in it; one
without is the only one, so it is the tail itself. -/
theorem tailOf_commented {fallback : Binary64} {before after : List CompiledRule} {c : CompiledRule}
    (comment : String) {tail : Tail} {steady fallbackUsed : Bool}
    (hbare : ((before ++ c :: after).filter (·.condition.isNone)).length ≤ 1)
    (h : tailOf l fallback (before ++ c :: after) = .ok (tail, steady, fallbackUsed)) :
    tailOf l fallback (before ++ c.commented comment :: after) =
      .ok (if c.condition.isNone then { tail with comment } else tail, steady, fallbackUsed) ∧
    (c.condition.isNone = true → tail.comment = c.comment) := by
  cases hc : c.condition with
  | some code =>
    refine ⟨?_, by simp⟩
    have hfind : (before ++ c.commented comment :: after).find? (·.condition.isNone) =
        (before ++ c :: after).find? (·.condition.isNone) := by
      simp [List.find?_append, CompiledRule.commented, hc]
    rw [tailOf, hfind]
    simpa [tailOf] using h
  | none =>
    have hfirst : before.find? (·.condition.isNone) = none := by
      rw [List.filter_append, List.filter_cons_of_pos (by simp [hc]), List.length_append,
        List.length_cons] at hbare
      have hnil : before.filter (·.condition.isNone) = [] := by
        rw [← List.length_eq_zero_iff]
        omega
      rw [List.find?_eq_none]
      exact List.filter_eq_nil_iff.mp hnil
    have hfind : ∀ d : CompiledRule, d.condition = none →
        (before ++ d :: after).find? (·.condition.isNone) = some d := by
      intro d hd
      simp [List.find?_append, hfirst, hd]
    rw [tailOf, hfind c hc] at h
    cases h
    rw [tailOf, hfind (c.commented comment) hc]
    exact ⟨rfl, fun _ => rfl⟩

/-- **Another name for a rule changes one comment of the routine.** -/
theorem compile_renamed {binding : Binding} {defaults : LeverageDefaults} {maxDepth : Int}
    (hrules : l.rules = before ++ r :: after) (hr : r.enabled = true) (id label : Option String)
    {routine : Routine} (h : compile binding defaults maxDepth l = .ok routine) :
    ∃ index new, (ordered l.rules)[index]? = some r ∧
      compile binding defaults maxDepth
        { l with rules := before ++ r.renamed id label :: after } = .ok new ∧
      Recommented (ruleComment index r) (ruleComment index (r.renamed id label)) routine new := by
  obtain ⟨first, rest, hplace⟩ := ordered_place before r after
  have hold : ordered l.rules = first ++ r :: rest := by rw [hrules, hplace r hr rfl]
  have hnew : ordered (before ++ r.renamed id label :: after) =
      first ++ r.renamed id label :: rest := hplace _ hr rfl
  obtain ⟨compiled, tally, steady, hcheck, hcompiled, hfinite, htail, hroutine⟩ :=
    compile_eq_ok h
  rw [hold] at hcheck hcompiled
  have hbare := checkUnconditional_iff.mp hcheck
  rw [← length_filter_compiled (compileRules_compiles hcompiled)] at hbare
  have hcheck' : checkUnconditional (first ++ r.renamed id label :: rest) = .ok () := by
    rw [checkUnconditional_iff] at hcheck ⊢
    cases hr : r.condition <;> simpa [List.filter_cons, LeverageRule.renamed, hr] using hcheck
  obtain ⟨cs, c, ds, rfl, hcomment, hcompiled'⟩ := compileRules_renamed id label hcompiled
  rw [Nat.zero_add] at hcomment hcompiled'
  generalize hcommented : ruleComment first.length (r.renamed id label) = comment at hcompiled' ⊢
  obtain ⟨htail', hsame⟩ := tailOf_commented comment hbare htail
  have hsteps := @compile_of_steps _ { l with rules := before ++ r.renamed id label :: after }
    binding defaults maxDepth _ _ _ _ (by rw [hnew]; exact hcheck') (by rw [hnew]; exact hcompiled')
    hfinite htail'
  have hplaced : (ordered l.rules)[first.length]? = some r := by simp [hold]
  cases hc : c.condition with
  | none =>
    have hbranch : c.branch? = none := by simp [CompiledRule.branch?, hc]
    refine ⟨first.length, { routine with tail := { routine.tail with comment } }, hplaced, ?_, ?_⟩
    · rw [hsteps, hroutine]
      simp [hc, List.filterMap_append, branch?_commented, hbranch]
    · rw [hcommented]
      exact .tail (by rw [hsame (by simp [hc]), hcomment])
  | some code =>
    have hbranch : c.branch? = some ⟨code, c.value, c.comment⟩ := by
      simp [CompiledRule.branch?, hc]
    have hbranches : routine.branches = cs.filterMap CompiledRule.branch? ++
        ⟨code, c.value, c.comment⟩ :: ds.filterMap CompiledRule.branch? := by
      rw [hroutine, List.filterMap_append, List.filterMap_cons_some hbranch]
    refine ⟨first.length, { routine with branches := cs.filterMap CompiledRule.branch? ++
      ⟨code, c.value, comment⟩ :: ds.filterMap CompiledRule.branch? }, hplaced, ?_, ?_⟩
    · rw [hsteps, hroutine]
      simp [hc, List.filterMap_append, branch?_commented, hbranch]
    · rw [hcommented]
      exact .branch hbranches hcomment

/-- **The methods of two such routines differ in one comment line.** -/
theorem leverageMethod_recommented {old new : String} {r s : Routine} (h : Recommented old new r s)
    {lines : List String} (hlines : StrategyModule.leverageMethod (some r) = .ok lines) :
    ∃ above below, lines = above ++ ("        # " ++ old) :: below ∧
      StrategyModule.leverageMethod (some s) = .ok (above ++ ("        # " ++ new) :: below) := by
  obtain ⟨hfinite, rfl⟩ := StrategyModule.leverageMethod_eq_ok.mp hlines
  have htop : StrategyModule.leverageTop s = StrategyModule.leverageTop r := by cases h <;> rfl
  simp only [StrategyModule.leverageMethod_eq_ok, StrategyModule.leverageTexts, htop]
  cases h with
  | tail hr =>
    refine ⟨StrategyModule.leverageTop r ++ (r.branches.flatMap StrategyModule.branchLines ++ [""]),
      ["        return " ++ StrategyModule.capped r.tail.value], by simp [hr], hfinite, ?_⟩
    simp
  | @branch before after b hr hb =>
    refine ⟨StrategyModule.leverageTop r ++ (before.flatMap StrategyModule.branchLines ++ [""]),
      ["        if " ++ b.condition.render ++ ":",
        "            return " ++ StrategyModule.capped b.value] ++
        (after.flatMap StrategyModule.branchLines ++ ["", "        # " ++ r.tail.comment,
          "        return " ++ StrategyModule.capped r.tail.value]), ?_, hfinite, ?_⟩
    · simp [hr, hb, StrategyModule.branchLines]
    · simp [StrategyModule.branchLines]

end Leverage

end Stratagem
