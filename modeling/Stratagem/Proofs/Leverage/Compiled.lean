import Stratagem.Proofs.Emission.Grouping
import Stratagem.Proofs.Leverage.Priority
import Stratagem.Proofs.Leverage.Rendered

/-! What a compiled routine is made of. Every rule is compiled on its own: the tally that goes from
rule to rule does not change the code. All code of a routine reads on its own. -/

namespace Stratagem

/-- The operand that a leverage value is computed from. -/
def LeverageValue.operand : LeverageValue → Operand
  | .plain o => o
  | .clamped o _ _ => o

/-- The numbers that the value is kept above and below. -/
def LeverageValue.clamps : LeverageValue → List (Extremum × Binary64)
  | .plain _ => []
  | .clamped _ min max => min.toList.map (.max, ·) ++ max.toList.map (.min, ·)

theorem LeverageValue.length_clamps_le (v : LeverageValue) : v.clamps.length ≤ 2 := by
  cases v with
  | plain o => exact Nat.zero_le 2
  | clamped o min max => cases min <;> cases max <;> simp [clamps]

namespace Leverage

open Emission

variable {s t : Tally} {context : EmissionContext} {code : Code} {lookback : Nat}
  {v : LeverageValue} {r : LeverageRule} {c : CompiledRule} {settings : LeverageSettings}
  {defaults : LeverageDefaults}

/-! ## Steps of a compilation -/

theorem bind_eq_ok {α β : Type} {m : Compile α} {f : α → Compile β} {b : β}
    (h : (m >>= f) s = .ok (b, t)) : ∃ a u, m s = .ok (a, u) ∧ f a u = .ok (b, t) := by
  change (m s).bind (fun p => f p.1 p.2) = .ok (b, t) at h
  obtain ⟨p, hp, h⟩ := exists_of_bind_ok h
  exact ⟨p.1, p.2, hp, h⟩

theorem lift_eq_ok {α : Type} {x : Except LeverageError α} {a : α}
    (h : (liftM x : Compile α) s = .ok (a, t)) : x = .ok a ∧ t = s := by
  cases x with
  | error reason => cases h
  | ok b =>
    cases h
    exact ⟨rfl, rfl⟩

theorem emission_eq_ok {run : Tally → Except EmissionError Emitted × Tally} {e : Emitted}
    (h : emission run s = .ok (e, t)) : run s = (.ok e, t) := by
  unfold emission at h
  split at h
  · next heq =>
    cases h
    exact heq
  · cases h

theorem emission_failsOnly {P : LeverageError → Prop}
    {run : Tally → Except EmissionError Emitted × Tally}
    (h : FailsOnly (fun reason => P (.emission reason)) (run s).1) :
    FailsOnly P (emission run s) := by
  unfold emission
  generalize run s = x at h ⊢
  obtain ⟨result, tally⟩ := x
  cases result with
  | ok e => exact .ok _
  | error reason => exact .error (h reason rfl)

/-- What comes out does not depend on the tally. -/
def Steady {α : Type} (m : Compile α) : Prop := ∀ s t, (m s).map Prod.fst = (m t).map Prod.fst

namespace Steady

variable {α : Type}

theorem bind {β : Type} {m : Compile α} {f : α → Compile β} (hm : Steady m)
    (hf : ∀ a, Steady (f a)) :
    Steady (m >>= f) := by
  intro s t
  change ((m s).bind fun p => f p.1 p.2).map Prod.fst = ((m t).bind fun p => f p.1 p.2).map Prod.fst
  have h := hm s t
  cases hs : m s with
  | error reason =>
    cases ht : m t with
    | error reason' => simpa [hs, ht, Except.map, Except.bind] using h
    | ok q => simp [hs, ht, Except.map] at h
  | ok p =>
    cases ht : m t with
    | error reason' => simp [hs, ht, Except.map] at h
    | ok q =>
      have hpq : p.1 = q.1 := by simpa [hs, ht, Except.map] using h
      simp only [Except.bind, hpq]
      exact hf q.1 p.2 q.2

theorem pure (a : α) : Steady (Pure.pure a : Compile α) := fun _ _ => rfl

theorem lift (x : Except LeverageError α) : Steady (liftM x : Compile α) := by
  intro s t
  cases x <;> rfl

theorem emission {run : Tally → Except EmissionError Emitted × Tally}
    (h : ∀ s t, (run s).1 = (run t).1) : Steady (emission run) := by
  intro s t
  have hfst := h s t
  unfold Leverage.emission
  generalize run s = x at hfst ⊢
  generalize run t = y at hfst ⊢
  obtain ⟨_ | _, _⟩ := x <;> obtain ⟨_ | _, _⟩ := y <;> simp_all [Except.map]

end Steady

/-! ## Values -/

/-- The code of a number and the candles it reads, without the check of constants. -/
def numberCode (context : EmissionContext) (o : Operand) : Compile (Code × Nat) := do
  let e ← emission (emitOperand context (.operand o))
  if e.numeric then return (e.code, e.lookback) else throw (.notNumeric e.text)

theorem numberCode_steady (context : EmissionContext) (o : Operand) :
    Steady (numberCode context o) := by
  refine (Steady.emission fun s t => ?_).bind fun e => ?_
  · rw [emitOperand_fst, emitOperand_fst]
  · split
    · exact .pure _
    · exact fun _ _ => rfl

theorem operandValue_steady (context : EmissionContext) (o : Operand) :
    Steady (operandValue context o) := by
  unfold operandValue
  split
  · exact (Steady.lift _).bind fun _ => numberCode_steady context _
  · exact numberCode_steady context o

theorem valueCode_steady (context : EmissionContext) (v : LeverageValue) :
    Steady (valueCode context v) := by
  cases v with
  | plain o => exact operandValue_steady context o
  | clamped o min max =>
    exact (operandValue_steady context o).bind fun _ => (Steady.lift _).bind fun _ =>
      (Steady.lift _).bind fun _ => .pure _

theorem numberCode_eq_ok {o : Operand} (h : numberCode context o s = .ok ((code, lookback), t)) :
    ∃ e, descend context 1 (.operand o) s = (.ok e, t) ∧ code = e.code ∧
      lookback = e.lookback := by
  obtain ⟨e, u, he, hcode⟩ := bind_eq_ok h
  have hdescend := emitOperand_descends (emission_eq_ok he)
  split at hcode
  · cases hcode
    exact ⟨e, hdescend, rfl, rfl⟩
  · cases hcode

theorem operandValue_eq_ok {o : Operand}
    (h : operandValue context o s = .ok ((code, lookback), t)) :
    ∃ e, descend context 1 (.operand o) s = (.ok e, t) ∧ code = e.code ∧
      lookback = e.lookback := by
  unfold operandValue at h
  split at h
  · obtain ⟨_, u, hcheck, hnumber⟩ := bind_eq_ok h
    obtain ⟨-, rfl⟩ := lift_eq_ok hcheck
    exact numberCode_eq_ok hnumber
  · exact numberCode_eq_ok h

theorem floatCode_eq_ok {x : Binary64} (h : floatCode x = .ok code) :
    x.isFinite = true ∧ code = .float x := by
  unfold floatCode at h
  rw [Value.literal] at h
  by_cases hx : x.isFinite = true
  · rw [if_pos hx] at h
    cases h
    exact ⟨hx, rfl⟩
  · rw [if_neg hx] at h
    cases h

/-- Code that is kept at or below some numbers, and at or above others. -/
def clamped (bounds : List (Extremum × Binary64)) (code : Code) : Code :=
  bounds.foldr (fun bound inner => .extremum bound.1 (.also (.float bound.2) inner)) code

theorem clamp_eq_ok {f : Extremum} {bound : Option Binary64} {out : Code}
    (h : clamp f bound code = .ok out) :
    out = clamped (bound.toList.map (f, ·)) code ∧ ∀ x ∈ bound, x.isFinite = true := by
  cases bound with
  | none =>
    cases h
    exact ⟨rfl, nofun⟩
  | some x =>
    obtain ⟨number, hx, h⟩ := exists_of_bind_ok h
    obtain ⟨hfinite, rfl⟩ := floatCode_eq_ok hx
    cases h
    refine ⟨rfl, ?_⟩
    rintro y ⟨⟩
    exact hfinite

/-- **The code of a leverage value is that of its operand, within its bounds.** -/
theorem valueCode_eq_ok (h : valueCode context v s = .ok ((code, lookback), t)) :
    ∃ e, descend context 1 (.operand v.operand) s = (.ok e, t) ∧
      code = clamped v.clamps e.code ∧ lookback = e.lookback ∧
      ∀ bound ∈ v.clamps, bound.2.isFinite = true := by
  cases v with
  | plain o =>
    obtain ⟨e, he, rfl, rfl⟩ := operandValue_eq_ok h
    exact ⟨e, he, rfl, rfl, nofun⟩
  | clamped o min max =>
    obtain ⟨⟨inner, _⟩, _, hinner, h⟩ := bind_eq_ok h
    obtain ⟨below, _, hbelow, h⟩ := bind_eq_ok h
    obtain ⟨above, _, habove, h⟩ := bind_eq_ok h
    cases h
    obtain ⟨hmax, rfl⟩ := lift_eq_ok hbelow
    obtain ⟨hmin, rfl⟩ := lift_eq_ok habove
    obtain ⟨e, he, rfl, rfl⟩ := operandValue_eq_ok hinner
    obtain ⟨rfl, hfinite⟩ := clamp_eq_ok hmax
    obtain ⟨rfl, hfinite'⟩ := clamp_eq_ok hmin
    refine ⟨e, he, List.foldr_append.symm, rfl, ?_⟩
    simpa [LeverageValue.clamps, or_imp, forall_and] using ⟨hfinite', hfinite⟩

theorem clamped_whole {bounds : List (Extremum × Binary64)} (hcode : code.Whole)
    (h : ∀ bound ∈ bounds, bound.2.isFinite = true) : (clamped bounds code).Whole := by
  induction bounds with
  | nil => exact hcode
  | cons bound rest ih =>
    obtain ⟨hbound, hrest⟩ := List.forall_mem_cons.mp h
    have hgrouped : (Code.also (.float bound.2) (clamped rest code)).Grouped :=
      ⟨(Code.whole_float hbound).1, (ih hrest).1⟩
    exact ⟨hgrouped, by simp [clamped, Code.rank]⟩

theorem valueCode_whole (h : valueCode context v s = .ok ((code, lookback), t)) : code.Whole := by
  obtain ⟨e, he, rfl, -, hfinite⟩ := valueCode_eq_ok h
  obtain ⟨⟨hgrouped, hrank⟩, -⟩ : (Node.operand v.operand).Grouped e :=
    build_grouped (build_of_descend he)
  exact clamped_whole ⟨hgrouped, Nat.le_trans (by decide) hrank⟩ hfinite

/-! ## Rules -/

/-- The text that a leverage value is compiled to. -/
def valueText? (context : EmissionContext) (v : LeverageValue) : Option String :=
  match valueCode context v Tally.empty with
  | .ok ((code, _), _) => some code.render
  | .error _ => none

/-- The text that a condition is compiled to. -/
def conditionText? (context : EmissionContext) (c : Condition) : Option String :=
  match (emitCondition context (.condition c) Tally.empty).1 with
  | .ok e => some e.text
  | .error _ => none

theorem valueText?_eq_some (h : valueCode context v s = .ok ((code, lookback), t)) :
    valueText? context v = some code.render := by
  have hsteady := valueCode_steady context v s Tally.empty
  unfold valueText?
  cases hempty : valueCode context v Tally.empty with
  | error reason => simp [h, hempty, Except.map] at hsteady
  | ok p =>
    have hfst : (code, lookback) = p.1 := by simpa [h, hempty, Except.map] using hsteady
    obtain ⟨⟨code', lookback'⟩, u⟩ := p
    cases hfst
    rfl

theorem conditionText?_eq_some {c : Condition} {e : Emitted}
    (h : emission (emitCondition context (.condition c)) s = .ok (e, t)) :
    conditionText? context c = some e.text ∧ e.code.Whole := by
  obtain ⟨p, hbuild, rfl⟩ := emitCondition_eq_ok (congrArg Prod.fst (emission_eq_ok h))
  refine ⟨?_, asMask_grouped hbuild⟩
  rw [conditionText?, emitCondition_fst, hbuild]
  rfl

/-- A rule and its code. -/
structure Compiles (context : EmissionContext) (r : LeverageRule) (c : CompiledRule) : Prop where
  value : valueText? context r.leverage = some c.value.render
  value_whole : c.value.Whole
  condition : Option.Rel (fun d code => conditionText? context d = some code.render ∧ code.Whole)
    r.condition c.condition

theorem Compiles.condition_whole (h : Compiles context r c) (code : Code)
    (hcode : c.condition = some code) : code.Whole := by
  have hrel := h.condition
  rw [hcode] at hrel
  generalize r.condition = d at hrel
  cases hrel with
  | some hd => exact hd.2

/-- The code of the condition of a rule, if it has one. -/
def conditionCode (context : EmissionContext) (condition : Option Condition) :
    Compile (Option Code) :=
  match condition with
  | none => pure none
  | some c => do
    let e ← emission (Emission.emitCondition context (.condition c))
    pure (some e.code)

theorem compileRule_eq (context : EmissionContext) (index : Nat) (r : LeverageRule)
    (tally : Tally) :
    compileRule context index r tally =
      (valueCode context r.leverage tally).bind fun p =>
        (conditionCode context r.condition p.2).bind fun q =>
          (checkedComment index r).map fun text => (⟨q.1, p.1.1, p.1.2, text⟩, q.2) := by
  obtain ⟨id, label, priority, enabled, condition, value⟩ := r
  cases condition with
  | none =>
    change (valueCode context value tally).bind _ = _
    congr 1
    funext p
    cases hpriority : isLong priority <;> simp [hpriority, checkedComment] <;> rfl
  | some c =>
    change (valueCode context value tally).bind _ = _
    congr 1
    funext p
    change Except.bind _ _ = (Except.bind _ _).bind _
    cases emission (Emission.emitCondition context (.condition c)) p.2 with
    | error reason => rfl
    | ok e => cases hpriority : isLong priority <;> simp [hpriority, checkedComment] <;> rfl

/-- The steps of a rule that is compiled. -/
theorem compileRule_eq_ok {index : Nat} (h : compileRule context index r s = .ok (c, t)) :
    ∃ u, valueCode context r.leverage s = .ok ((c.value, c.lookback), u) ∧
      conditionCode context r.condition u = .ok (c.condition, t) ∧
      isLong r.priority = false ∧ c.comment = ruleComment index r := by
  rw [compileRule_eq] at h
  obtain ⟨⟨⟨value, lookback⟩, u⟩, hvalue, h⟩ := exists_of_bind_ok h
  obtain ⟨⟨condition, v⟩, hcondition, h⟩ := exists_of_bind_ok h
  cases hpriority : isLong r.priority with
  | true => simp [checkedComment, hpriority, Except.map] at h
  | false =>
    simp only [checkedComment, hpriority, Except.map, Bool.false_eq_true, if_false] at h
    cases h
    exact ⟨u, hvalue, hcondition, rfl, rfl⟩

theorem compileRule_compiles {index : Nat} (h : compileRule context index r s = .ok (c, t)) :
    Compiles context r c := by
  obtain ⟨u, hvalue, hcode, -⟩ := compileRule_eq_ok h
  refine ⟨valueText?_eq_some hvalue, valueCode_whole hvalue, ?_⟩
  cases hcondition : r.condition with
  | none =>
    rw [hcondition] at hcode
    obtain ⟨hnone, -⟩ := Prod.mk.inj (Except.ok.inj hcode)
    exact hnone ▸ .none
  | some d =>
    rw [hcondition] at hcode
    obtain ⟨e, _, hemit, hcode⟩ := bind_eq_ok hcode
    obtain ⟨hsome, -⟩ := Prod.mk.inj (Except.ok.inj hcode)
    exact hsome ▸ .some (conditionText?_eq_some hemit)

theorem compileRules_compiles {start : Nat} {rules : List LeverageRule}
    {compiled : List CompiledRule} (h : compileRules context start rules s = .ok (compiled, t)) :
    List.Forall₂ (Compiles context) rules compiled := by
  induction rules generalizing start s compiled with
  | nil =>
    cases h
    exact .nil
  | cons r rest ih =>
    obtain ⟨first, _, hfirst, h⟩ := bind_eq_ok h
    obtain ⟨others, _, hothers, h⟩ := bind_eq_ok h
    cases h
    exact .cons (compileRule_compiles hfirst) (ih hothers)

/-! ## Routines -/

theorem checkUnconditional_eq_ok {rules : List LeverageRule}
    (h : checkUnconditional rules = .ok ()) : (rules.filter (·.condition.isNone)).length ≤ 1 := by
  simp only [checkUnconditional] at h
  split at h
  · cases h
  · omega

/-- The tail is the rule without a condition, the default or the fallback. -/
theorem tailOf_cases {fallback : Binary64} {rules : List CompiledRule} {tail : Tail}
    {steady fallbackUsed : Bool}
    (h : tailOf settings fallback rules = .ok (tail, steady, fallbackUsed)) :
    (∃ r, rules.find? (·.condition.isNone) = some r ∧ tail = ⟨r.value, r.comment⟩ ∧
      steady = decide (r.lookback = 0) ∧ fallbackUsed = false) ∨
    rules.find? (·.condition.isNone) = none ∧
      ((∃ x, settings.defaultLeverage = some x ∧ x.isFinite = true ∧
        tail = ⟨.float x, "Default leverage"⟩ ∧ fallbackUsed = false) ∨
      settings.defaultLeverage = none ∧
        tail = ⟨.float fallback, "Fallback leverage (no unconditional rule)"⟩ ∧
        fallbackUsed = true) := by
  unfold tailOf at h
  split at h
  · next r hfind =>
    cases h
    exact .inl ⟨r, hfind, rfl, rfl, rfl⟩
  · next x hfind hdefault =>
    obtain ⟨code, hx, h⟩ := exists_of_bind_ok h
    obtain ⟨hfinite, rfl⟩ := floatCode_eq_ok hx
    cases h
    exact .inr ⟨hfind, .inl ⟨x, hdefault, hfinite, rfl, rfl⟩⟩
  · next hfind hdefault =>
    cases h
    exact .inr ⟨hfind, .inr ⟨hdefault, rfl, rfl⟩⟩

/-- The parts of a routine. -/
structure Parts (context : EmissionContext) (defaults : LeverageDefaults)
    (settings : LeverageSettings) (compiled : List CompiledRule) (r : Routine) : Prop where
  unconditional : ((ordered settings.rules).filter (·.condition.isNone)).length ≤ 1
  rules : List.Forall₂ (Compiles context) (ordered settings.rules) compiled
  branches : r.branches = compiled.filterMap CompiledRule.branch?
  fallback : defaults.fallback.isFinite = true
  tail : ∃ steady, tailOf settings defaults.fallback compiled = .ok (r.tail, steady, r.fallbackUsed)
  warnings : r.warnings = if r.fallbackUsed then [⟨defaults.fallback⟩] else []
  guard : r.guardValue = r.tail.value ∨ r.guardValue = .float defaults.fallback
  cap : r.cap = settings.maxLeverage

/-- The steps of a compilation that succeeded. -/
theorem compile_eq_ok {binding : Binding} {maxDepth : Int} {r : Routine}
    (h : compile binding defaults maxDepth settings = .ok r) :
    ∃ compiled tally steady,
      checkUnconditional (ordered settings.rules) = .ok () ∧
      compileRules ⟨.leverage, binding, maxDepth⟩ 0 (ordered settings.rules) Tally.empty =
        .ok (compiled, tally) ∧
      defaults.fallback.isFinite = true ∧
      tailOf settings defaults.fallback compiled = .ok (r.tail, steady, r.fallbackUsed) ∧
      r = {
        branches := compiled.filterMap CompiledRule.branch?
        tail := r.tail
        minCandles := tally.lookback
        guardValue := if steady then r.tail.value else .float defaults.fallback
        cap := settings.maxLeverage
        imports := tally.imports
        fallbackUsed := r.fallbackUsed
        warnings := if r.fallbackUsed then [⟨defaults.fallback⟩] else [] } := by
  simp only [compile, bind, Except.bind, pure, Except.pure] at h
  split at h
  · cases h
  next hcheck =>
  split at h
  · cases h
  next p hrules =>
  split at h
  · cases h
  next fallback hfallback =>
  split at h
  · cases h
  next q htail =>
  cases h
  obtain ⟨compiled, tally⟩ := p
  obtain ⟨tail, steady, fallbackUsed⟩ := q
  obtain ⟨hfinite, rfl⟩ := floatCode_eq_ok hfallback
  exact ⟨compiled, tally, steady, hcheck, hrules, hfinite, htail, rfl⟩

theorem compile_parts {binding : Binding} {maxDepth : Int} {r : Routine}
    (h : compile binding defaults maxDepth settings = .ok r) :
    ∃ compiled, Parts ⟨.leverage, binding, maxDepth⟩ defaults settings compiled r := by
  obtain ⟨compiled, tally, steady, hcheck, hrules, hfinite, htail, hr⟩ := compile_eq_ok h
  refine ⟨compiled, checkUnconditional_eq_ok hcheck, compileRules_compiles hrules, ?_, hfinite,
    ⟨steady, htail⟩, ?_, ?_, ?_⟩
  · rw [hr]
  · rw [hr]
  · rw [hr]
    cases steady with
    | false => exact .inr rfl
    | true => exact .inl rfl
  · rw [hr]

theorem Parts.whole {compiled : List CompiledRule} {r : Routine}
    (h : Parts context defaults settings compiled r) : r.Whole := by
  have hvalues : ∀ c ∈ compiled, c.value.Whole :=
    forall_of_forall₂ h.rules fun _ _ hc => hc.value_whole
  have hconditions : ∀ c ∈ compiled, ∀ code, c.condition = some code → code.Whole :=
    forall_of_forall₂ h.rules fun _ _ hc => hc.condition_whole
  have htail : r.tail.value.Whole := by
    obtain ⟨steady, hsteady⟩ := h.tail
    rcases tailOf_cases hsteady with
      ⟨c, hfind, htail, -⟩ | ⟨-, ⟨x, -, hfinite, htail, -⟩ | ⟨-, htail, -⟩⟩
    · exact htail ▸ hvalues c (List.mem_of_find?_eq_some hfind)
    · exact htail ▸ Code.whole_float hfinite
    · exact htail ▸ Code.whole_float h.fallback
  refine ⟨?_, htail, ?_⟩
  · intro b hb
    rw [h.branches] at hb
    obtain ⟨c, hc, hbranch⟩ := List.mem_filterMap.mp hb
    obtain ⟨code, hcode, rfl⟩ := Option.map_eq_some_iff.mp hbranch
    exact ⟨hconditions c hc code hcode, hvalues c hc⟩
  · rcases h.guard with hguard | hguard
    · rwa [hguard]
    · rw [hguard]
      exact Code.whole_float h.fallback

end Leverage

end Stratagem
