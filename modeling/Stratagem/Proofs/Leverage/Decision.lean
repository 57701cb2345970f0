import Stratagem.Proofs.Leverage.Compiled

/-! The leverage decision. The rules ask for a value: that of the first rule, by priority and then
by document order, whose condition is true; else that of the rule without a condition; else the
default; else the fallback. A call of the compiled routine returns this value, or the limit if
that is smaller, and with too few candles it still returns no more than the limit. -/

namespace Stratagem.Leverage

open Script

/-- An enabled rule with a condition that is true. -/
def applies (truth : Condition → Bool) (r : LeverageRule) : Bool :=
  r.enabled && r.condition.any truth

/-- An enabled rule without a condition. -/
def isBare (r : LeverageRule) : Bool := r.enabled && r.condition.isNone

/-- The value that the rules ask for, given what conditions and leverage values come to. -/
inductive Asked (truth : Condition → Bool) (number : LeverageValue → ℚ)
    (settings : LeverageSettings) (fallback : Binary64) : ℚ → Prop where
  | rule {r : LeverageRule} (h : Decides (applies truth) settings.rules r) :
    Asked truth number settings fallback (number r.leverage)
  | bare {r : LeverageRule} (hnone : ∀ s ∈ settings.rules, applies truth s = false)
    (hr : r ∈ settings.rules) (hbare : isBare r = true) :
    Asked truth number settings fallback (number r.leverage)
  | default {x : Binary64} (hnone : ∀ s ∈ settings.rules, applies truth s = false)
    (hbare : ∀ s ∈ settings.rules, isBare s = false) (hx : settings.defaultLeverage = some x) :
    Asked truth number settings fallback x.toRat
  | fallback (hnone : ∀ s ∈ settings.rules, applies truth s = false)
    (hbare : ∀ s ∈ settings.rules, isBare s = false) (hx : settings.defaultLeverage = none) :
    Asked truth number settings fallback fallback.toRat

/-- There is neither a rule without a condition nor a default. -/
def FallsBack (settings : LeverageSettings) : Prop :=
  (∀ s ∈ settings.rules, isBare s = false) ∧ settings.defaultLeverage = none

private theorem eq_of_length_filter_le_one {α : Type} {p : α → Bool} {xs : List α}
    (h : (xs.filter p).length ≤ 1) {a b : α} (ha : a ∈ xs) (hb : b ∈ xs) (hpa : p a = true)
    (hpb : p b = true) : a = b := by
  have ha := List.mem_filter.mpr ⟨ha, hpa⟩
  have hb := List.mem_filter.mpr ⟨hb, hpb⟩
  match hall : xs.filter p, h with
  | [], _ => simp [hall] at ha
  | [c], _ =>
    rw [hall, List.mem_singleton] at ha hb
    rw [ha, hb]

theorem Asked.unique {truth : Condition → Bool} {number : LeverageValue → ℚ}
    {settings : LeverageSettings} {fallback : Binary64}
    (hone : (settings.rules.filter isBare).length ≤ 1) {v w : ℚ}
    (hv : Asked truth number settings fallback v) (hw : Asked truth number settings fallback w) :
    v = w := by
  have hclash : ∀ {r}, Decides (applies truth) settings.rules r →
      ¬ ∀ s ∈ settings.rules, applies truth s = false := by
    rintro r ⟨hr, before, after, hrules, -⟩ hnone
    simp [hnone r (by simp [hrules])] at hr
  cases hv with
  | rule h =>
    cases hw with
    | rule h' => rw [h.unique h']
    | bare hnone | default hnone | fallback hnone => exact absurd hnone (hclash h)
  | bare hnone hr hbare =>
    cases hw with
    | rule h' => exact absurd hnone (hclash h')
    | bare _ hr' hbare' => rw [eq_of_length_filter_le_one hone hr hr' hbare hbare']
    | default _ hno | fallback _ hno => simp [hno _ hr] at hbare
  | default hnone hbare hx =>
    cases hw with
    | rule h' => exact absurd hnone (hclash h')
    | bare _ hr' hbare' => simp [hbare _ hr'] at hbare'
    | default _ _ hx' => rw [Option.some.inj (hx.symm.trans hx')]
    | fallback _ _ hx' => simp [hx] at hx'
  | fallback hnone hbare hx =>
    cases hw with
    | rule h' => exact absurd hnone (hclash h')
    | bare _ hr' hbare' => simp [hbare _ hr'] at hbare'
    | default _ _ hx' => simp [hx] at hx'
    | fallback => rfl

/-! ## What the code of the rules comes to -/

/-- Whether the text of a condition is true in a call. -/
def truthOf (context : EmissionContext) (q : Call) (limit : ℚ) (c : Condition) : Bool :=
  ((conditionText? context c).bind Script.read).any (q.holds limit)

/-- What the text of a leverage value comes to in a call. -/
def numberOf (context : EmissionContext) (q : Call) (limit : ℚ) (v : LeverageValue) : ℚ :=
  (((valueText? context v).bind Script.read).map (q.operand limit)).getD 0

section Rules

variable {context : EmissionContext} (q : Call) (limit : ℚ)

theorem Compiles.numberOf {r : LeverageRule} {c : CompiledRule} (h : Compiles context r c) :
    numberOf context q limit r.leverage = q.operand limit c.value.script := by
  simp [Leverage.numberOf, h.value, h.value_whole.read]

theorem Compiles.any_truthOf {r : LeverageRule} {c : CompiledRule} (h : Compiles context r c) :
    r.condition.any (truthOf context q limit) =
      c.branch?.any fun b => q.holds limit b.condition.script := by
  have hrel := h.condition
  rw [CompiledRule.branch?]
  generalize r.condition = d at hrel
  generalize c.condition = code at hrel
  cases hrel with
  | none => rfl
  | some hd => simp [truthOf, hd.1, hd.2.read]

theorem Compiles.isNone {r : LeverageRule} {c : CompiledRule} (h : Compiles context r c) :
    r.condition.isNone = c.condition.isNone := by
  have hrel := h.condition
  generalize r.condition = d at hrel
  generalize c.condition = code at hrel
  cases hrel <;> rfl

end Rules

variable {context : EmissionContext} {defaults : LeverageDefaults} {settings : LeverageSettings}
  {compiled : List CompiledRule} {r : Routine}

/-- Where the tail comes from. -/
theorem Parts.tail_cases (h : Parts context defaults settings compiled r) :
    (∃ s c, s ∈ settings.rules ∧ isBare s = true ∧ Compiles context s c ∧
      r.tail.value = c.value ∧ r.fallbackUsed = false) ∨
    ((∀ s ∈ settings.rules, isBare s = false) ∧ ∃ x, settings.defaultLeverage = some x ∧
      r.tail.value = .float x ∧ r.fallbackUsed = false) ∨
    (FallsBack settings ∧ r.tail.value = .float defaults.fallback ∧ r.fallbackUsed = true) := by
  obtain ⟨steady, htail⟩ := h.tail
  have hrel := find?_rel h.rules fun _ _ hc => hc.isNone
  rcases tailOf_cases htail with ⟨c, hfind, htail, -, hused⟩ | ⟨hfind, hcases⟩
  · rw [hfind] at hrel
    generalize hbare : (ordered settings.rules).find? (·.condition.isNone) = found at hrel
    cases hrel with
    | @some s _ hc =>
      obtain ⟨hs, hon⟩ := mem_ordered.mp (List.mem_of_find?_eq_some hbare)
      have hno := List.find?_some hbare
      exact .inl ⟨s, c, hs, by simp [isBare, hon, hno], hc, congrArg Tail.value htail, hused⟩
  · rw [hfind] at hrel
    generalize hbare : (ordered settings.rules).find? (·.condition.isNone) = found at hrel
    cases hrel with
    | none =>
      have hno : ∀ s ∈ settings.rules, isBare s = false := forall_of_find?_eq_none hbare
      rcases hcases with ⟨x, hx, -, htail, hused⟩ | ⟨hdefault, htail, hused⟩
      · exact .inr (.inl ⟨hno, x, hx, congrArg Tail.value htail, hused⟩)
      · exact .inr (.inr ⟨⟨hno, hdefault⟩, congrArg Tail.value htail, hused⟩)

/-- The tail is what the rules ask for when no condition is true. -/
theorem Parts.tail_asked (h : Parts context defaults settings compiled r) (q : Call) (limit : ℚ)
    (hnone : ∀ s ∈ settings.rules, applies (truthOf context q limit) s = false) :
    Asked (truthOf context q limit) (numberOf context q limit) settings defaults.fallback
      (q.operand limit r.tail.value.script) := by
  rcases h.tail_cases with ⟨s, c, hs, hbare, hc, htail, -⟩ | ⟨hbare, x, hx, htail, -⟩ |
    ⟨hfalls, htail, -⟩
  · rw [htail, ← hc.numberOf q limit]
    exact .bare hnone hs hbare
  · rw [htail, Call.operand_float]
    exact .default hnone hbare hx
  · rw [htail, Call.operand_float]
    exact .fallback hnone hfalls.1 hfalls.2

theorem Parts.fallbackUsed_iff (h : Parts context defaults settings compiled r) :
    r.fallbackUsed = true ↔ FallsBack settings := by
  rcases h.tail_cases with ⟨s, c, hs, hbare, -, -, hused⟩ | ⟨-, x, hx, -, hused⟩ |
    ⟨hfalls, -, hused⟩
  · refine iff_of_false (by simp [hused]) fun hfalls => ?_
    simp [hfalls.1 s hs] at hbare
  · refine iff_of_false (by simp [hused]) fun hfalls => ?_
    simp [hfalls.2] at hx
  · exact iff_of_true hused hfalls

/-- With enough candles the routine picks the value that the rules ask for. -/
theorem Parts.picked_asked (h : Parts context defaults settings compiled r) (q : Call) (limit : ℚ)
    (hcandles : r.minCandles ≤ q.candles) :
    Asked (truthOf context q limit) (numberOf context q limit) settings defaults.fallback
      (q.operand limit (q.picked limit r).script) := by
  have hrel := find?_rel h.rules fun _ _ hc => hc.any_truthOf q limit
  rw [Call.picked, if_neg (Nat.not_lt.mpr hcandles), h.branches, List.find?_filterMap]
  cases hrule : (ordered settings.rules).find? (·.condition.any (truthOf context q limit)) with
  | some s =>
    rw [hrule] at hrel
    generalize hfound : compiled.find? _ = found at hrel ⊢
    cases hrel with
    | @some _ c hc =>
      have hany := List.find?_some hfound
      cases hbranch : c.branch? with
      | none => simp [hbranch] at hany
      | some b =>
        obtain ⟨code, -, rfl⟩ := Option.map_eq_some_iff.mp hbranch
        simp only [Option.bind_some, hbranch, Option.map_some, Option.getD_some]
        rw [← hc.numberOf q limit]
        exact .rule (decides_of_find? hrule)
  | none =>
    rw [hrule] at hrel
    generalize compiled.find? _ = found at hrel ⊢
    cases hrel with
    | none => exact h.tail_asked q limit (forall_of_find?_eq_none hrule)

/-! ## Branches, warnings and the main result -/

/-- A branch has the texts of a rule's condition and value. -/
def IsBranchOf (context : EmissionContext) (r : LeverageRule) (b : Branch) : Prop :=
  (∃ c, r.condition = some c ∧ conditionText? context c = some b.condition.render) ∧
    valueText? context r.leverage = some b.value.render

theorem forall₂_branches {context : EmissionContext} {rules : List LeverageRule}
    {compiled : List CompiledRule} (h : List.Forall₂ (Compiles context) rules compiled) :
    List.Forall₂ (IsBranchOf context) (rules.filter (·.condition.isSome))
      (compiled.filterMap CompiledRule.branch?) := by
  induction h with
  | nil => exact .nil
  | @cons r c rules compiled hrc _ ih =>
    have hrel := hrc.condition
    cases hr : r.condition with
    | none =>
      rw [hr] at hrel
      have hc : c.branch? = none := by
        cases hcode : c.condition with
        | none => simp [CompiledRule.branch?, hcode]
        | some code => rw [hcode] at hrel; cases hrel
      simpa [hr, hc] using ih
    | some d =>
      rw [hr] at hrel
      cases hcode : c.condition with
      | none => rw [hcode] at hrel; cases hrel
      | some code =>
        rw [hcode] at hrel
        cases hrel with
        | some hd =>
          have hc : c.branch? = some ⟨code, c.value, c.comment⟩ := by
            simp [CompiledRule.branch?, hcode]
          simpa [hr, hc] using List.Forall₂.cons (R := IsBranchOf context)
            ⟨⟨d, hr, hd.1⟩, hrc.value⟩ ih

/-- At most one rule goes without a condition. -/
theorem Parts.length_bare_le (h : Parts context defaults settings compiled r) :
    (settings.rules.filter isBare).length ≤ 1 := by
  have hlength : ((ordered settings.rules).filter (·.condition.isNone)).length =
      (settings.rules.filter isBare).length := (filter_ordered_perm _ _).length_eq
  rw [← hlength]
  exact h.unconditional

/-- **A call of the compiled routine returns what the rules ask for, up to the limit.** -/
theorem compile_returns_asked {binding : Binding} {maxDepth : Int}
    (h : compile binding defaults maxDepth settings = .ok r) :
    ((∃ lines, StrategyModule.leverageMethod (some r) = .ok lines) ↔
      ∀ x, settings.maxLeverage = some x → x.isFinite = true) ∧
    (∀ lines, StrategyModule.leverageMethod (some r) = .ok lines → ∀ (q : Call) (most limit : ℚ),
      limit = limitOf most settings.maxLeverage →
      (∃ v, q.returns most lines = some v ∧ v ≤ limit) ∧
      (r.minCandles ≤ q.candles → ∃ v, q.returns most lines = some (min v limit) ∧
        ∀ w, Asked (truthOf ⟨.leverage, binding, maxDepth⟩ q limit)
          (numberOf ⟨.leverage, binding, maxDepth⟩ q limit) settings defaults.fallback w ↔
          w = v)) ∧
    (settings.rules.filter isBare).length ≤ 1 ∧
    (r.fallbackUsed = true ↔ FallsBack settings) ∧
    (FallsBack settings → r.warnings = [⟨defaults.fallback⟩]) ∧
    (¬ FallsBack settings → r.warnings = []) ∧
    ∃ rules : List LeverageRule,
      rules.Perm (settings.rules.filter fun s => s.enabled && s.condition.isSome) ∧
      List.Forall₂ (IsBranchOf ⟨.leverage, binding, maxDepth⟩) rules r.branches := by
  obtain ⟨compiled, hparts⟩ := compile_parts h
  have hused := hparts.fallbackUsed_iff
  refine ⟨?_, ?_, hparts.length_bare_le, hused, fun hfalls => ?_, fun hstays => ?_,
    (ordered settings.rules).filter (·.condition.isSome), filter_ordered_perm _ _, ?_⟩
  · rw [← hparts.cap]
    exact exists_leverageMethod_iff r
  · rintro lines hlines q most limit rfl
    have hreturns := q.returns_leverageMethod hparts.whole hlines most
    rw [hparts.cap] at hreturns
    refine ⟨⟨_, hreturns, min_le_right _ _⟩, fun hcandles => ⟨_, hreturns, fun w => ?_⟩⟩
    have hasked := hparts.picked_asked q (limitOf most settings.maxLeverage) hcandles
    constructor
    · exact fun hw => hw.unique hparts.length_bare_le hasked
    · rintro rfl
      exact hasked
  · rw [hparts.warnings, if_pos (hused.mpr hfalls)]
  · rw [hparts.warnings, if_neg (mt hused.mp hstays)]
  · rw [hparts.branches]
    exact forall₂_branches hparts.rules

/-- A rule for every trade. -/
def flat (priority : Int) (enabled : Bool) (leverage : Int) : LeverageRule :=
  ⟨none, none, priority, enabled, none, .plain (.constant (.scalar (.int leverage)))⟩

/-- The close, but at most five, when it is above the open of the candle before. -/
def climbing : LeverageRule :=
  ⟨none, none, 1, true, some (.compare ⟨none, none⟩ (.price .close 0) .gt (.price .open_ 1)),
    .clamped (.price .close 0) none (some (Binary64.ofRatio false 5 1))⟩

/-- A condition that is always true, of the same priority. -/
def certain : LeverageRule :=
  ⟨none, none, 1, true, some (.all ⟨none, none⟩ []), .plain (.constant (.scalar (.int 3)))⟩

def layered : LeverageSettings :=
  ⟨true, [climbing, flat 4 false 9, certain, flat 9 true 2], none,
    some (Binary64.ofRatio false 10 1)⟩

theorem ordered_layered : ordered layered.rules = [flat 9 true 2, climbing, certain] := by
  have henabled : layered.rules.filter LeverageRule.enabled =
      [climbing, certain, flat 9 true 2] := rfl
  rw [ordered, henabled]
  simp [List.mergeSort, List.MergeSort.Internal.splitInTwo, climbing, certain, flat]

/-- Three candles, every condition true and every value seven. -/
def allTrue : Call := ⟨3, fun _ _ => true, fun _ _ => 7⟩

theorem layered_returns_asked : ∃ r lines v,
    compile Binding.empty {} 8 layered = .ok r ∧
    StrategyModule.leverageMethod (some r) = .ok lines ∧ r.minCandles ≤ allTrue.candles ∧
    allTrue.returns 20 lines = some (min v (limitOf 20 layered.maxLeverage)) ∧
    ¬ FallsBack layered ∧ r.warnings = [] := by
  have hcompile : (match compile Binding.empty {} 8 layered with
    | .ok r => decide (r.minCandles ≤ 3)
    | .error _ => false) = true := by
    simp only [compile, ordered_layered]
    decide +kernel
  have hfinite : ∀ x, layered.maxLeverage = some x → x.isFinite = true := by
    intro x hx
    have hten : (Binary64.ofRatio false 10 1).isFinite = true := by decide +kernel
    rwa [← Option.some.inj hx]
  have hfalls : ¬ FallsBack layered := fun h => by
    have hbare := h.1 (flat 9 true 2) (by simp [layered])
    cases hbare
  split at hcompile
  · next r hr =>
    have hcandles := of_decide_eq_true hcompile
    obtain ⟨hlines, hcall, -, -, -, hwarnings, -⟩ := compile_returns_asked hr
    obtain ⟨lines, hlines⟩ := hlines.mpr hfinite
    obtain ⟨v, hv, -⟩ := (hcall lines hlines allTrue 20 _ rfl).2 hcandles
    exact ⟨r, lines, v, hr, hlines, hcandles, hv, hfalls, hwarnings hfalls⟩
  · cases hcompile

end Stratagem.Leverage
