import Stratagem.Proofs.Emission.Accesses
import Stratagem.Proofs.Emission.Lookback
import Stratagem.Proofs.Leverage.Compiled
import Stratagem.Proofs.Leverage.Guarded

/-! The candles that a routine reads. The number it asks for is the greatest that any price or
indicator of an enabled rule takes. All its code keeps to that number, so the length guard of the
rendered method comes before every access, and the names that stand for candles are bound by then;
what the guard returns reads no candle at all. -/

namespace Stratagem

/-- The candles that the prices and indicators in a rule take. -/
def LeverageRule.candles (r : LeverageRule) : List Nat :=
  r.leverage.operand.offsets.map (· + 1) ++ r.condition.elim [] Condition.candles

/-- The candles that the prices and indicators in the enabled rules take. -/
def LeverageSettings.candles (s : LeverageSettings) : List Nat :=
  (s.rules.filter LeverageRule.enabled).flatMap LeverageRule.candles

namespace Leverage

open Emission Script

/-! ## Compiled rules -/

/-- The code of a rule keeps to the candles that the rule takes. -/
structure Measured (r : LeverageRule) (c : CompiledRule) : Prop where
  value : c.value.Within c.lookback
  lookback : c.lookback ≤ greatest r.candles
  condition : ∀ code, c.condition = some code → code.Within (greatest r.candles)

variable {binding : Binding} {maxDepth : Int}

/-- In leverage scope a condition is a single truth value already. -/
theorem emitCondition_eq_ok_leverage {c : Condition} {s t : Tally} {e : Emitted}
    (h : emitCondition ⟨.leverage, binding, maxDepth⟩ (.condition c) s = (.ok e, t)) :
    descend ⟨.leverage, binding, maxDepth⟩ 1 (.condition c) s = (.ok e, t) := by
  obtain ⟨p, hdescend, rfl⟩ := emitCondition_descends h
  exact hdescend

theorem clamped_within {bounds : List (Extremum × Binary64)} {code : Code} {n : Nat}
    (h : code.Within n) : (clamped bounds code).Within n := by
  induction bounds with
  | nil => exact h
  | cons bound rest ih => exact ((Code.within_literal _).also ih).extremum bound.1

theorem valueCode_measured {v : LeverageValue} {s t : Tally} {code : Code} {lookback : Nat}
    (h : valueCode ⟨.leverage, binding, maxDepth⟩ v s = .ok ((code, lookback), t)) :
    code.Within lookback ∧ lookback = greatest (v.operand.offsets.map (· + 1)) ∧
      t.lookback = max s.lookback lookback := by
  obtain ⟨e, hdescend, rfl, rfl, -⟩ := valueCode_eq_ok h
  obtain ⟨hcounts, hraise⟩ := raises _ _ _ _ _ _ _ hdescend
  have hkeeps := build_keepsTo (build_of_descend hdescend)
  exact ⟨clamped_within hkeeps.code, hcounts.2.1, hraise⟩

theorem compileRule_measured {index : Nat} {r : LeverageRule} {s t : Tally} {c : CompiledRule}
    (h : compileRule ⟨.leverage, binding, maxDepth⟩ index r s = .ok (c, t)) :
    Measured r c ∧ t.lookback = max s.lookback (greatest r.candles) := by
  obtain ⟨u, hvalue, hcode, -⟩ := compileRule_eq_ok h
  obtain ⟨hwithin, hlookback, hraise⟩ := valueCode_measured hvalue
  have hcandles : greatest r.candles =
      max c.lookback (greatest (r.condition.elim [] Condition.candles)) := by
    rw [LeverageRule.candles, greatest_append, ← hlookback]
  cases hcondition : r.condition with
  | none =>
    rw [hcondition] at hcandles hcode
    obtain ⟨hnone, rfl⟩ := Prod.mk.inj (Except.ok.inj hcode)
    refine ⟨⟨hwithin, ?_, by simp [← hnone]⟩, ?_⟩
    · rw [hcandles]
      exact Nat.le_max_left ..
    · rw [hcandles, hraise]
      simp [greatest]
  | some d =>
    rw [hcondition] at hcandles hcode
    obtain ⟨e, t', hemit, hcode⟩ := bind_eq_ok hcode
    obtain ⟨hsome, rfl⟩ := Prod.mk.inj (Except.ok.inj hcode)
    have hdescend := emitCondition_eq_ok_leverage (emission_eq_ok hemit)
    obtain ⟨hcounts, hraise'⟩ := raises _ _ _ _ _ _ _ hdescend
    have hlook : e.lookback = greatest d.candles := hcounts.2
    refine ⟨⟨hwithin, ?_, ?_⟩, ?_⟩
    · rw [hcandles]
      exact Nat.le_max_left ..
    · intro code hcode
      obtain rfl : e.code = code := Option.some.inj (hsome.trans hcode)
      refine (build_keepsTo (build_of_descend hdescend)).code.mono ?_
      rw [hcandles, hlook]
      exact Nat.le_max_right ..
    · rw [hcandles, hraise', hraise, hlook, Nat.max_assoc]
      rfl

theorem compileRules_measured {start : Nat} {rules : List LeverageRule} {s t : Tally}
    {compiled : List CompiledRule}
    (h : compileRules ⟨.leverage, binding, maxDepth⟩ start rules s = .ok (compiled, t)) :
    List.Forall₂ Measured rules compiled ∧
      t.lookback = max s.lookback (greatest (rules.flatMap LeverageRule.candles)) := by
  induction rules generalizing start s compiled with
  | nil =>
    cases h
    exact ⟨.nil, (Nat.max_zero _).symm⟩
  | cons r rest ih =>
    obtain ⟨first, u, hfirst, h⟩ := bind_eq_ok h
    obtain ⟨others, v, hothers, h⟩ := bind_eq_ok h
    cases h
    obtain ⟨hmeasured, hu⟩ := compileRule_measured hfirst
    obtain ⟨hrest, hv⟩ := ih hothers
    refine ⟨.cons hmeasured hrest, ?_⟩
    rw [hv, hu, List.flatMap_cons, greatest_append, Nat.max_assoc]

/-! ## The routine -/

theorem greatest_congr {xs ys : List Nat} (h : ∀ x, x ∈ xs ↔ x ∈ ys) :
    greatest xs = greatest ys := by
  apply Nat.le_antisymm
  · exact greatest_le_iff.mpr fun x hx => greatest_le_iff.mp (Nat.le_refl _) x ((h x).mp hx)
  · exact greatest_le_iff.mpr fun x hx => greatest_le_iff.mp (Nat.le_refl _) x ((h x).mpr hx)

theorem greatest_eq_max? (xs : List Nat) : greatest xs = xs.max?.getD 0 := by
  cases xs with
  | nil => rfl
  | cons x rest =>
    rw [List.max?_cons', Option.getD_some, greatest, List.foldl_cons, Nat.zero_max]

theorem tail_within {settings : LeverageSettings} {fallback : Binary64}
    {compiled : List CompiledRule} {tail : Tail} {steady fallbackUsed : Bool} {n : Nat}
    (h : tailOf settings fallback compiled = .ok (tail, steady, fallbackUsed))
    (hcompiled : ∀ c ∈ compiled, c.value.Within c.lookback ∧ c.lookback ≤ n) :
    tail.value.Within n ∧ (steady = true → tail.value.Within 0) := by
  rcases tailOf_cases h with ⟨c, hfind, rfl, rfl, -⟩ | ⟨-, ⟨x, -, -, rfl, -⟩ | ⟨-, rfl, -⟩⟩
  · obtain ⟨hvalue, hle⟩ := hcompiled c (List.mem_of_find?_eq_some hfind)
    exact ⟨hvalue.mono hle, fun hsteady => by simpa [of_decide_eq_true hsteady] using hvalue⟩
  · exact ⟨Code.within_literal _, fun _ => Code.within_literal _⟩
  · exact ⟨Code.within_literal _, fun _ => Code.within_literal _⟩

theorem accesses_eq_nil {c : Code} (h : c.Within 0) : c.script.accesses = [] :=
  List.eq_nil_iff_forall_not_mem.mpr fun a ha => a.not_within_zero (h a ha)

theorem compile_bounded {defaults : LeverageDefaults} {settings : LeverageSettings} {r : Routine}
    (h : compile binding defaults maxDepth settings = .ok r) :
    r.minCandles = greatest settings.candles ∧ r.Bounded := by
  obtain ⟨compiled, tally, steady, -, hrules, hfinite, htail, hr⟩ := compile_eq_ok h
  obtain ⟨hmeasured, hlookback⟩ := compileRules_measured hrules
  have hsame : greatest ((ordered settings.rules).flatMap LeverageRule.candles) =
      greatest settings.candles :=
    greatest_congr fun k => ((ordered_perm settings.rules).flatMap_right _).mem_iff
  have hmin : r.minCandles = greatest settings.candles := by
    rw [hr, ← hsame, hlookback]
    exact Nat.zero_max _
  have hrule : ∀ c ∈ compiled, c.value.Within c.lookback ∧ c.lookback ≤ r.minCandles ∧
      ∀ code, c.condition = some code → code.Within r.minCandles := by
    intro c hc
    obtain ⟨rule, hmem, hc⟩ := exists_of_forall₂ (hmeasured.flip (R := flip Measured)) hc
    have hle : greatest rule.candles ≤ r.minCandles := by
      rw [hmin, ← hsame, greatest_flatMap]
      exact greatest_le_iff.mp (Nat.le_refl _) _ (List.mem_map_of_mem hmem)
    exact ⟨hc.value, hc.lookback.trans hle, fun code hcode => (hc.condition code hcode).mono hle⟩
  obtain ⟨htailWithin, hsteady⟩ :=
    tail_within htail fun c hc => ⟨(hrule c hc).1, (hrule c hc).2.1⟩
  refine ⟨hmin, ?_, htailWithin, ?_⟩
  · intro b hb
    rw [hr] at hb
    obtain ⟨c, hc, hbranch⟩ := List.mem_filterMap.mp hb
    obtain ⟨code, hcode, rfl⟩ := Option.map_eq_some_iff.mp hbranch
    obtain ⟨hvalue, hle, hcondition⟩ := hrule c hc
    exact ⟨hcondition code hcode, hvalue.mono hle⟩
  · rw [hr]
    cases steady with
    | true => exact accesses_eq_nil (hsteady rfl)
    | false => exact Code.accesses_literal _

/-- **No missing candle is read.** The number of candles that a routine asks for is the greatest
that a price or an indicator of an enabled rule takes, and none without one. In the rendered method
every line keeps to the rows and names that the lines before it vouch for, so a call returns a value
whatever the number of candles, and the value for too few candles accesses none. -/
theorem compile_reads_no_missing_candle {defaults : LeverageDefaults}
    {settings : LeverageSettings} {r : Routine}
    (h : compile binding defaults maxDepth settings = .ok r) :
    r.minCandles = settings.candles.max?.getD 0 ∧
    ((∃ lines, StrategyModule.leverageMethod (some r) = .ok lines) ↔
      ∀ x, settings.maxLeverage = some x → x.isFinite = true) ∧
    (∀ lines, StrategyModule.leverageMethod (some r) = .ok lines →
      (∃ ls, (body lines).mapM Script.Line.ofText? = some ls ∧ Guarded 0 [] ls) ∧
      ∀ (q : Call) (most : ℚ), ∃ v, q.attempt most lines = .ok (some v)) ∧
    ∃ e, Script.read r.guardValue.render = some e ∧ e.accesses = [] := by
  obtain ⟨hmin, hbounded⟩ := compile_bounded h
  obtain ⟨compiled, hparts⟩ := compile_parts h
  have hwhole := hparts.whole
  refine ⟨hmin.trans (greatest_eq_max? _), hparts.cap ▸ exists_leverageMethod_iff r, ?_, _,
    hwhole.guard.read, hbounded.guard⟩
  intro lines hlines
  have hfinite := (exists_leverageMethod_iff r).mp ⟨lines, hlines⟩
  have hguarded := guarded_routine hwhole hbounded hfinite
  have hread := leverageMethod_read hlines
  refine ⟨⟨_, hread, hguarded⟩, fun q most => ?_⟩
  rw [Call.attempt, hread]
  exact hguarded.execute (Nat.zero_le _)

/-- The close of three candles ago overtakes a mean; the value is the close of the candle before,
but at most five. -/
def overtaking : LeverageRule :=
  ⟨none, none, 1, true,
    some (.crossover ⟨none, none⟩ (.price .close 3)
      (.computed .average [.price .high 0, .price .low 1])),
    .clamped (.price .close 1) none (some (Binary64.ofRatio false 5 1))⟩

/-- A rule that looks back further, switched off. -/
def distant : LeverageRule := ⟨none, none, 2, false, none, .plain (.price .close 90)⟩

def crossed : LeverageSettings := ⟨true, [distant, overtaking], none, none⟩

theorem ordered_crossed : ordered crossed.rules = [overtaking] := by
  have henabled : crossed.rules.filter LeverageRule.enabled = [overtaking] := rfl
  rw [ordered, henabled, List.mergeSort_singleton]

theorem crossed_reads_no_missing_candle : ∃ r lines,
    compile Binding.empty {} 8 crossed = .ok r ∧ r.minCandles = 5 ∧
    StrategyModule.leverageMethod (some r) = .ok lines ∧
    ∀ (q : Call) (most : ℚ), ∃ v, q.attempt most lines = .ok (some v) := by
  have hcompile : (compile Binding.empty {} 8 crossed).toBool = true := by
    simp only [compile, ordered_crossed]
    decide +kernel
  cases hr : compile Binding.empty {} 8 crossed with
  | error reason => simp [hr, Except.toBool] at hcompile
  | ok r =>
    obtain ⟨hmin, hlines, hcall, -⟩ := compile_reads_no_missing_candle hr
    obtain ⟨lines, hlines⟩ := hlines.mpr (by rintro x ⟨⟩)
    have hfive : crossed.candles.max?.getD 0 = 5 := by decide
    exact ⟨r, lines, rfl, hmin.trans hfive, hlines, (hcall lines hlines).2⟩

end Leverage

end Stratagem
