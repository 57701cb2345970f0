import Stratagem.Proofs.Compiler.Imports
import Stratagem.Proofs.Emission.Bracketing
import Stratagem.Proofs.Indicator.Levels
import Stratagem.Proofs.Module.LevelLines

/-! The bracket limit of generated text. Within the default depth limit the code of the leverage
method stays well below it, and so does a mask, but for the folds of its greatest and least values:
each of their operands but the first adds a bracket, and there is no limit on operands. -/

namespace Stratagem

open StrategyModule Scan
open Script (mostOpen)

/-! ## Masks -/

/-- The most folds on one way down a tree that is traded. -/
def Document.folds (d : Document) : Nat :=
  Emission.greatest (d.tradedTrees.map Condition.folds)

/-- The lines that set signals. -/
def Plan.signals (p : Plan) : List SignalLine := p.entries ++ p.exits

theorem Emission.brackets_asMask_le (scope : Scope) (e : Emitted) :
    (asMask scope e).code.brackets ≤ e.code.brackets + 1 := by
  unfold asMask
  split
  · exact Nat.le_refl _
  · exact Nat.le_succ _

section Plan

variable {settings : Settings} {d : Document} {p : Plan}

theorem plan_masks {registry : Registry} (hplan : plan settings registry d = .ok p) :
    ∀ s ∈ p.signals, s.mask.Whole ∧
      s.mask.brackets ≤ 2 * settings.limits.maxDepth + 2 + d.folds := by
  intro s hs
  obtain ⟨-, hsignals, -⟩ := plan_eq_ok hplan
  obtain ⟨c, hc, e, hbuild, hmask⟩ := emitSignals_masks hsignals s hs
  have hfolds : c.folds ≤ d.folds :=
    Emission.greatest_le_iff.mp (Nat.le_refl _) _ (List.mem_map_of_mem hc)
  have hcode := (Emission.build_root_within hbuild).1
  have hbroadcast := Emission.brackets_asMask_le .series e
  rw [hmask]
  refine ⟨Emission.asMask_grouped hbuild, ?_⟩
  simp only [Emission.chained, Node.folds] at hcode hbroadcast ⊢
  omega

/-! ## Leverage -/

theorem Leverage.brackets_clamped (bounds : List (Extremum × Binary64)) (code : Code) :
    (clamped bounds code).brackets = code.brackets + bounds.length := by
  induction bounds with
  | nil => rfl
  | cons bound rest ih =>
    have hnumber : (Code.float bound.2).brackets = 0 := rfl
    change max (Code.float bound.2).brackets (clamped rest code).brackets + 1 = _
    rw [hnumber, ih, List.length_cons]
    omega

/-- Folds do not count in leverage code, since an extremum takes all its operands at once. -/
theorem Leverage.compile_brackets {binding : Binding} {defaults : LeverageDefaults}
    {maxDepth : Int} {l : LeverageSettings} {r : Routine}
    (h : compile binding defaults maxDepth l = .ok r) :
    ∀ code ∈ r.codes, code.brackets ≤ 2 * maxDepth.toNat + 3 := by
  intro code hcode
  rcases (compile_emits h).1 code hcode with ⟨x, rfl⟩ | ⟨-, -, -, n, -, e, he, bounds, hbounds, rfl⟩
  · exact Nat.zero_le _
  · have hbuilt := (Emission.build_root_within he).1
    rw [brackets_clamped]
    simp only [Emission.chained] at hbuilt
    omega

theorem plan_codes (hplan : plan settings .builtin d = .ok p) {r : Routine}
    (hr : r ∈ p.routine) :
    r.Whole ∧ ∀ code ∈ r.codes, code.brackets ≤ 2 * settings.limits.maxDepth + 3 := by
  obtain ⟨-, -, hleverage⟩ := plan_eq_ok hplan
  rw [hr] at hleverage
  obtain ⟨l, -, -, hcompile⟩ := compileLeverage_eq_some hleverage
  obtain ⟨compiled, hparts⟩ := Leverage.compile_parts hcompile
  exact ⟨hparts.whole, Leverage.compile_brackets hcompile⟩

end Plan

/-- The lines of the leverage method that hold the code of the routine. -/
def Routine.codeLines (r : Routine) : List String :=
  onlyIf r.readsCandles ["            return " ++ capped r.guardValue] ++
    r.branches.flatMap (fun b => ["        if " ++ b.condition.render ++ ":",
      "            return " ++ capped b.value]) ++
    ["        return " ++ capped r.tail.value]

theorem Routine.codeLines_subset {r : Routine} {lines : List String}
    (h : leverageMethod (some r) = .ok lines) : ∀ line ∈ r.codeLines, line ∈ lines := by
  obtain ⟨-, rfl⟩ := leverageMethod_eq_ok.mp h
  intro line hline
  simp only [codeLines, leverageTexts, leverageTop, List.mem_append] at hline ⊢
  rcases hline with (hguard | hbranch) | htail
  · refine .inl (.inl (.inr ?_))
    cases hreads : r.readsCandles with
    | false => simp [hreads, onlyIf] at hguard
    | true =>
      obtain rfl : line = "            return " ++ capped r.guardValue := by
        simpa [hreads, onlyIf] using hguard
      simp [candleLines, hreads, onlyIf]
  · refine .inl (.inr ?_)
    obtain ⟨b, hb, hline⟩ := List.mem_flatMap.mp hbranch
    refine List.mem_flatMap.mpr ⟨b, hb, ?_⟩
    rcases List.mem_pair.mp hline with rfl | rfl <;> simp [branchLines]
  · obtain rfl := List.mem_singleton.mp htail
    simp

/-- A piece of code in a line, within the brackets before it. -/
theorem mostOpen_code {before after : String} {c : Code} (hc : c.Grouped) {d m n : Nat}
    (hbefore : Script.Opens 0 before.toList d m) (hafter : Script.Opens d after.toList 0 n) :
    mostOpen (before ++ c.render ++ after) = max (max m (d + c.brackets)) n := by
  have hline := (hbefore.append (hc.opens d)).append hafter
  rw [← String.toList_append, ← String.toList_append] at hline
  exact hline.most

theorem mostOpen_capped {before : String} {c : Code} (hc : c.Grouped)
    (hbefore : Script.Opens 0 (before ++ "min(").toList 1 1) :
    mostOpen (before ++ capped c) = c.brackets + 1 := by
  have hafter : Script.Opens 1 ", max_leverage)".toList 0 1 :=
    ⟨by decide, by decide⟩
  have hline := mostOpen_code hc hbefore hafter
  have hassoc : before ++ capped c = before ++ "min(" ++ c.render ++ ", max_leverage)" := by
    simp only [capped, String.append_assoc]
  rw [hassoc, hline]
  omega

theorem Routine.mostOpen_codeLines {r : Routine} (hwhole : r.Whole) {k : Nat}
    (h : ∀ code ∈ r.codes, code.brackets ≤ k) : ∀ line ∈ r.codeLines, mostOpen line ≤ k + 1 := by
  simp only [codes, List.forall_mem_append, List.forall_mem_cons] at h
  obtain ⟨⟨hguard, htail, -⟩, hbranches⟩ := h
  have hreturn {c : Code} (hc : c.Whole) (hle : c.brackets ≤ k) :
      mostOpen ("            return " ++ capped c) ≤ k + 1 := by
    rw [mostOpen_capped hc.1 ⟨by decide, by decide⟩]
    exact Nat.succ_le_succ hle
  simp only [codeLines, List.forall_mem_append, List.forall_mem_singleton]
  refine ⟨⟨forall_onlyIf (List.forall_mem_singleton.mpr (hreturn hwhole.guard hguard)),
    fun line hline => ?_⟩, ?_⟩
  · obtain ⟨b, hb, hline⟩ := List.mem_flatMap.mp hline
    obtain ⟨hcondition, hvalue⟩ := hwhole.branches b hb
    have hb' := fun code hcode => hbranches code (List.mem_flatMap.mpr ⟨b, hb, hcode⟩)
    simp only [List.forall_mem_cons] at hb'
    rcases List.mem_pair.mp hline with rfl | rfl
    · have hif : Script.Opens 0 "        if ".toList 0 0 := ⟨by decide, by decide⟩
      have hcolon : Script.Opens 0 ":".toList 0 0 := ⟨by decide, by decide⟩
      rw [mostOpen_code hcondition.1 hif hcolon]
      omega
    · exact hreturn hvalue hb'.2.1
  · rw [mostOpen_capped hwhole.tail.1 ⟨by decide, by decide⟩]
    exact Nat.succ_le_succ htail

/-! ## Modules -/

theorem Registry.bind_level {declarations : List IndicatorDeclaration} {b : Binding}
    {lines : List String} (hbind : Registry.builtin.bind declarations = .ok b)
    (hcode : b.code = .ok lines) : Level (lines.map indicatorLine) := by
  obtain ⟨blocks, hindicators, hblocks, rfl⟩ := Binding.code_eq_ok hcode
  rw [List.map_flatMap]
  refine rows_flatMap fun e he => ?_
  have hmem : e.1 ∈ b.indicators := hindicators ▸ List.mem_map_of_mem he
  exact (bind_sound hbind e.1 hmem).code_level (bind_specs Builtin.specs_isLevel hbind e.1 hmem)
    (hblocks e he)

theorem OutputCheck.logicalLines_of_problem {code : String} {expected : Option String}
    {fault : Scan.Fault} (h : .scan fault ∈ problems code expected) :
    logicalLines code = .error fault := by
  unfold problems at h
  split at h
  · next heq =>
    rw [heq]
    simpa [eq_comm] using h
  · split at h
    · simp at h
    · split at h
      · simp only [blockProblems, List.mem_append, List.mem_map, reduceCtorEq, and_false,
          exists_false, or_false] at h
        rcases h with hname | himport
        · split at hname
          · split at hname <;> simp at hname
          · simp at hname
        · split at himport <;> simp at himport
      · simp at h

/-- The syntax check has found too many open brackets. -/
def CompileError.BlamesBrackets (e : CompileError) : Prop :=
  ∃ problems line, e = .output problems ∧ .scan (.tooManyBrackets line) ∈ problems

section Generated

variable {settings : Settings} {raw : Value} {name : Option String} {d : Document} {p : Plan}

/-- The module of a plan is ready for the scanner, its masks and its leverage apart. -/
theorem assemble_ready {className : String} {m : StrategyModule}
    (hname : requireName settings.limits name = .ok className)
    (hplan : plan settings .builtin d = .ok p)
    (hassemble : assemble settings className d p = .ok m) :
    m.Sound ∧ (∀ c ∈ m.className.toList, Script.isInert c = true) ∧
      Level (m.indicatorLines.map indicatorLine) ∧
      m.entrySignals ++ m.exitSignals = p.signals ∧ m.leverage = p.routine := by
  have hword := requireName_eq_ok hname
  obtain ⟨hcode, hclass, hentries, hexits, hroutine⟩ := assemble_eq_ok hassemble
  refine ⟨assemble_sound hword hplan hassemble, ?_, ?_, ?_, hroutine⟩
  · rw [hclass]
    exact forall_of_isClassWord hword
      (fun c hc => Script.isInert_of_wordChar (Script.wordChar_of_nameChar hc)) (by decide)
  · exact Registry.bind_level (plan_eq_ok hplan).1 hcode
  · rw [hentries, hexits, Plan.signals]

/-- Too many brackets are blamed on a mask. -/
theorem exists_mask_of_blamesBrackets (hlimits : settings.limits.maxDepth ≤ 64)
    (hprepare : prepare settings.limits raw = .ok d) (hplan : plan settings .builtin d = .ok p)
    {e : CompileError} (h : generate settings .builtin raw name = .error e)
    (he : e.BlamesBrackets) : ∃ s ∈ p.signals, maxBrackets ≤ s.mask.brackets := by
  obtain ⟨problems, number, rfl, hproblem⟩ := he
  obtain ⟨className, m, lines, hname, hassemble, hlines, rfl⟩ :=
    generate_eq_output hprepare hplan h
  obtain ⟨hsound, hinert, hindicators, hsignals, hroutine⟩ := assemble_ready hname hplan hassemble
  have hfits : ∀ r ∈ m.leverage, Fits r := by
    intro r hr
    rw [hroutine] at hr
    have hcodes := (plan_codes hplan hr).2
    have hmax : 2 * settings.limits.maxDepth + 3 < maxBrackets := by
      simp only [maxBrackets]
      omega
    simp only [Routine.codes, List.forall_mem_append, List.forall_mem_cons,
      List.mem_flatMap] at hcodes
    obtain ⟨⟨hguard, htail, -⟩, hbranches⟩ := hcodes
    refine ⟨fun b hb => ?_, htail.trans_lt hmax, hguard.trans_lt hmax⟩
    exact ⟨(hbranches _ ⟨b, hb, by simp⟩).trans hmax.le,
      (hbranches _ ⟨b, hb, by simp⟩).trans_lt hmax⟩
  by_contra hnone
  push Not at hnone
  rw [← hsignals] at hnone
  exact logicalLines_ne_tooManyBrackets (lines_tidy hsound hlines)
    (lines_level hsound hinert hindicators hnone hfits hlines) (toList_unlines lines) number
    (OutputCheck.logicalLines_of_problem hproblem)

/-- A mask with too many brackets is never part of a text that has passed the check. -/
theorem generate_ne_ok_of_mask (hcheck : settings.output.validateSyntax = true)
    (hprepare : prepare settings.limits raw = .ok d) (hplan : plan settings .builtin d = .ok p)
    (hmask : ∃ s ∈ p.signals, maxBrackets ≤ s.mask.brackets) (g : Generated) :
    generate settings .builtin raw name ≠ .ok g := by
  intro h
  obtain ⟨className, document, hname, hdocument, hcompile⟩ := generate_eq_ok_iff.mp h
  cases hprepare.symm.trans hdocument
  obtain ⟨q, m, hq, hassemble, hwrite, -⟩ := compileDocument_eq_ok hcompile
  cases hplan.symm.trans hq
  obtain ⟨lines, hlines, hcode, hpass⟩ := writeModule_eq_ok_iff.mp hwrite
  obtain ⟨hsound, hinert, hindicators, hsignals, -⟩ := assemble_ready hname hplan hassemble
  rw [← hsignals] at hmask
  obtain ⟨fault, hfault⟩ := logicalLines_of_halts (lines_tidy hsound hlines)
    (lines_halt hsound hinert hindicators hmask hlines) (toList_unlines lines)
  have hnone := hpass hcheck
  rw [hcode, OutputCheck.problems, hfault] at hnone
  cases hnone

/-- **Only folds can open too many brackets.** Within the default depth limit no line with leverage
code opens more than 132 brackets at once, and no mask more than 131 besides its folds. The syntax
check blames brackets on a mask only, and it never lets a mask with too many of them pass; up to 69
folds there is none. -/
theorem bracket_limit_up_to_folds (hlimits : settings.limits.maxDepth ≤ ({} : Limits).maxDepth)
    (hprepare : prepare settings.limits raw = .ok d) (hplan : plan settings .builtin d = .ok p) :
    (∀ r ∈ p.routine, ∀ line ∈ r.codeLines, mostOpen line ≤ 132 ∧
      ∀ lines, leverageMethod (some r) = .ok lines → line ∈ lines) ∧
    (∀ s ∈ p.signals, mostOpen (signalLine s) ≤ 131 + d.folds) ∧
    (∀ name e, generate settings .builtin raw name = .error e → e.BlamesBrackets →
      ∃ s ∈ p.signals, maxBrackets < mostOpen (signalLine s)) ∧
    (settings.output.validateSyntax = true →
      (∃ s ∈ p.signals, maxBrackets < mostOpen (signalLine s)) →
        ∀ name g, generate settings .builtin raw name ≠ .ok g) ∧
    (d.folds ≤ 69 → (∀ s ∈ p.signals, mostOpen (signalLine s) ≤ maxBrackets) ∧
      ∀ name e, generate settings .builtin raw name = .error e → ¬ e.BlamesBrackets) := by
  have hdepth : settings.limits.maxDepth ≤ 64 := hlimits
  have hmasks := plan_masks hplan
  have hmost : ∀ s ∈ p.signals, mostOpen (signalLine s) = s.mask.brackets + 1 :=
    fun s hs => mostOpen_signalLine (hmasks s hs).1
  have hsignals : ∀ s ∈ p.signals, mostOpen (signalLine s) ≤ 131 + d.folds := by
    intro s hs
    have hle := (hmasks s hs).2
    rw [hmost s hs]
    omega
  have hblamed : ∀ name e, generate settings .builtin raw name = .error e → e.BlamesBrackets →
      ∃ s ∈ p.signals, maxBrackets < mostOpen (signalLine s) := by
    intro name e h he
    obtain ⟨s, hs, hmany⟩ := exists_mask_of_blamesBrackets hdepth hprepare hplan h he
    exact ⟨s, hs, by rw [hmost s hs]; exact Nat.lt_succ_of_le hmany⟩
  refine ⟨fun r hr line hline => ⟨?_, fun lines h => r.codeLines_subset h line hline⟩, hsignals,
    hblamed, ?_, fun hfolds => ?_⟩
  · obtain ⟨hwhole, hcodes⟩ := plan_codes hplan hr
    exact (r.mostOpen_codeLines hwhole hcodes line hline).trans (by omega)
  · rintro hcheck ⟨s, hs, hmany⟩ name g
    rw [hmost s hs] at hmany
    exact generate_ne_ok_of_mask hcheck hprepare hplan ⟨s, hs, Nat.le_of_lt_succ hmany⟩ g
  · have hfew : ∀ s ∈ p.signals, mostOpen (signalLine s) ≤ maxBrackets :=
      fun s hs => (hsignals s hs).trans (Nat.add_le_add_left hfolds 131)
    refine ⟨hfew, fun name e h he => ?_⟩
    obtain ⟨s, hs, hmany⟩ := hblamed name e h he
    exact absurd (hfew s hs) (Nat.not_le.mpr hmany)

end Generated

/-! ## A wide maximum -/

/-- The greatest of some prices, which are all the same. -/
def greatestRaw (n : Nat) : Value :=
  .object [("type", .text "COMPUTED"), ("operation", .text "max"),
    ("operands", .list (List.replicate n
      (.object [("type", .text "PRICE"), ("field", .text "close")])))]

/-- A document that compares such a maximum, and takes it for its leverage as well. -/
def wideRaw (n : Nat) : Value :=
  .object [("version", .int 2),
    ("long", .object [("entry_conditions", .object [("type", .text "COMPARE"),
      ("left", greatestRaw n), ("operator", .text "gt"),
      ("right", .object [("type", .text "CONSTANT"), ("value", .int 70)])])]),
    ("leverage", .object [("rules", .list [.object [("leverage", greatestRaw n)]])])]

/-- What the check of brackets takes of a document: its folds, and the brackets of its code. -/
def bracketsOf (raw : Value) : Option (Nat × List Nat × Option (List Nat)) := do
  let d ← (prepare {} raw).toOption
  let p ← (plan {} .builtin d).toOption
  return (d.folds, p.signals.map (·.mask.brackets),
    p.routine.map fun r => r.codes.map Code.brackets)

theorem exists_of_bracketsOf {raw : Value} {folds : Nat} {masks : List Nat}
    {codes : Option (List Nat)} (h : bracketsOf raw = some (folds, masks, codes)) :
    ∃ d p, prepare {} raw = .ok d ∧ plan {} .builtin d = .ok p ∧ d.folds = folds ∧
      p.signals.map (·.mask.brackets) = masks ∧
      p.routine.map (fun r => r.codes.map Code.brackets) = codes := by
  obtain ⟨d, hd, h⟩ := Option.bind_eq_some_iff.mp h
  obtain ⟨p, hp, h⟩ := Option.bind_eq_some_iff.mp h
  cases h
  exact ⟨d, p, toOption_eq_some hd, toOption_eq_some hp, rfl, rfl, rfl⟩

/-- A maximum has one fold less than operands, and its mask one bracket more. -/
theorem bracketsOf_wide : ∀ n ∈ [70, 199],
    bracketsOf (wideRaw n) = some (n - 1, [n + 1, 1], some [0, 2]) := by
  decide +kernel

/-- Seventy operands make as many folds as are safe. -/
theorem seventy_operands_within_limit : ∃ d p, prepare {} (wideRaw 70) = .ok d ∧
    plan {} .builtin d = .ok p ∧ d.folds = 69 ∧
    (∀ s ∈ p.signals, mostOpen (signalLine s) ≤ maxBrackets) ∧
    (∃ r ∈ p.routine, ∀ line ∈ r.codeLines, mostOpen line ≤ 132) ∧
    ∀ name e, generate {} .builtin (wideRaw 70) name = .error e → ¬ e.BlamesBrackets := by
  obtain ⟨d, p, hd, hp, hfolds, -, hroutine⟩ := exists_of_bracketsOf (bracketsOf_wide 70 (by simp))
  obtain ⟨r, hr, -⟩ := Option.map_eq_some_iff.mp hroutine
  have hlimits : ({} : Settings).limits.maxDepth ≤ ({} : Limits).maxDepth := by decide
  obtain ⟨hcodes, -, -, -, hfew⟩ := bracket_limit_up_to_folds hlimits hd hp
  obtain ⟨hmasks, hpass⟩ := hfew hfolds.le
  exact ⟨d, p, hd, hp, hfolds, hmasks, ⟨r, hr, fun line hline => (hcodes r hr line hline).1⟩, hpass⟩

/-- **A maximum of 199 operands is within all limits and is never generated.** -/
theorem wide_maximum_never_generated : ∃ d p, prepare {} (wideRaw 199) = .ok d ∧
    plan {} .builtin d = .ok p ∧ (∃ s ∈ p.signals, mostOpen (signalLine s) = 201) ∧
    ∀ name g, generate {} .builtin (wideRaw 199) name ≠ .ok g := by
  obtain ⟨d, p, hd, hp, -, hmasks, -⟩ := exists_of_bracketsOf (bracketsOf_wide 199 (by simp))
  have hmem : 200 ∈ p.signals.map (·.mask.brackets) := by simp [hmasks]
  obtain ⟨s, hs, hbrackets⟩ := List.mem_map.mp hmem
  have hmost := mostOpen_signalLine (plan_masks hp s hs).1
  refine ⟨d, p, hd, hp, ⟨s, hs, by rw [hmost, hbrackets]⟩, fun name g => ?_⟩
  exact generate_ne_ok_of_mask (by decide) hd hp ⟨s, hs, hbrackets.ge⟩ g

end Stratagem
