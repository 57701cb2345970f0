import Stratagem.Compiler.Generate
import Stratagem.Proofs.Emission.Recorded
import Stratagem.Proofs.Indicator.Lines
import Stratagem.Proofs.Leverage.Comments
import Stratagem.Proofs.Module.Lines
import Stratagem.Proofs.Text.SnakeCase

/-! The stages of a compilation, and what its module is made of. With the built-in indicators and a
class name that is accepted, every line of the module is tidy. -/

namespace Stratagem

variable {settings : Settings} {registry : Registry} {d : Document} {p : Plan} {e : CompileError}
  {className : String} {m : StrategyModule} {name : Option String} {context : EmissionContext}
  {s t : Tally} {c : Condition} {entries exits : List SignalLine} {directions : List Direction}
  {b : Binding} {lines : List String}

/-! ## Stages -/

/-- Some lines as a text, each with a line feed at its end. -/
def unlines (lines : List String) : String := String.join (lines.map (· ++ "\n"))

theorem toList_unlines (lines : List String) : (unlines lines).toList = Scan.written lines := by
  simp [unlines, Scan.written, List.flatMap_map]

theorem plan_eq_ok (h : plan settings registry d = .ok p) :
    registry.bind d.indicators = .ok p.binding ∧
      emitSignals ⟨.series, p.binding, settings.limits.maxDepth⟩ d .empty
        d.positionMode.directions = .ok (p.entries, p.exits, p.tally) ∧
      compileLeverage settings p.binding d.leverage = .ok p.routine := by
  obtain ⟨binding, hbinding, h⟩ := exists_of_bind_ok h
  obtain ⟨⟨entries, exits, tally⟩, hsignals, h⟩ := exists_of_bind_ok h
  obtain ⟨routine, hroutine, h⟩ := exists_of_bind_ok h
  cases h
  exact ⟨ok_of_mapError_ok hbinding, hsignals, hroutine⟩

/-- A plan fails over the indicators, the signals or the leverage. -/
theorem plan_eq_error (h : plan settings registry d = .error e) :
    (∃ reason, e = .binding reason) ∨ ∃ binding,
      emitSignals ⟨.series, binding, settings.limits.maxDepth⟩ d .empty
        d.positionMode.directions = .error e ∨
      compileLeverage settings binding d.leverage = .error e := by
  rcases bind_eq_error h with hbind | ⟨binding, -, h⟩
  · obtain ⟨reason, -, rfl⟩ := mapError_eq_error hbind
    exact .inl ⟨reason, rfl⟩
  rcases bind_eq_error h with hsignals | ⟨_, -, h⟩
  · exact .inr ⟨binding, .inl hsignals⟩
  rcases bind_eq_error h with hleverage | ⟨_, -, hpure⟩
  · exact .inr ⟨binding, .inr hleverage⟩
  · cases hpure

theorem assemble_eq_ok (h : assemble settings className d p = .ok m) :
    p.binding.code = .ok m.indicatorLines ∧ m.className = className ∧ m.entrySignals = p.entries ∧
      m.exitSignals = p.exits ∧ m.leverage = p.routine := by
  obtain ⟨roi, -, h⟩ := exists_of_bind_ok h
  obtain ⟨lines, hlines, h⟩ := exists_of_bind_ok h
  cases h
  exact ⟨ok_of_mapError_ok hlines, rfl, rfl, rfl, rfl⟩

/-- What a module takes over from the parameters and from the whole plan. -/
structure Assembled (p : Plan) (parameters : Parameters) (m : StrategyModule) : Prop where
  minimalRoi : sortedRoi parameters.minimalRoi = .ok m.minimalRoi
  stoploss : m.stoploss = parameters.stoploss
  trailingStopPositive : m.trailingStopPositive = parameters.trailingStopPositive
  trailingStopPositiveOffset : m.trailingStopPositiveOffset = parameters.trailingStopPositiveOffset
  startupCandleCount :
    m.startupCandleCount = (parameters.startupCandleCount.map Int.ofNat).getD p.startup
  usesTalib : m.usesTalib = p.imports.contains "talib"
  usesQtpylib : m.usesQtpylib = p.imports.contains "qtpylib"
  usesZoneinfo : m.usesZoneinfo = p.imports.contains "zoneinfo"

theorem assemble_assembled (h : assemble settings className d p = .ok m) :
    Assembled p d.parameters m := by
  obtain ⟨roi, hroi, hrest⟩ := exists_of_bind_ok h
  obtain ⟨lines, -, hm⟩ := exists_of_bind_ok hrest
  cases hm
  exact ⟨ok_of_mapError_ok hroi, rfl, rfl, rfl, rfl, rfl, rfl, rfl⟩

/-- The text of a module is that of its lines, and it has passed the check if there is one. -/
theorem writeModule_eq_ok_iff {code : String} :
    writeModule settings m = .ok code ↔ ∃ lines, m.lines = .ok lines ∧ code = unlines lines ∧
      (settings.output.validateSyntax = true →
        OutputCheck.problems code (some m.className) = []) := by
  cases hlines : m.lines with
  | error reason =>
    simp [writeModule, StrategyModule.render, hlines, bind, Except.bind, Except.mapError]
  | ok lines =>
    have hrender : m.render = .ok (unlines lines) := by
      simp [StrategyModule.render, hlines, bind, Except.bind, pure, Except.pure, unlines]
    simp only [writeModule, hrender, Except.mapError, bind, Except.bind, pure, Except.pure,
      Except.ok.injEq, exists_eq_left']
    constructor
    · intro h
      split at h
      · split at h
        · next hproblems =>
          cases h
          exact ⟨rfl, fun _ => hproblems⟩
        · cases h
      · next hoff =>
        cases h
        exact ⟨rfl, fun hon => absurd hon hoff⟩
    · rintro ⟨rfl, hcheck⟩
      split
      · next hon => simp [hcheck hon]
      · rfl

/-- The stages of a compilation that succeeded. -/
theorem compileDocument_eq_ok {g : Generated}
    (h : compileDocument settings registry className d = .ok g) :
    ∃ p m, plan settings registry d = .ok p ∧ assemble settings className d p = .ok m ∧
      writeModule settings m = .ok g.code ∧
      g.warnings = (p.routine.map Routine.warnings).getD [] := by
  obtain ⟨p, hplan, h⟩ := exists_of_bind_ok h
  obtain ⟨m, hassemble, h⟩ := exists_of_bind_ok h
  obtain ⟨code, hwrite, h⟩ := exists_of_bind_ok h
  cases h
  exact ⟨p, m, hplan, hassemble, hwrite, rfl⟩

/-- What is written after the plan fails for reasons of its own. -/
theorem compileDocument_eq_error (h : compileDocument settings registry className d = .error e) :
    plan settings registry d = .error e ∨ e.kind = .internal := by
  rcases bind_eq_error h with hplan | ⟨p, -, h⟩
  · exact .inl hplan
  right
  rcases bind_eq_error h with hassemble | ⟨m, -, h⟩
  · rcases bind_eq_error hassemble with hroi | ⟨_, -, hassemble⟩
    · obtain ⟨reason, -, rfl⟩ := mapError_eq_error hroi
      rfl
    rcases bind_eq_error hassemble with hcode | ⟨_, -, hpure⟩
    · obtain ⟨reason, -, rfl⟩ := mapError_eq_error hcode
      rfl
    · cases hpure
  rcases bind_eq_error h with hwrite | ⟨_, -, hpure⟩
  · rcases bind_eq_error hwrite with hrender | ⟨_, -, hcheck⟩
    · obtain ⟨reason, -, rfl⟩ := mapError_eq_error hrender
      rfl
    · split at hcheck
      · split at hcheck
        · cases hcheck
        · cases hcheck
          rfl
      · cases hcheck
  · cases hpure

/-- The stages of a generation that succeeded. -/
theorem generate_eq_ok_iff {raw : Value} {g : Generated} :
    generate settings registry raw name = .ok g ↔ ∃ className d,
      requireName settings.limits name = .ok className ∧ prepare settings.limits raw = .ok d ∧
      compileDocument settings registry className d = .ok g := by
  unfold generate
  cases requireName settings.limits name with
  | error reason => simp [bind, Except.bind]
  | ok className =>
    cases prepare settings.limits raw with
    | error reason => simp [bind, Except.bind]
    | ok d => simp [bind, Except.bind]

/-- The stages of a generation whose text has not passed the check. -/
theorem generate_eq_output {raw : Value} {problems : List OutputProblem}
    (hprepare : prepare settings.limits raw = .ok d) (hplan : plan settings registry d = .ok p)
    (h : generate settings registry raw name = .error (.output problems)) :
    ∃ className m lines, requireName settings.limits name = .ok className ∧
      assemble settings className d p = .ok m ∧ m.lines = .ok lines ∧
      problems = OutputCheck.problems (unlines lines) (some className) := by
  rcases bind_eq_error h with hname | ⟨className, hname, h⟩
  · rcases bind_eq_error hname with hcheck | ⟨-, -, hpure⟩
    · obtain ⟨reason, -, hreason⟩ := mapError_eq_error hcheck
      cases hreason
    · cases hpure
  rcases bind_eq_error h with hno | ⟨document, hdocument, h⟩
  · cases hprepare.symm.trans hno
  cases hprepare.symm.trans hdocument
  rcases bind_eq_error h with hno | ⟨q, hq, h⟩
  · cases hplan.symm.trans hno
  cases hplan.symm.trans hq
  rcases bind_eq_error h with hassemble | ⟨m, hassemble, h⟩
  · rcases bind_eq_error hassemble with hroi | ⟨roi, -, hassemble⟩
    · obtain ⟨reason, -, hreason⟩ := mapError_eq_error hroi
      cases hreason
    · rcases bind_eq_error hassemble with hcode | ⟨lines, -, hpure⟩
      · obtain ⟨reason, -, hreason⟩ := mapError_eq_error hcode
        cases hreason
      · cases hpure
  rcases bind_eq_error h with hwrite | ⟨code, -, hpure⟩
  · rcases bind_eq_error hwrite with hrender | ⟨code, hrender, hcheck⟩
    · obtain ⟨reason, -, hreason⟩ := mapError_eq_error hrender
      cases hreason
    · obtain ⟨lines, hlines, hcode⟩ := exists_of_bind_ok (ok_of_mapError_ok hrender)
      cases hcode
      refine ⟨className, m, lines, hname, hassemble, hlines, ?_⟩
      rw [← (assemble_eq_ok hassemble).2.1]
      split at hcheck
      · split at hcheck
        · cases hcheck
        · cases hcheck
          rfl
      · cases hcheck
  · cases hpure

/-! ## Masks -/

theorem emitMask_eq_ok {mask : Code} (h : emitMask context s c = .ok (mask, t)) :
    ∃ e, Emission.build context 1 (.condition c) = .ok e ∧
      mask = (Emission.asMask context.scope e).code := by
  unfold emitMask at h
  split at h
  · next e _ hemit =>
    cases h
    obtain ⟨built, hbuild, rfl⟩ := Emission.emitCondition_eq_ok (congrArg Prod.fst hemit)
    exact ⟨built, hbuild, rfl⟩
  · cases h

theorem emitMask_eq_error {tally : Tally} (h : emitMask context tally c = .error e) : ∃ reason,
      (Emission.emitCondition context (.condition c) tally).1 = .error reason ∧
        e = .emission reason := by
  unfold emitMask at h
  split at h
  · cases h
  · next reason _ hemit =>
    cases h
    exact ⟨reason, by rw [hemit], rfl⟩

/-- The trees that are emitted for some directions: entry, then exit. -/
def Document.signalTrees (d : Document) (directions : List Direction) : List Condition :=
  directions.flatMap fun direction => (d.signal direction).elim [] SignalConfig.trees

/-- The entry and exit trees of the traded directions. -/
def Document.tradedTrees (d : Document) : List Condition :=
  d.signalTrees d.positionMode.directions

/-- The signals of the first direction are there and emitted, entry before exit, and the others go
on from there. -/
theorem emitSignals_cons_eq_ok {direction : Direction} {rest : List Direction}
    (h : emitSignals context d s (direction :: rest) = .ok (entries, exits, t)) :
    ∃ signal entry exit es xs u v, d.signal direction = some signal ∧
      emitMask context s signal.entry = .ok (entry, u) ∧
      emitMask context u signal.exit = .ok (exit, v) ∧
      emitSignals context d v rest = .ok (es, xs, t) ∧
      entries = ⟨(signalColumns direction).1, entry⟩ :: es ∧
      exits = ⟨(signalColumns direction).2, exit⟩ :: xs := by
  rw [emitSignals] at h
  split at h
  · cases h
  · next signal hsignal =>
    obtain ⟨⟨entry, u⟩, hentry, h⟩ := exists_of_bind_ok h
    obtain ⟨⟨exit, v⟩, hexit, h⟩ := exists_of_bind_ok h
    obtain ⟨⟨es, xs, w⟩, hrest, h⟩ := exists_of_bind_ok h
    cases h
    exact ⟨signal, entry, exit, es, xs, u, v, hsignal, hentry, hexit, hrest, rfl, rfl⟩

/-- The signals fail over a direction that has none, or over a tree that is not emitted. -/
theorem emitSignals_eq_error (h : emitSignals context d s directions = .error e) :
    ∃ direction ∈ directions,
      (d.signal direction = none ∧ e = .signalsMissing d.positionMode direction) ∨
      ∃ signal, d.signal direction = some signal ∧ ∃ c ∈ signal.trees, ∃ tally reason,
        (Emission.emitCondition context (.condition c) tally).1 = .error reason ∧
          e = .emission reason := by
  induction directions generalizing s with
  | nil => cases h
  | cons direction rest ih =>
    rw [emitSignals] at h
    split at h
    · next hnone =>
      cases h
      exact ⟨direction, List.mem_cons_self, .inl ⟨hnone, rfl⟩⟩
    next signal hsignal =>
    rcases bind_eq_error h with hentry | ⟨_, -, h⟩
    · exact ⟨direction, List.mem_cons_self, .inr ⟨signal, hsignal, signal.entry,
        by simp [SignalConfig.trees], _, emitMask_eq_error hentry⟩⟩
    rcases bind_eq_error h with hexit | ⟨_, -, h⟩
    · exact ⟨direction, List.mem_cons_self, .inr ⟨signal, hsignal, signal.exit,
        by simp [SignalConfig.trees], _, emitMask_eq_error hexit⟩⟩
    rcases bind_eq_error h with hrest | ⟨_, -, hpure⟩
    · obtain ⟨other, hother, hfails⟩ := ih hrest
      exact ⟨other, List.mem_cons_of_mem _ hother, hfails⟩
    · cases hpure

/-- Every mask is that of an entry or exit tree. -/
theorem emitSignals_masks (h : emitSignals context d s directions = .ok (entries, exits, t)) :
    ∀ line ∈ entries ++ exits, ∃ c ∈ d.signalTrees directions, ∃ e,
      Emission.build context 1 (.condition c) = .ok e ∧
        line.mask = (Emission.asMask context.scope e).code := by
  induction directions generalizing s entries exits with
  | nil =>
    cases h
    simp
  | cons direction rest ih =>
    obtain ⟨signal, entry, exit, es, xs, u, v, hsignal, hentry, hexit, hothers, rfl, rfl⟩ :=
      emitSignals_cons_eq_ok h
    obtain ⟨a, ha, hamask⟩ := emitMask_eq_ok hentry
    obtain ⟨b, hb, hbmask⟩ := emitMask_eq_ok hexit
    have htrees : d.signalTrees (direction :: rest) =
        [signal.entry, signal.exit] ++ d.signalTrees rest := by
      simp [Document.signalTrees, SignalConfig.trees, hsignal]
    obtain ⟨hes, hxs⟩ := List.forall_mem_append.mp (ih hothers)
    rw [htrees]
    refine List.forall_mem_append.mpr
      ⟨List.forall_mem_cons.mpr ⟨⟨_, by simp, a, ha, hamask⟩, fun line hline => ?_⟩,
        List.forall_mem_cons.mpr ⟨⟨_, by simp, b, hb, hbmask⟩, fun line hline => ?_⟩⟩
    · obtain ⟨c, hc, hmask⟩ := hes line hline
      exact ⟨c, List.mem_append_right _ hc, hmask⟩
    · obtain ⟨c, hc, hmask⟩ := hxs line hline
      exact ⟨c, List.mem_append_right _ hc, hmask⟩

theorem emitMask_records {mask : Code} (h : emitMask context s c = .ok (mask, t)) :
    Emission.Records context c.preorder s t := by
  unfold emitMask at h
  split at h
  · next e _ hemit =>
    cases h
    exact Emission.emitCondition_records hemit
  · cases h

/-- The signals leave in the tally what the trees of their directions account for. -/
theorem emitSignals_records (h : emitSignals context d s directions = .ok (entries, exits, t)) :
    Emission.Records context ((d.signalTrees directions).flatMap Condition.preorder) s t := by
  induction directions generalizing s entries exits with
  | nil =>
    cases h
    exact .nil
  | cons direction rest ih =>
    obtain ⟨signal, _, _, _, _, _, _, hsignal, hentry, hexit, hothers, -, -⟩ :=
      emitSignals_cons_eq_ok h
    have hboth := (emitMask_records hentry).append (emitMask_records hexit)
    have hall := hboth.append (ih hothers)
    simpa [Document.signalTrees, SignalConfig.trees, hsignal] using hall

/-! ## Soundness -/

theorem requireName_eq_ok {limits : Limits} (h : requireName limits name = .ok className) :
    isClassWord (Text.chomp className.toList) = true := by
  simp only [requireName, bind, Except.bind, pure, Except.pure] at h
  split at h
  · cases h
  next hcheck =>
  cases h
  unfold checkClassName at hcheck
  split at hcheck
  · cases hcheck
  split at hcheck
  · cases hcheck
  split at hcheck
  · cases hcheck
  · next hword => simpa using hword

theorem nameChar_of_isClassWord {cs : List Char} (h : isClassWord cs = true) :
    ∀ c ∈ cs, Script.nameChar c = true := fun c hc => by
  simp [Script.nameChar, isAlphanum_of_isClassWord h c hc]

/-- A class name that is accepted has only word characters, and it may end in a line feed. -/
theorem forall_of_isClassWord (h : isClassWord (Text.chomp className.toList) = true)
    {P : Char → Prop} (hname : ∀ c, Script.nameChar c = true → P c) (hfeed : P '\n') :
    ∀ c ∈ className.toList, P c := by
  have hword : ∀ c ∈ Text.chomp className.toList, P c := fun c hc =>
    hname c (nameChar_of_isClassWord h c hc)
  rcases chomp_cases className.toList with hclass | hclass
  · rwa [← hclass] at hword
  · rw [hclass]
    exact List.forall_mem_append.mpr ⟨hword, List.forall_mem_singleton.mpr hfeed⟩

theorem quiet_of_isClassWord (h : isClassWord (Text.chomp className.toList) = true) :
    ∀ c ∈ className.toList, Scan.isQuiet c = true ∧ c ≠ '\r' := by
  refine forall_of_isClassWord h (fun c hc => ⟨isQuiet_of_nameChar hc, ?_⟩) (by decide)
  rintro rfl
  exact absurd hc (by decide)

/-- The code of a binding is that of its indicators, block by block. -/
theorem Binding.code_eq_ok (h : b.code = .ok lines) :
    ∃ blocks : List (BoundIndicator × List String), blocks.map Prod.fst = b.indicators ∧
      (∀ e ∈ blocks, e.1.code = .ok e.2) ∧ lines = blocks.flatMap Prod.snd := by
  obtain ⟨blocks, hblocks, h⟩ := exists_of_bind_ok h
  cases h
  obtain ⟨hlength, hcode⟩ := List.forall₂_iff_zip.mp ((mapM_eq_ok_iff _ _ _).mp hblocks)
  refine ⟨b.indicators.zip blocks, List.map_fst_zip hlength.le, fun e he => hcode he, ?_⟩
  rw [List.flatMap_def, List.map_snd_zip hlength.ge]

theorem compileLeverage_of_enabled {l : LeverageSettings} (hl : l.enabled = true)
    {routine? : Option Routine} (h : compileLeverage settings b (some l) = .ok routine?) :
    ∃ r, routine? = some r ∧
      Leverage.compile b settings.leverage settings.limits.maxDepth l = .ok r := by
  rw [compileLeverage, if_pos hl] at h
  obtain ⟨r, hr, rfl⟩ := map_eq_ok (ok_of_mapError_ok h)
  exact ⟨r, rfl, hr⟩

theorem compileLeverage_eq_some {leverage : Option LeverageSettings} {r : Routine}
    (h : compileLeverage settings b leverage = .ok (some r)) :
    ∃ l, leverage = some l ∧ l.enabled = true ∧
      Leverage.compile b settings.leverage settings.limits.maxDepth l = .ok r := by
  cases leverage with
  | none => cases h
  | some l =>
    cases hl : l.enabled with
    | false => simp [compileLeverage, hl] at h
    | true =>
      obtain ⟨routine, hroutine, hcompile⟩ := compileLeverage_of_enabled hl h
      cases hroutine
      exact ⟨l, rfl, hl, hcompile⟩

/-- **The module of a document is sound**, with the built-in indicators. -/
theorem assemble_sound (hname : isClassWord (Text.chomp className.toList) = true)
    (hplan : plan settings .builtin d = .ok p)
    (hassemble : assemble settings className d p = .ok m) :
    m.Sound := by
  obtain ⟨hbind, hsignals, hleverage⟩ := plan_eq_ok hplan
  obtain ⟨hcode, hclass, hentries, hexits, hroutine⟩ := assemble_eq_ok hassemble
  have hcompiled : ∀ r ∈ m.leverage, ∃ l,
      Leverage.compile p.binding settings.leverage settings.limits.maxDepth l = .ok r := by
    intro r hr
    rw [hroutine] at hr
    rw [hr] at hleverage
    obtain ⟨l, -, -, hl⟩ := compileLeverage_eq_some hleverage
    exact ⟨l, hl⟩
  refine ⟨?_, ?_, ?_, ?_, ?_⟩
  · rw [hclass]
    exact quiet_of_isClassWord hname
  · intro line hline
    obtain ⟨blocks, hindicators, hblocks, hlines⟩ := Binding.code_eq_ok hcode
    rw [hlines] at hline
    obtain ⟨e, he, hline⟩ := List.mem_flatMap.mp hline
    have hmem : e.1 ∈ p.binding.indicators := hindicators ▸ List.mem_map_of_mem he
    exact (Registry.bind_sound hbind e.1 hmem).code_bland (hblocks e he) line hline
  · rw [hentries, hexits]
    intro s hs
    obtain ⟨c, -, e, hbuild, hmask⟩ := emitSignals_masks hsignals s hs
    rw [hmask]
    exact Emission.asMask_grouped hbuild
  · intro r hr
    obtain ⟨l, hl⟩ := hcompiled r hr
    obtain ⟨compiled, hparts⟩ := Leverage.compile_parts hl
    exact hparts.whole
  · intro r hr
    obtain ⟨l, hl⟩ := hcompiled r hr
    exact Leverage.compile_comments hl

/-! ## Texts that pass -/

namespace OutputCheck

theorem occurs_append (word before after : List Char) :
    occurs word (before ++ (word ++ after)) = true := by
  induction before with
  | nil =>
    cases word with
    | nil => cases after <;> simp [occurs]
    | cons c word => simp [occurs]
  | cons c before ih => simp [occurs, ih]

theorem occurs_unlines {line : String} {lines : List String} (h : line ∈ lines) :
    occurs line.toList (unlines lines).toList = true := by
  obtain ⟨above, below, rfl⟩ := List.mem_iff_append.mp h
  have hsplit : (unlines (above ++ line :: below)).toList =
      Scan.written above ++ (line.toList ++ '\n' :: Scan.written below) := by
    simp [toList_unlines, Scan.written]
  rw [hsplit]
  exact occurs_append _ _ _

/-- The check on the characters of a text, apart from the import. -/
def passes (expected : String) (cs : List Char) : Bool :=
  match Scan.scan {} (Scan.unifyBreaks cs) with
  | .error _ => false
  | .ok lines =>
    match classes lines with
    | .error _ => false
    | .ok blocks =>
      match blocks.filter (·.head.bases.contains baseName) with
      | [b] => b.head.name == expected && requiredMethods.all (b.methods.contains ·)
      | _ => false

theorem problems_of_passes {lines : List String} {expected : String}
    (himport : importLine ∈ lines) (h : passes expected (Scan.written lines) = true) :
    problems (unlines lines) (some expected) = [] := by
  rw [passes] at h
  rw [problems, Scan.logicalLines, toList_unlines]
  -- both sides look at the same three results, so each is taken apart in both at once
  generalize Scan.scan {} (Scan.unifyBreaks (Scan.written lines)) = scanned at h ⊢
  cases scanned with
  | error fault => cases h
  | ok logical =>
    dsimp only at h ⊢
    generalize classes logical = classed at h ⊢
    cases classed with
    | error line => cases h
    | ok blocks =>
      dsimp only at h ⊢
      generalize blocks.filter (·.head.bases.contains baseName) = found at h ⊢
      rcases found with _ | ⟨b, _ | ⟨c, rest⟩⟩
      · cases h
      · simp only [Bool.and_eq_true, beq_iff_eq, List.all_eq_true] at h
        have hmissing : requiredMethods.filter (! b.methods.contains ·) = [] := by
          rw [List.filter_eq_nil_iff]
          intro method hmethod
          rw [h.2 method hmethod]
          decide
        simp only [blockProblems, h.1, hmissing, occurs_unlines himport, if_true, List.map_nil,
          List.append_nil]
      · cases h

end OutputCheck

/-- The lines that a document compiles to, before the check. -/
def moduleLines (settings : Settings) (registry : Registry) (className : String) (d : Document) :
    Option (List String) := do
  let p ← (plan settings registry d).toOption
  let m ← (assemble settings className d p).toOption
  m.lines.toOption

theorem compileDocument_of_moduleLines (h : moduleLines settings registry className d = some lines)
    (hcheck : settings.output.validateSyntax = true →
      OutputCheck.problems (unlines lines) (some className) = []) :
    ∃ g, compileDocument settings registry className d = .ok g ∧ g.code = unlines lines := by
  obtain ⟨p, hp, h⟩ := Option.bind_eq_some_iff.mp h
  obtain ⟨m, hm, hlines⟩ := Option.bind_eq_some_iff.mp h
  have hassemble := toOption_eq_some hm
  have hclass : m.className = className := (assemble_eq_ok hassemble).2.1
  have hwrite : writeModule settings m = .ok (unlines lines) :=
    writeModule_eq_ok_iff.mpr ⟨lines, toOption_eq_some hlines, rfl, hclass ▸ hcheck⟩
  refine ⟨⟨unlines lines, (p.routine.map Routine.warnings).getD []⟩, ?_, rfl⟩
  simp only [compileDocument, toOption_eq_some hp, hassemble, hwrite, bind, Except.bind, pure,
    Except.pure]

/-- The same for the built-in types and for ids that are names. The code of the indicators is not
cut into lines again, and so the kernel is faster on it. -/
def snippetLines (settings : Settings) (className : String) (d : Document) :
    Option (List String) := do
  let p ← (plan settings .builtin d).toOption
  let m ← (assemble settings className d p).toOption
  let indicatorLines ← p.binding.texts.toOption
  if p.binding.indicators.all fun i => Script.isName i.id.toList then
    StrategyModule.lines { m with indicatorLines := indicatorLines } |>.toOption
  else none

theorem moduleLines_of_snippetLines (h : snippetLines settings className d = some lines) :
    moduleLines settings .builtin className d = some lines := by
  obtain ⟨p, hp, h⟩ := Option.bind_eq_some_iff.mp h
  obtain ⟨m, hm, h⟩ := Option.bind_eq_some_iff.mp h
  obtain ⟨texts, htexts, h⟩ := Option.bind_eq_some_iff.mp h
  split at h
  · next hnames =>
    have hbind := (plan_eq_ok (toOption_eq_some hp)).1
    have hscoped : ∀ i ∈ p.binding.indicators, i.Scoped := fun i hi =>
      ⟨Registry.bind_sound hbind i hi, Registry.bind_isScoped hbind i hi,
        List.all_eq_true.mp hnames i hi⟩
    have hcode := (assemble_eq_ok (toOption_eq_some hm)).1
    cases hcode.symm.trans (Binding.code_eq hscoped (toOption_eq_some htexts))
    simp only [moduleLines, hp, hm, bind, Option.bind]
    exact h
  · cases h

/-! ## A sample -/

/-- A document in its raw form. The id of the second indicator is a helper of the first one, and one
of its leverage rules is switched off. -/
def sampleRaw : Value :=
  let output (id field : String) : Value :=
    .object [("type", .text "INDICATOR"), ("indicator_id", .text id), ("field", .text field)]
  let close : Value := .object [("type", .text "PRICE"), ("field", .text "close")]
  let compare (left : Value) (operator : String) (right : Value) : Value :=
    .object [("type", .text "COMPARE"), ("left", left), ("operator", .text operator),
      ("right", right)]
  let bands (id : String) : Value :=
    .object [("id", .text id), ("type", .text "SUPERTREND"), ("params", .object [])]
  let twice : Value := .object [("type", .text "CONSTANT"), ("value", .int 2)]
  .object [("version", .int 2), ("indicators", .list [bands "b", bands "b_hl2"]),
    ("long", .object [
      ("entry_conditions", compare close "gt" (output "b" "upper")),
      ("exit_conditions", compare close "lt" (output "b_hl2" "lower"))]),
    ("leverage", .object [("rules", .list [
      .object [("id", .text "off"), ("enabled", .bool false), ("leverage", twice)],
      .object [("id", .text "on"), ("leverage", twice),
        ("condition", compare close "gt" (output "b" "lower"))]])])]

/-- The lines of the module of this document. -/
def sampleLines : List String := [
  "# Generated by strategy-compiler from a strategy builder document.",
  "# Changes made here are lost when the strategy is regenerated.",
  "from datetime import datetime",
  "from typing import Optional",
  "",
  "import numpy as np",
  "import pandas as pd",
  "import talib.abstract as ta",
  "from pandas import DataFrame",
  "",
  "from freqtrade.strategy import IStrategy",
  "",
  "",
  "class Sample(IStrategy):",
  "    INTERFACE_VERSION = 3",
  "",
  "    timeframe = '5m'",
  "    can_short = False",
  "",
  "    stoploss = -0.1",
  "    minimal_roi = \x7b",
  "        '0': 0.1,",
  "    \x7d",
  "",
  "    trailing_stop = False",
  "",
  "    use_exit_signal = True",
  "    startup_candle_count = 11",
  "",
  "    def populate_indicators(self, dataframe: DataFrame, metadata: dict) -> DataFrame:",
  "        b_atr = ta.ATR(dataframe, timeperiod=10)",
  "        b_hl2 = (dataframe['high'] + dataframe['low']) / 2",
  "        dataframe['b_upper'] = b_hl2 + (3.0 * b_atr)",
  "        dataframe['b_lower'] = b_hl2 - (3.0 * b_atr)",
  "        b_hl2_atr = ta.ATR(dataframe, timeperiod=10)",
  "        b_hl2_hl2 = (dataframe['high'] + dataframe['low']) / 2",
  "        dataframe['b_hl2_upper'] = b_hl2_hl2 + (3.0 * b_hl2_atr)",
  "        dataframe['b_hl2_lower'] = b_hl2_hl2 - (3.0 * b_hl2_atr)",
  "        return dataframe",
  "",
  "    def populate_entry_trend(self, dataframe: DataFrame, metadata: dict) -> DataFrame:",
  "        dataframe.loc[(dataframe['close'] > dataframe['b_upper']), 'enter_long'] = 1",
  "        return dataframe",
  "",
  "    def populate_exit_trend(self, dataframe: DataFrame, metadata: dict) -> DataFrame:",
  "        dataframe.loc[(dataframe['close'] < dataframe['b_hl2_lower']), 'exit_long'] = 1",
  "        return dataframe",
  "",
  "    def leverage(self, pair: str, current_time: datetime, current_rate: float,",
  "                 proposed_leverage: float, max_leverage: float, entry_tag: Optional[str],",
  "                 side: str, **kwargs) -> float:",
  "        is_short = side == 'short'",
  "        dataframe, _ = self.dp.get_analyzed_dataframe(pair, self.timeframe)",
  "        if len(dataframe) < 1:",
  "            return min(1.0, max_leverage)",
  "        last_candle = dataframe.iloc[-1]",
  "",
  "        # on (priority 0)",
  "        if (last_candle['close'] > last_candle['b_lower']):",
  "            return min(2, max_leverage)",
  "",
  "        # Fallback leverage (no unconditional rule)",
  "        return min(1.0, max_leverage)"]

theorem sampleLines_pass : OutputCheck.problems (unlines sampleLines) (some "Sample") = [] := by
  have hcons {line : String} {lines : List String} {cs ds : List Char} (h : line.toList = cs)
      (hs : Scan.written lines = ds) : Scan.written (line :: lines) = cs ++ '\n' :: ds := by
    simp [Scan.written, ← h, ← hs]
  -- The lines are taken apart one by one, since the kernel is slow on whole texts.
  have hpasses : ∃ cs, Scan.written sampleLines = cs ∧ OutputCheck.passes "Sample" cs = true := by
    apply Exists.intro
    apply And.intro
    · unfold sampleLines
      repeat apply hcons String.toList_ofList
      exact rfl
    · decide +kernel
  obtain ⟨cs, hcs, hpasses⟩ := hpasses
  refine OutputCheck.problems_of_passes (by simp [sampleLines, OutputCheck.importLine]) ?_
  rw [hcs]
  exact hpasses

theorem sample_compiles : ∃ d g l, prepare {} sampleRaw = .ok d ∧
    compileDocument {} .builtin "Sample" d = .ok g ∧ g.code = unlines sampleLines ∧
    d.leverage = some l ∧ l.enabled = true ∧ l.rules.map LeverageRule.enabled = [false, true] := by
  have hsample : ((prepare {} sampleRaw).toOption.any fun d =>
      snippetLines {} "Sample" d == some sampleLines && d.leverage.any fun l =>
        l.enabled && l.rules.map LeverageRule.enabled == [false, true]) = true := by
    decide +kernel
  obtain ⟨d, hd, hsample⟩ := (Option.any_eq_true _ _).mp hsample
  simp only [Bool.and_eq_true, beq_iff_eq] at hsample
  obtain ⟨l, hl, hrules⟩ := (Option.any_eq_true _ _).mp hsample.2
  simp only [Bool.and_eq_true, beq_iff_eq] at hrules
  have hlines := moduleLines_of_snippetLines hsample.1
  obtain ⟨g, hcompile, hcode⟩ := compileDocument_of_moduleLines hlines fun _ => sampleLines_pass
  exact ⟨d, g, l, toOption_eq_some hd, hcompile, hcode, hl, hrules⟩

end Stratagem
