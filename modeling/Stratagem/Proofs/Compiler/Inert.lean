import Stratagem.Proofs.Compiler.Essence
import Stratagem.Proofs.Compiler.Pipeline

/-! Parts of a document that make no difference. Documents of one essence compile alike, and another
name for a leverage rule changes the one line that holds its comment: all lines above are tidy, so
the check of the written text reads over the comment whatever it says. -/

namespace Stratagem

namespace OutputCheck

/-- A text that holds the import is only judged by its lines. -/
theorem problems_congr {a b : String} (hlines : Scan.logicalLines a = Scan.logicalLines b)
    (ha : occurs importLine.toList a.toList = true)
    (hb : occurs importLine.toList b.toList = true) (expected : Option String) :
    problems a expected = problems b expected := by
  have hblock : blockProblems a expected = blockProblems b expected := by
    funext block
    simp only [blockProblems, ha, hb]
  simp only [problems, hlines, hblock]

/-- The check reads over a comment behind tidy lines. -/
theorem problems_comment {above below : List String} {old new : String}
    (habove : ∀ line ∈ above, Scan.Tidy line) (himport : importLine ∈ above)
    (hold : ∀ c ∈ old.toList, Script.isInline c = true)
    (hnew : ∀ c ∈ new.toList, Script.isInline c = true) (expected : Option String) :
    problems (unlines (above ++ ("        # " ++ old) :: below)) expected =
      problems (unlines (above ++ ("        # " ++ new) :: below)) expected := by
  have hwritten : ∀ text : String,
      (unlines (above ++ ("        # " ++ text) :: below)).toList = Scan.written above ++
        ("        ".toList ++ '#' :: ((' ' :: text.toList) ++ '\n' :: Scan.written below)) := by
    intro text
    simp [toList_unlines, Scan.written]
  refine problems_congr ?_ (occurs_unlines (List.mem_append_left _ himport))
    (occurs_unlines (List.mem_append_left _ himport)) expected
  rw [Scan.logicalLines, Scan.logicalLines, hwritten, hwritten]
  exact Scan.scan_comment_congr habove (by decide) (List.forall_mem_cons.mpr ⟨rfl, hold⟩)
    (List.forall_mem_cons.mpr ⟨rfl, hnew⟩) _

end OutputCheck

namespace Leverage

theorem Recommented.same {old new : String} {r s : Routine} (h : Recommented old new r s) :
    s.imports = r.imports ∧ s.minCandles = r.minCandles ∧ s.warnings = r.warnings := by
  cases h <;> exact ⟨rfl, rfl, rfl⟩

/-- The module with the other routine differs in one comment line, below the header. -/
theorem lines_recommented {old new : String} {r s : Routine} (h : Recommented old new r s)
    {m : StrategyModule} (hm : m.leverage = some r) {lines : List String}
    (hlines : m.lines = .ok lines) :
    ∃ above below, lines = m.header ++ above ++ ("        # " ++ old) :: below ∧
      { m with leverage := some s }.lines =
        .ok (m.header ++ above ++ ("        # " ++ new) :: below) := by
  obtain ⟨attributes, method, hattributes, hmethod, rfl⟩ :=
    StrategyModule.lines_eq_ok_iff.mp hlines
  rw [hm] at hmethod
  obtain ⟨above, below, rfl, hother⟩ := leverageMethod_recommented h hmethod
  refine ⟨attributes ++ m.tableMethods ++ above, below, by simp, ?_⟩
  refine StrategyModule.lines_eq_ok_iff.mpr ⟨attributes, _, hattributes, hother, ?_⟩
  simp [StrategyModule.header, StrategyModule.tableMethods]

end Leverage

/-! ## Renamed rules -/

/-- The document with another leverage section. -/
def Document.withLeverage (d : Document) (l : LeverageSettings) : Document :=
  { d with leverage := some l }

theorem emitSignals_withLeverage (context : EmissionContext) (d : Document) (l : LeverageSettings)
    (tally : Tally) (directions : List Direction) :
    emitSignals context (d.withLeverage l) tally directions =
      emitSignals context d tally directions := by
  induction directions generalizing tally with
  | nil => rfl
  | cons direction rest ih =>
    have hsignal : (d.withLeverage l).signal direction = d.signal direction := by
      cases direction <;> rfl
    have hmode : (d.withLeverage l).positionMode = d.positionMode := rfl
    simp only [emitSignals, hsignal, hmode, ih]

theorem plan_withLeverage {settings : Settings} {registry : Registry} {d : Document} {p : Plan}
    (h : plan settings registry d = .ok p) {l : LeverageSettings} (hl : l.enabled = true)
    {routine : Routine} (hroutine : Leverage.compile p.binding settings.leverage
      settings.limits.maxDepth l = .ok routine) :
    plan settings registry (d.withLeverage l) = .ok { p with routine := some routine } := by
  obtain ⟨hbind, hsignals, -⟩ := plan_eq_ok h
  have hindicators : (d.withLeverage l).indicators = d.indicators := rfl
  have hmode : (d.withLeverage l).positionMode = d.positionMode := rfl
  have hleverage : (d.withLeverage l).leverage = some l := rfl
  simp only [plan, hindicators, hmode, hleverage, emitSignals_withLeverage, hbind, hsignals,
    compileLeverage, hl, hroutine, if_true, Except.mapError, Except.map, bind, Except.bind, pure,
    Except.pure]

theorem assemble_withLeverage {settings : Settings} {className : String} {d : Document} {p : Plan}
    {m : StrategyModule} (h : assemble settings className d p = .ok m) (l : LeverageSettings)
    {r s : Routine} (hr : p.routine = some r) (himports : s.imports = r.imports)
    (hcandles : s.minCandles = r.minCandles) :
    assemble settings className (d.withLeverage l) { p with routine := some s } =
      .ok { m with leverage := some s } := by
  have hparameters : (d.withLeverage l).parameters = d.parameters := rfl
  have hmode : (d.withLeverage l).positionMode = d.positionMode := rfl
  have hplan : ({ p with routine := some s } : Plan).imports = p.imports ∧
      ({ p with routine := some s } : Plan).startup = p.startup := by
    simp [Plan.imports, Plan.startup, hr, himports, hcandles]
  simp only [assemble, bind, Except.bind, pure, Except.pure] at h ⊢
  rw [hparameters]
  split at h
  · cases h
  next roi hroi =>
  split at h
  · cases h
  next lines hlines =>
  cases h
  simp only [hmode, hplan.1, hplan.2]

/-- The same text passes the check under either comment. -/
theorem writeModule_recommented {settings : Settings} {m : StrategyModule} {code : String}
    (hwrite : writeModule settings m = .ok code)
    (hsound : settings.output.validateSyntax = true → m.Sound) {old new : String} {r s : Routine}
    (hrs : Leverage.Recommented old new r s) (hm : m.leverage = some r)
    (hold : ∀ c ∈ old.toList, Script.isInline c = true)
    (hnew : ∀ c ∈ new.toList, Script.isInline c = true) :
    ∃ above below, code = unlines (above ++ ("        # " ++ old) :: below) ∧
      writeModule settings { m with leverage := some s } =
        .ok (unlines (above ++ ("        # " ++ new) :: below)) := by
  obtain ⟨lines, hlines, rfl, hcheck⟩ := writeModule_eq_ok_iff.mp hwrite
  obtain ⟨above, below, hsplit, hother⟩ := Leverage.lines_recommented hrs hm hlines
  refine ⟨m.header ++ above, below, by rw [hsplit], ?_⟩
  refine writeModule_eq_ok_iff.mpr ⟨_, hother, rfl, fun hon => ?_⟩
  have htidy := StrategyModule.lines_tidy (hsound hon) hlines
  rw [hsplit] at htidy
  have himport : OutputCheck.importLine ∈ m.header := by
    simp [StrategyModule.header, OutputCheck.importLine]
  rw [← OutputCheck.problems_comment (fun line h => htidy line (List.mem_append_left _ h))
    (List.mem_append_left _ himport) hold hnew, ← hsplit]
  exact hcheck hon

/-- **Parts that are switched off or cosmetic do not influence the module.** Documents of the same
essence compile to the same text and warnings, or fail alike. If a document compiles, then with
another id and label for an enabled rule it compiles to the same lines with the same warnings, but
for the one line that is the comment of this rule. -/
theorem module_of_essence_and_renamed (settings : Settings) (registry : Registry)
    (className : String) :
    (∀ d d' : Document, d.essence = d'.essence →
      compileDocument settings registry className d =
        compileDocument settings registry className d') ∧
    ∀ (d : Document) (l : LeverageSettings) (before after : List LeverageRule) (r : LeverageRule)
      (id label : Option String) (g : Generated),
      (settings.output.validateSyntax = true → registry = .builtin ∧
        requireName settings.limits (some className) = .ok className) →
      d.leverage = some l → l.enabled = true → l.rules = before ++ r :: after →
      r.enabled = true → compileDocument settings registry className d = .ok g →
      ∃ index above below,
        (Leverage.ordered l.rules)[index]? = some r ∧
        (∀ s ∈ [r, r.renamed id label], ∀ c ∈ (Leverage.ruleComment index s).toList,
          Text.isLineBreak c = false) ∧
        g.code = unlines (above ++ ("        # " ++ Leverage.ruleComment index r) :: below) ∧
        compileDocument settings registry className
            (d.withLeverage { l with rules := before ++ r.renamed id label :: after }) =
          .ok ⟨unlines (above ++
            ("        # " ++ Leverage.ruleComment index (r.renamed id label)) :: below),
            g.warnings⟩ := by
  refine ⟨fun d d' h => ?_, ?_⟩
  · rw [← compileDocument_essence, h, compileDocument_essence]
  · intro d l before after r id label g hchecked hleverage hl hrules hr hcompile
    obtain ⟨p, m, hplan, hassemble, hwrite, hwarnings⟩ := compileDocument_eq_ok hcompile
    have hsection := (plan_eq_ok hplan).2.2
    rw [hleverage] at hsection
    obtain ⟨routine, hroutine, hcompiled⟩ := compileLeverage_of_enabled hl hsection
    obtain ⟨index, new, hplace, hnew, hrecommented⟩ :=
      Leverage.compile_renamed hrules hr id label hcompiled
    obtain ⟨himports, hcandles, hsame⟩ := hrecommented.same
    have hsound : settings.output.validateSyntax = true → m.Sound := by
      intro hon
      obtain ⟨rfl, hname⟩ := hchecked hon
      exact assemble_sound (requireName_eq_ok hname) hplan hassemble
    have hm : m.leverage = some routine := by rw [(assemble_eq_ok hassemble).2.2.2.2, hroutine]
    have hcomments := Leverage.isInline_ruleComment index
    obtain ⟨above, below, hcode, hcode'⟩ :=
      writeModule_recommented hwrite hsound hrecommented hm (hcomments r) (hcomments _)
    refine ⟨index, above, below, hplace, fun s _ c hc => ?_, hcode, ?_⟩
    · simpa [Script.isInline] using hcomments s c hc
    have hplan' := plan_withLeverage hplan
      (l := { l with rules := before ++ r.renamed id label :: after }) hl hnew
    have hassemble' := assemble_withLeverage hassemble
      { l with rules := before ++ r.renamed id label :: after } hroutine himports hcandles
    simp only [compileDocument, hplan', hassemble', hcode', bind, Except.bind, pure, Except.pure,
      hwarnings, hroutine, Option.map_some, Option.getD_some, hsame]

/-- The sample without its disabled rule and of another version compiles to the same module. With
another name for its enabled rule, one that has a line break, the comment is another one. -/
theorem sample_of_essence_and_renamed : ∃ (d : Document) (g : Generated) (l : LeverageSettings)
    (off on : LeverageRule), prepare {} sampleRaw = .ok d ∧ d.leverage = some l ∧
    l.rules = [off] ++ on :: [] ∧ off.enabled = false ∧ on.enabled = true ∧
    compileDocument {} .builtin "Sample" d = .ok g ∧
    compileDocument {} .builtin "Sample"
      { d.withLeverage { l with rules := [on] } with version := d.version + 1 } = .ok g ∧
    ∃ index above below,
      (Leverage.ordered l.rules)[index]? = some on ∧
      (∀ s ∈ [on, on.renamed (some "a\nb") none], ∀ c ∈ (Leverage.ruleComment index s).toList,
        Text.isLineBreak c = false) ∧
      g.code = unlines (above ++ ("        # " ++ Leverage.ruleComment index on) :: below) ∧
      compileDocument {} .builtin "Sample"
          (d.withLeverage { l with rules := [off] ++ on.renamed (some "a\nb") none :: [] }) =
        .ok ⟨unlines (above ++
          ("        # " ++ Leverage.ruleComment index (on.renamed (some "a\nb") none)) :: below),
          g.warnings⟩ := by
  obtain ⟨d, g, l, hd, hcompile, -, hleverage, hl, hrules⟩ := sample_compiles
  obtain ⟨off, on, hsplit, hoff, hon⟩ : ∃ off on, l.rules = [off] ++ on :: [] ∧
      off.enabled = false ∧ on.enabled = true := by
    obtain ⟨off, rest, hfirst, hoff, hrest⟩ := List.map_eq_cons_iff.mp hrules
    obtain ⟨on, none, rfl, hon, hnone⟩ := List.map_eq_cons_iff.mp hrest
    rw [List.map_eq_nil_iff] at hnone
    exact ⟨off, on, by rw [hfirst, hnone]; rfl, hoff, hon⟩
  obtain ⟨hessence, hrenamed⟩ := module_of_essence_and_renamed {} .builtin "Sample"
  have hname : requireName {} (some "Sample") = .ok "Sample" := rfl
  refine ⟨d, g, l, off, on, hd, hleverage, hsplit, hoff, hon, hcompile, ?_,
    hrenamed d l [off] [] on (some "a\nb") none g (fun _ => ⟨rfl, hname⟩) hleverage hl hsplit hon
      hcompile⟩
  rw [← hcompile]
  refine hessence _ _ ?_
  simp [Document.essence, Document.withLeverage, LeverageSettings.essence, hleverage, hl, hsplit,
    hoff, hon, Option.filter]

end Stratagem
