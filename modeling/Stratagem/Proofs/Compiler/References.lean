import Stratagem.Proofs.Compiler.Pipeline
import Stratagem.Proofs.Leverage.References
import Stratagem.Proofs.Text.LowerCase

/-! Closed references. A module that has passed the check reads no column and no helper that is not
there: ids that would break a line are found by the check, the columns of all indicators are
distinct, and the helpers of an indicator carry its id. -/

namespace Stratagem

open Script

/-! ## Ids -/

theorem sealed_of_nameChar {quote : Char} (hquote : isQuote quote = true) {cs : List Char}
    (h : ∀ c ∈ cs, nameChar c = true) : Sealed quote cs := by
  induction cs with
  | nil => exact .nil
  | cons c cs ih =>
    obtain ⟨hc, hcs⟩ := List.forall_mem_cons.mp h
    refine .char (isInline_of_wordChar (wordChar_of_nameChar hc)) ?_ ?_ (ih hcs)
    · rintro rfl
      have hall : ∀ e, isQuote e = true → nameChar e = false := by
        intro e he
        rcases (by simpa [isQuote] using he : e = Text.singleQuote ∨ e = Text.doubleQuote) with
          rfl | rfl <;> decide
      rw [hall _ hquote] at hc
      cases hc
    · rintro rfl
      exact absurd hc (by decide)

theorem problems_of_fault {code : String} {fault : Scan.Fault}
    (h : Scan.logicalLines code = .error fault) (expected : Option String) :
    OutputCheck.problems code expected = [.scan fault] := by
  simp only [OutputCheck.problems, h]

/-- A module that has passed the check leaves no column open. -/
theorem StrategyModule.Sound.no_openAccess {m : StrategyModule} (hm : m.Sound)
    {lines : List String} (hlines : m.lines = .ok lines) {expected : Option String}
    (hcheck : OutputCheck.problems (unlines lines) expected = []) {word : String}
    (hword : ∀ c ∈ word.toList, nameChar c = true) : openAccess word ∉ m.indicatorLines := by
  intro hmem
  have htidy := lines_tidy hm hlines
  obtain ⟨attributes, method, -, -, hparts⟩ := lines_eq_ok_iff.mp hlines
  have hline : indicatorLine (openAccess word) ∈ lines := by
    simp [hparts, tableMethods, tableMethod, List.mem_map_of_mem hmem]
  obtain ⟨above, below, rfl⟩ := List.mem_iff_append.mp hline
  have hwritten : (unlines (above ++ indicatorLine (openAccess word) :: below)).toList =
      Scan.written above ++ ("        dataframe[".toList ++
        '\x27' :: (word.toList ++ '\n' :: Scan.written below)) := by
    simp [toList_unlines, Scan.written, indicatorLine, openAccess, tableName]
  have habove : ∀ line ∈ above, Scan.Tidy line :=
    fun line h => htidy line (List.mem_append_left _ h)
  have hbefore : ∀ c ∈ "        dataframe[".toList, Scan.isPlain c = true ∧ c ≠ '\r' := by decide
  have hquote : Scan.isQuote '\x27' = true := rfl
  obtain ⟨fault, hfault⟩ := Scan.scan_open_line habove hbefore hquote
    (sealed_of_nameChar hquote hword) (Scan.written below)
  rw [← hwritten] at hfault
  rw [problems_of_fault hfault] at hcheck
  cases hcheck

/-! ## Reserved columns -/

theorem lower_reservedColumns : ∀ name ∈ reservedColumns, Text.lower name = name := by
  have hsmall : ∀ name ∈ reservedColumns, ∀ c ∈ name.toList, c < 'À' ∧ c.toLower = c := by decide
  intro name hname
  rw [← String.toList_inj, Text.toList_lower_of_plain fun c hc => (hsmall name hname c hc).1]
  exact (List.map_congr_left fun c hc => (hsmall name hname c hc).2).trans (List.map_id' _)

/-! ## Columns -/

/-- A column of market data, or one that exactly one of some lines assigns. -/
def Provided (lines : List String) (column : String) : Prop :=
  column ∈ marketColumns ∨
    lines.countP (fun line => assigned? line = some (.column column)) = 1

theorem countP_assigned (lines : List String) (column : String) :
    lines.countP (fun line => assigned? line = some (.column column)) =
      (lines.filterMap assignedColumn?).count column := by
  rw [List.count_filterMap]
  refine List.countP_congr fun line _ => ?_
  unfold assignedColumn?
  cases assigned? line with
  | none => simp
  | some place => cases place <;> simp

theorem BoundIndicator.Scoped.columns_of_code {i : BoundIndicator} (hi : i.Scoped)
    {block : List String} (h : i.code = .ok block) :
    block.filterMap assignedColumn? = i.columnNames := by
  have hscope := hi.inScope
  simp only [IndicatorSpec.isScoped, Bool.and_eq_true, beq_iff_eq] at hscope
  rw [columns_of_writes (hi.writes h), hscope.1.1.2]
  simp [columnNames, columns, hscope.1.2]

/-! ## Blocks -/

/-- The indicators of a binding with their code, all of them scoped. -/
structure Binding.Blocks (b : Binding) (blocks : List (BoundIndicator × List String)) : Prop where
  indicators : blocks.map Prod.fst = b.indicators
  code : ∀ e ∈ blocks, e.1.code = .ok e.2
  scopes : ∀ e ∈ blocks, e.1.Scoped

namespace Binding.Blocks

variable {b : Binding} {blocks : List (BoundIndicator × List String)}
  {declarations : List IndicatorDeclaration} {r : Registry}

theorem columns (h : b.Blocks blocks) : (blocks.flatMap Prod.snd).filterMap assignedColumn? =
    b.indicators.flatMap BoundIndicator.columnNames := by
  rw [List.filterMap_flatMap, ← h.indicators, List.flatMap_map]
  exact List.flatMap_congr fun e he => (h.scopes e he).columns_of_code (h.code e he)

/-- **A column that a reference means is assigned by exactly one line.** -/
theorem provided (h : b.Blocks blocks) (hbind : r.bind declarations = .ok b) {id column : String}
    {field : Option String} (hcolumn : b.column id field = .ok column) :
    Provided (blocks.flatMap Prod.snd) column := by
  right
  unfold Binding.column at hcolumn
  split at hcolumn
  · cases hcolumn
  next i hi =>
  obtain ⟨p, hp, rfl⟩ := BoundIndicator.column_mem hcolumn
  rw [countP_assigned, h.columns]
  refine List.count_eq_one_of_mem (Registry.bind_distinct hbind).2 ?_
  exact List.mem_flatMap.mpr ⟨i, List.mem_of_find?_eq_some hi, List.mem_map_of_mem hp⟩

/-- **No line assigns a reserved column.** -/
theorem not_reserved (h : b.Blocks blocks) (hbind : r.bind declarations = .ok b) {line : String}
    (hline : line ∈ blocks.flatMap Prod.snd) {column : String}
    (hassigned : assigned? line = some (.column column)) : column ∉ reservedColumns := by
  have hmem : column ∈ b.indicators.flatMap BoundIndicator.columnNames := by
    rw [← h.columns]
    exact List.mem_filterMap.mpr ⟨line, hline, by simp [assignedColumn?, hassigned]⟩
  obtain ⟨i, hi, hcolumn⟩ := List.mem_flatMap.mp hmem
  obtain ⟨p, hp, rfl⟩ := List.mem_map.mp hcolumn
  intro hreserved
  have hfree := Registry.bind_not_reserved hbind i hi p hp
  rw [lower_reservedColumns _ hreserved] at hfree
  exact hfree hreserved

end Binding.Blocks

/-! ## Helpers -/

/-- A helper tells the id of its indicator: no suffix has an underscore. -/
theorem helperName_inj {id id' suffix suffix' : String}
    (h : helperName id suffix = helperName id' suffix') (hsuffix : suffix ∈ helperSuffixes)
    (hsuffix' : suffix' ∈ helperSuffixes) : id = id' := by
  have hplain : ∀ s ∈ helperSuffixes, ∀ c ∈ s.toList.reverse, (c != '_') = true := by decide
  have hdrop : ∀ id s : String, s ∈ helperSuffixes →
      (helperName id s).toList.reverse.dropWhile (· != '_') = '_' :: id.toList.reverse := by
    intro id s hs
    have hsplit : (helperName id s).toList.reverse =
        s.toList.reverse ++ '_' :: id.toList.reverse := by simp [helperName]
    rw [hsplit, List.dropWhile_append_of_pos (hplain s hs)]
    simp
  have hsame := hdrop id suffix hsuffix
  rw [h, hdrop id' suffix' hsuffix'] at hsame
  exact (String.toList_inj.mp (List.reverse_inj.mp (List.cons.inj hsame).2)).symm

/-- What a line of one block reads: globals, and helpers that are assigned above it in the block and
in no other block. -/
def ReadsOwn (i : BoundIndicator) (above : List String)
    (others : List (BoundIndicator × List String)) (line : String) : Prop :=
  ∃ place value, assigns line = some (place, value) ∧ ∀ v ∈ namesRead value, v ∈ globals ∨
    (∃ suffix ∈ helperSuffixes, v = helperName i.id suffix) ∧
      (∃ l ∈ above, assigned? l = some (.name v)) ∧
      ∀ e ∈ others, ∀ l ∈ e.2, assigned? l ≠ some (.name v)

/-- **Helpers are read below their lines, and belong to one indicator.** -/
theorem Binding.Blocks.readsOwn {b : Binding} {blocks : List (BoundIndicator × List String)}
    (h : b.Blocks blocks) {r : Registry} {declarations : List IndicatorDeclaration}
    (hbind : r.bind declarations = .ok b) {before after : List (BoundIndicator × List String)}
    {i : BoundIndicator} {block : List String} (hsplit : blocks = before ++ (i, block) :: after)
    {above below : List String} {line : String} (hblock : block = above ++ line :: below) :
    ReadsOwn i above (before ++ after) line := by
  have hmem : (i, block) ∈ blocks := by simp [hsplit]
  have hi := h.scopes _ hmem
  have hwrites := hi.writes (h.code _ hmem)
  have hscope := hi.inScope
  simp only [IndicatorSpec.isScoped, Bool.and_eq_true] at hscope
  have hknown : ∀ suffix ∈ ([] : List String), suffix ∈ helperSuffixes ∧
      ∃ l ∈ ([] : List String), assigned? l = some (.name (helperName i.id suffix)) := by simp
  obtain ⟨place, value, hassigns, hreads⟩ :=
    i.reads_above hi.toSound hwrites hscope.1.1.1 hknown hblock
  refine ⟨place, value, hassigns, fun v hv => (hreads v hv).imp_right ?_⟩
  rintro ⟨suffix, hsuffix, rfl, habove⟩
  refine ⟨⟨suffix, hsuffix, rfl⟩, by simpa using habove, fun e he l hl hassigned => ?_⟩
  -- A line of another block that assigned the helper would make the two ids one.
  have hemem : e ∈ blocks := by
    rw [hsplit]
    simp only [List.mem_append, List.mem_cons] at he ⊢
    exact he.imp_right .inr
  obtain ⟨own, -, hwritten⟩ :=
    exists_of_forall₂ ((h.scopes e hemem).writes (h.code e hemem)).flip hl
  obtain ⟨other, hother, hname⟩ := BoundIndicator.Writes.helper hwritten hassigned
  have hids := (Registry.bind_distinct hbind).1
  rw [← h.indicators, hsplit, List.pairwise_map, List.pairwise_middle Ne.symm,
    List.pairwise_cons] at hids
  exact hids.1 e he (helperName_inj hname hsuffix hother)

/-! ## The module -/

theorem asMask_reads {P : String → Prop} {scope : Scope} {e : Emitted} (h : e.Reads P) :
    (Emission.asMask scope e).code.Reads P := by
  unfold Emission.asMask
  split <;> exact h.1

/-- The references of a module are closed; `method` is its leverage method, and `blocks` are its
indicators with their lines. -/
structure StrategyModule.Closed (m : StrategyModule) (method : List String)
    (blocks : List (BoundIndicator × List String)) : Prop where
  /-- Masks read columns of market data and columns that exactly one line assigns. -/
  masks : ∀ s ∈ m.entrySignals ++ m.exitSignals,
    TextReads (Provided m.indicatorLines) s.mask.render
  /-- So does every line of the leverage method. -/
  method : m.leverage.isSome = true → ∃ ls, (body method).mapM Script.Line.ofText? = some ls ∧
    ∀ l ∈ ls, ∀ text ∈ l.texts, TextReads (Provided m.indicatorLines) text
  /-- No line assigns a reserved column. -/
  unreserved : ∀ line ∈ m.indicatorLines, ∀ column,
    assigned? line = some (.column column) → column ∉ reservedColumns
  /-- Every line is an assignment that reads its own helpers only, below the lines of these. -/
  helpers : ∀ before i block after, blocks = before ++ (i, block) :: after →
    ∀ above line below, block = above ++ line :: below → ReadsOwn i above (before ++ after) line

/-- The indicators of a module that has passed the check are scoped. -/
theorem StrategyModule.Sound.blocks {m : StrategyModule} (hm : m.Sound) {lines : List String}
    (hlines : m.lines = .ok lines) {expected : Option String}
    (hcheck : OutputCheck.problems (unlines lines) expected = []) {b : Binding}
    {declarations : List IndicatorDeclaration}
    (hbind : Registry.builtin.bind declarations = .ok b) (hcode : b.code = .ok m.indicatorLines) :
    ∃ blocks, b.Blocks blocks ∧ m.indicatorLines = blocks.flatMap Prod.snd := by
  obtain ⟨blocks, hindicators, hblocks, hflat⟩ := Binding.code_eq_ok hcode
  refine ⟨blocks, ⟨hindicators, hblocks, fun e he => ?_⟩, hflat⟩
  have hmem : e.1 ∈ b.indicators := hindicators ▸ List.mem_map_of_mem he
  have hsound := Registry.bind_sound hbind e.1 hmem
  have hscoped := Registry.bind_isScoped hbind e.1 hmem
  rcases hsound.name_or_open hscoped (hblocks e he) with hname | ⟨word, hword, hopen⟩
  · exact ⟨hsound, hscoped, hname⟩
  · refine absurd ?_ (hm.no_openAccess hlines hcheck hword)
    rw [hflat]
    exact List.mem_flatMap.mpr ⟨e, he, hopen⟩

/-- The leverage method reads what the code of the rules reads. -/
theorem leverageMethod_reads {P : String → Prop} {settings : Settings} {b : Binding}
    (hbuild : ∀ n e, Emission.build ⟨.leverage, b, settings.limits.maxDepth⟩ 1 n = .ok e →
      e.Reads P)
    {leverage : Option LeverageSettings} {r : Routine}
    (h : compileLeverage settings b leverage = .ok (some r)) {method : List String}
    (hmethod : StrategyModule.leverageMethod (some r) = .ok method) :
    ∃ ls, (body method).mapM Script.Line.ofText? = some ls ∧
      ∀ l ∈ ls, ∀ text ∈ l.texts, TextReads P text := by
  obtain ⟨l, -, -, hl⟩ := compileLeverage_eq_some h
  obtain ⟨compiled, hparts⟩ := Leverage.compile_parts hl
  refine ⟨_, leverageMethod_read hmethod, ?_⟩
  exact routineRead_reads hparts.whole (Leverage.compile_reads hbuild hl)
    ((exists_leverageMethod_iff r).mp ⟨method, hmethod⟩)

/-- **References are closed.** If a document compiles with the check switched on, the masks and the
leverage method of its module read columns of market data and columns that exactly one line of the
indicators assigns. No such line assigns a reserved column, and every helper that it reads is
assigned above it by the same indicator and by no other one. -/
theorem generate_closed_references {settings : Settings}
    (hcheck : settings.output.validateSyntax = true) {raw : Value} {name : Option String}
    {g : Generated} (h : generate settings .builtin raw name = .ok g) :
    ∃ (d : Document) (b : Binding) (m : StrategyModule) (above method : List String)
      (blocks : List (BoundIndicator × List String)),
      prepare settings.limits raw = .ok d ∧ Registry.builtin.bind d.indicators = .ok b ∧
      StrategyModule.leverageMethod m.leverage = .ok method ∧
      g.code = unlines (above ++ m.tableMethods ++ method) ∧
      blocks.map Prod.fst = b.indicators ∧ (∀ e ∈ blocks, e.1.code = .ok e.2) ∧
      m.indicatorLines = blocks.flatMap Prod.snd ∧ m.Closed method blocks := by
  obtain ⟨className, d, hname, hprepare, hcompile⟩ := generate_eq_ok_iff.mp h
  obtain ⟨p, m, hplan, hassemble, hwrite, -⟩ := compileDocument_eq_ok hcompile
  obtain ⟨hbind, hsignals, hleverage⟩ := plan_eq_ok hplan
  obtain ⟨hcode, -, hentries, hexits, hroutine⟩ := assemble_eq_ok hassemble
  obtain ⟨lines, hlines, hwritten, hproblems⟩ := writeModule_eq_ok_iff.mp hwrite
  obtain ⟨attributes, method, -, hmethod, hparts⟩ := StrategyModule.lines_eq_ok_iff.mp hlines
  have hm := assemble_sound (requireName_eq_ok hname) hplan hassemble
  obtain ⟨blocks, hblocks, hflat⟩ :=
    hm.blocks hlines (hwritten ▸ hproblems hcheck) hbind hcode
  have hreads : ∀ scope n e, Emission.build ⟨scope, p.binding, settings.limits.maxDepth⟩ 1 n =
      .ok e → e.Reads (Provided m.indicatorLines) := by
    intro scope n e hbuild
    refine Emission.build_reads (fun column hcolumn => .inl hcolumn) (fun id field column hc => ?_)
      hbuild
    rw [hflat]
    exact hblocks.provided hbind hc
  refine ⟨d, p.binding, m, m.header ++ attributes, method, blocks, hprepare, hbind, hmethod,
    by rw [hwritten, hparts], hblocks.indicators, hblocks.code, hflat, ?_, ?_, ?_, ?_⟩
  · intro s hs
    have hwhole := hm.masks s hs
    rw [hentries, hexits] at hs
    obtain ⟨c, -, e, hbuild, hmask⟩ := emitSignals_masks hsignals s hs
    refine textReads_code hwhole ?_
    rw [hmask]
    exact asMask_reads (hreads _ _ _ hbuild)
  · intro hsome
    obtain ⟨r, hr⟩ := Option.isSome_iff_exists.mp hsome
    rw [hr] at hmethod
    rw [← hroutine, hr] at hleverage
    exact leverageMethod_reads (hreads _) hleverage hmethod
  · intro line hline column hassigned
    rw [hflat] at hline
    exact hblocks.not_reserved hbind hline hassigned
  · intro before i block after hsplit above line below hblock
    exact hblocks.readsOwn hbind hsplit hblock

theorem sample_closed_references :
    ({} : Settings).output.validateSyntax = true ∧
    ∃ g, generate {} .builtin sampleRaw (some "Sample") = .ok g ∧
    ∃ (d : Document) (b : Binding) (m : StrategyModule) (above method : List String)
      (blocks : List (BoundIndicator × List String)),
      prepare {} sampleRaw = .ok d ∧ Registry.builtin.bind d.indicators = .ok b ∧
      StrategyModule.leverageMethod m.leverage = .ok method ∧
      g.code = unlines (above ++ m.tableMethods ++ method) ∧
      blocks.map Prod.fst = b.indicators ∧ (∀ e ∈ blocks, e.1.code = .ok e.2) ∧
      m.indicatorLines = blocks.flatMap Prod.snd ∧ m.Closed method blocks := by
  obtain ⟨d, g, -, hd, hcompile, -⟩ := sample_compiles
  have hname : requireName {} (some "Sample") = .ok "Sample" := rfl
  have hgenerate : generate {} .builtin sampleRaw (some "Sample") = .ok g :=
    generate_eq_ok_iff.mpr ⟨"Sample", d, hname, hd, hcompile⟩
  exact ⟨rfl, g, hgenerate, generate_closed_references rfl hgenerate⟩

end Stratagem
