import Stratagem.Proofs.Compiler.Startup
import Stratagem.Proofs.Emission.Names
import Stratagem.Proofs.Indicator.Calls
import Stratagem.Proofs.Leverage.References
import Stratagem.Proofs.Module.Header

/-! Optional imports. A module imports a library exactly if its indicators call it or a tree needs
it: crossings of the signals need one library, clocks of other zones in leverage rules another. So
every library that the code names is imported. -/

namespace Stratagem

open Text StrategyModule

variable {lines : List String} {settings : Settings} {registry : Registry} {className : String}
  {d : Document} {p : Plan}

/-! ## Import lines -/

theorem Binding.code_inline {b : Binding} (h : b.code = .ok lines) :
    ∀ line ∈ lines, ∀ c ∈ line.toList, Script.isInline c = true := by
  obtain ⟨blocks, -, hblocks, rfl⟩ := Binding.code_eq_ok h
  intro line hline c hc
  obtain ⟨e, he, hline⟩ := List.mem_flatMap.mp hline
  obtain ⟨texts, -, hlines⟩ := e.1.code_eq_ok (hblocks e he)
  rw [hlines] at hline
  simpa [Script.isInline] using (mem_lines (List.mem_filter.mp hline).1).2 c hc

/-- Below the header each line is written as one line, and indented. -/
theorem compiled_body {m : StrategyModule} {method : List String}
    (hplan : plan settings registry d = .ok p) (hassemble : assemble settings className d p = .ok m)
    (hmethod : leverageMethod m.leverage = .ok method) :
    ∀ line ∈ m.attributeTexts ++ m.tableMethods ++ method,
      (∀ c ∈ line.toList, Script.isInline c = true) ∧ Indented line := by
  obtain ⟨hcode, -, hentries, hexits, hroutine⟩ := assemble_eq_ok hassemble
  obtain ⟨hmasks, htexts⟩ := plan_printable hplan
  have hsplit : m.attributeTexts ++ m.tableMethods ++ method = m.attributeTexts ++
      (tableMethod "populate_indicators" (m.indicatorLines.map indicatorLine) ++ [""]) ++
      expressionLines p.entries p.exits method := by
    simp only [tableMethods, expressionLines, hentries, hexits, List.append_assoc]
  rw [hroutine] at hmethod
  have hexpressions :=
    expressionLines_printable hmasks (leverageMethod_printable htexts hmethod)
  have hsignals (lines : List SignalLine) : ∀ line ∈ lines.map signalLine, Indented line :=
    List.forall_mem_map.mpr fun s _ => signalLine_indented s
  have hindicators : ∀ line ∈ m.indicatorLines.map indicatorLine,
      (∀ c ∈ line.toList, Script.isInline c = true) ∧ Indented line := by
    refine List.forall_mem_map.mpr fun line hline => ⟨?_, .inr .behind⟩
    rw [indicatorLine, String.toList_append, List.forall_mem_append]
    exact ⟨by decide, Binding.code_inline hcode line hline⟩
  rw [hsplit]
  simp only [List.forall_mem_append, List.forall_mem_singleton]
  refine ⟨⟨?_, ?_, by decide, .inl rfl⟩, ?_⟩
  · exact fun line hline => ⟨(m.attributeTexts_printable line hline).isInline,
      m.attributeTexts_indented line hline⟩
  · simp only [tableMethod, List.forall_mem_append, List.forall_mem_singleton]
    exact ⟨⟨⟨by decide, .inr (.append .behind)⟩, hindicators⟩, by decide, indented_literal _⟩
  · refine fun line hline => ⟨(hexpressions line hline).isInline, ?_⟩
    revert line
    simp only [expressionLines, List.forall_mem_append, List.forall_mem_singleton]
    exact ⟨⟨⟨tableMethod_indented (hsignals _), .inl rfl⟩, tableMethod_indented (hsignals _)⟩,
      leverageMethod_indented hmethod⟩

/-- The lines of a text from the imports on: the head of the class stands between them and what is
written as it is. -/
theorem lines_header {m : StrategyModule} {body : List String}
    (hbody : ∀ line ∈ body, ∀ c ∈ line.toList, Script.isInline c = true) :
    Text.lines (unlines (m.header ++ body)) =
      importBlock m.usesZoneinfo m.usesTalib m.usesQtpylib ++
        (Text.lines ("class " ++ m.className ++ "(IStrategy):" ++ "\n") ++
          (["    INTERFACE_VERSION = 3", ""] ++ body)) := by
  have hbelow : ∀ line ∈ ["    INTERFACE_VERSION = 3", ""] ++ body,
      ∀ c ∈ line.toList, Script.isInline c = true := by
    refine List.forall_mem_append.mpr ⟨?_, hbody⟩
    simp only [List.forall_mem_cons]
    exact ⟨by decide, by decide, nofun⟩
  rw [lines_unlines, header_eq, List.append_assoc, List.append_assoc, List.flatMap_append,
    List.flatMap_append, flatMap_lines_of_inline hbelow,
    flatMap_lines_of_inline fun line hline => (importBlock_printable _ _ _ line hline).isInline,
    List.flatMap_singleton]

/-- A line that starts like no line below the imports is one of these. -/
theorem mem_lines_header {m : StrategyModule}
    (hname : ∀ c ∈ chomp m.className.toList, Script.nameChar c = true) {body : List String}
    (hbody : ∀ line ∈ body, (∀ c ∈ line.toList, Script.isInline c = true) ∧ Indented line)
    {x : String} (hx : x.toList.head? ∉ [none, some ' ', some 'c', some '(']) :
    x ∈ Text.lines (unlines (m.header ++ body)) ↔
      x ∈ importBlock m.usesZoneinfo m.usesTalib m.usesQtpylib := by
  have hbelow : ∀ line ∈ ["    INTERFACE_VERSION = 3", ""] ++ body, Indented line := by
    refine List.forall_mem_append.mpr ⟨?_, fun line hline => (hbody line hline).2⟩
    simp only [List.forall_mem_cons]
    exact ⟨indented_literal _, .inl rfl, nofun⟩
  rw [lines_header fun line hline => (hbody line hline).1, List.mem_append, List.mem_append]
  refine or_iff_left ?_
  rintro (hclass | hline)
  · rcases lines_classLine hname x hclass with h | h <;> simp [h] at hx
  · rcases hbelow x hline with rfl | h
    · simp at hx
    · simp [Option.mem_def.mp h] at hx

/-- The text of a compilation is the header of its module and what is below. -/
theorem compileDocument_text {g : Generated}
    (h : compileDocument settings registry className d = .ok g) :
    ∃ p m method, plan settings registry d = .ok p ∧ assemble settings className d p = .ok m ∧
      leverageMethod m.leverage = .ok method ∧
      m.lines = .ok (m.header ++ (m.attributeTexts ++ m.tableMethods ++ method)) ∧
      g.code = unlines (m.header ++ (m.attributeTexts ++ m.tableMethods ++ method)) ∧
      (settings.output.validateSyntax = true →
        OutputCheck.problems g.code (some m.className) = []) := by
  obtain ⟨p, m, hplan, hassemble, hwrite, -⟩ := compileDocument_eq_ok h
  obtain ⟨ls, hls, hcode, hcheck⟩ := writeModule_eq_ok_iff.mp hwrite
  obtain ⟨attributes, method, hattributes, hmethod, rfl⟩ := lines_eq_ok_iff.mp hls
  obtain ⟨-, rfl⟩ := attributes_eq_ok.mp hattributes
  rw [List.append_assoc, List.append_assoc, ← List.append_assoc m.attributeTexts] at hls hcode
  exact ⟨p, m, method, hplan, hassemble, hmethod, hls, hcode, hcheck⟩

/-- What the imports at the top of a text say about a plan. -/
structure Importing (p : Plan) (lines : List String) : Prop where
  talib : "import talib.abstract as ta" ∈ lines ↔ "talib" ∈ p.imports
  qtpylib : "from technical import qtpylib" ∈ lines ↔ "qtpylib" ∈ p.imports
  zoneinfo : "from zoneinfo import ZoneInfo" ∈ lines ↔ "zoneinfo" ∈ p.imports
  numpy : "import numpy as np" ∈ lines
  pandas : "import pandas as pd" ∈ lines

/-- **The imports of a text are those of its plan.** -/
theorem compileDocument_importing {g : Generated}
    (hname : isClassWord (chomp className.toList) = true)
    (h : compileDocument settings registry className d = .ok g) :
    ∃ p, plan settings registry d = .ok p ∧ (∃ lines, p.binding.code = .ok lines) ∧
      Importing p (Text.lines g.code) := by
  obtain ⟨p, m, method, hplan, hassemble, hmethod, -, hcode, -⟩ := compileDocument_text h
  obtain ⟨hindicators, hclass, -⟩ := assemble_eq_ok hassemble
  have hm := assemble_assembled hassemble
  refine ⟨p, hplan, ⟨_, hindicators⟩, ?_⟩
  have hmem {x : String} (hx : x.toList.head? ∉ [none, some ' ', some 'c', some '(']) :
      x ∈ Text.lines g.code ↔ x ∈ importBlock m.usesZoneinfo m.usesTalib m.usesQtpylib := by
    rw [hcode]
    refine mem_lines_header ?_ (compiled_body hplan hassemble hmethod) hx
    rw [hclass]
    exact nameChar_of_isClassWord hname
  obtain ⟨hzoneinfo, htalib, hqtpylib, hnumpy, hpandas⟩ :=
    mem_importBlock m.usesZoneinfo m.usesTalib m.usesQtpylib
  exact {
    talib := by rw [hmem (by decide), htalib, hm.usesTalib, List.contains_iff_mem]
    qtpylib := by rw [hmem (by decide), hqtpylib, hm.usesQtpylib, List.contains_iff_mem]
    zoneinfo := by rw [hmem (by decide), hzoneinfo, hm.usesZoneinfo, List.contains_iff_mem]
    numpy := (hmem (by decide)).mpr hnumpy
    pandas := (hmem (by decide)).mpr hpandas }

/-! ## Imports of a plan -/

namespace Node

def isCrossing : Node → Bool
  | .condition (.crossover ..) | .condition (.crossunder ..) => true
  | _ => false

/-- Reads the clock of a zone. -/
def readsZone : Node → Bool
  | .operand (.time _ (some _)) => true
  | _ => false

end Node

namespace Emission

theorem talib_notMem (scope : Scope) (n : Node) : "talib" ∉ nodeImports scope n := by
  unfold nodeImports
  split <;> cases scope <;> simp

theorem qtpylib_mem_iff (scope : Scope) (n : Node) :
    "qtpylib" ∈ nodeImports scope n ↔ scope = .series ∧ n.isCrossing = true := by
  unfold nodeImports
  split <;> cases scope <;> simp_all [Node.isCrossing]

theorem zoneinfo_mem_iff (scope : Scope) (n : Node) :
    "zoneinfo" ∈ nodeImports scope n ↔ scope = .leverage ∧ n.readsZone = true := by
  unfold nodeImports
  split <;> cases scope <;> simp_all [Node.readsZone]

end Emission

/-- An enabled leverage section asks for an import. -/
def Document.LeverageImports (d : Document) (x : String) : Prop :=
  ∃ l, d.leverage = some l ∧ l.enabled = true ∧ ∃ r ∈ l.rules, r.enabled = true ∧
    ∃ n ∈ r.nodes, x ∈ Emission.nodeImports .leverage n

theorem mem_routine_imports_iff (h : plan settings registry d = .ok p) (x : String) :
    x ∈ (p.routine.map Routine.imports).getD [] ↔ d.LeverageImports x := by
  obtain ⟨-, -, hleverage⟩ := plan_eq_ok h
  cases hroutine : p.routine with
  | none =>
    refine iff_of_false (by simp) ?_
    rintro ⟨l, hl, henabled, -⟩
    rw [hl] at hleverage
    obtain ⟨r, hr, -⟩ := compileLeverage_of_enabled henabled hleverage
    rw [hroutine] at hr
    cases hr
  | some r =>
    rw [hroutine] at hleverage
    obtain ⟨l, hl, henabled, hcompile⟩ := compileLeverage_eq_some hleverage
    simp only [Option.map_some, Option.getD_some, (Leverage.compile_emits hcompile).2 x]
    refine ⟨fun hx => ⟨l, hl, henabled, hx⟩, ?_⟩
    rintro ⟨l', hl', -, hx⟩
    obtain rfl : l = l' := Option.some.inj (hl.symm.trans hl')
    exact hx

/-- What a plan imports comes from the types of its indicators, the traded trees and the enabled
rules. -/
theorem mem_imports_iff (h : plan settings registry d = .ok p) (x : String) : x ∈ p.imports ↔
      (∃ i ∈ p.binding.indicators, x ∈ i.spec.imports) ∨
      (∃ c ∈ d.tradedTrees, ∃ n ∈ c.preorder, x ∈ Emission.nodeImports .series n) ∨
      d.LeverageImports x := by
  obtain ⟨-, hsignals, -⟩ := plan_eq_ok h
  have htally : x ∈ p.tally.imports ↔
      ∃ c ∈ d.tradedTrees, ∃ n ∈ c.preorder, x ∈ Emission.nodeImports .series n := by
    rw [(emitSignals_records hsignals).imports]
    simp only [Tally.empty, List.not_mem_nil, false_or, List.mem_flatMap]
    constructor
    · rintro ⟨n, ⟨c, hc, hn⟩, hx⟩
      exact ⟨c, hc, n, hn, hx⟩
    · rintro ⟨c, hc, n, hn, hx⟩
      exact ⟨n, ⟨c, hc, hn⟩, hx⟩
  rw [Plan.imports, List.mem_append, List.mem_append, mem_routine_imports_iff h, htally,
    Binding.imports, List.mem_flatMap, or_assoc]

/-! ## Names of the code -/

/-- The lines that bring the names of libraries into the text. -/
def libraryLines : List (String × String) :=
  [("np", "import numpy as np"), ("pd", "import pandas as pd"),
   ("ta", "import talib.abstract as ta"), ("qtpylib", "from technical import qtpylib"),
   ("ZoneInfo", "from zoneinfo import ZoneInfo")]

/-- If the name is that of a library, its import is among the lines. -/
def Supplied (lines : List String) (name : String) : Prop :=
  ∀ line, (name, line) ∈ libraryLines → line ∈ lines

namespace Importing

variable {p : Plan} {lines : List String}

theorem provides_common (h : Importing p lines) {name : String} (hname : name ∈ commonNames) :
    Supplied lines name := by
  have hfixed : ∀ e ∈ libraryLines, e.1 ∈ commonNames →
      e.2 = "import numpy as np" ∨ e.2 = "import pandas as pd" := by decide
  intro line hline
  rcases hfixed _ hline hname with rfl | rfl
  · exact h.numpy
  · exact h.pandas

/-- A reference that a node permits is provided for if the plan has the imports of the node. -/
theorem provides_reference (h : Importing p lines) {context : EmissionContext} {n : Node}
    (himports : ∀ x ∈ Emission.nodeImports context.scope n, x ∈ p.imports) {r : Reference}
    (hr : Emission.Permitted context n r) {name : String} (hname : r.name? = some name) :
    Supplied lines name := by
  intro line hline
  cases r with
  | column c => cases hname
  | argument a =>
    cases hname
    have hapart : ∀ e ∈ libraryLines, e.1 ∉ Emission.callbackNames := by decide
    exact absurd hr (hapart _ hline)
  | crossing =>
    cases hname
    have honly : ∀ e ∈ libraryLines, e.1 = "qtpylib" → e.2 = "from technical import qtpylib" := by
      decide
    obtain rfl : line = "from technical import qtpylib" := honly _ hline rfl
    exact h.qtpylib.mpr (himports _ hr)
  | zone =>
    cases hname
    have honly : ∀ e ∈ libraryLines, e.1 = "ZoneInfo" → e.2 = "from zoneinfo import ZoneInfo" := by
      decide
    obtain rfl : line = "from zoneinfo import ZoneInfo" := honly _ hline rfl
    exact h.zoneinfo.mpr (himports _ hr)

theorem provides_code (h : Importing p lines) {c : Code}
    (hc : ∀ r ∈ c.references, ∀ name, r.name? = some name → Supplied lines name) :
    ∀ name ∈ c.script.names, Supplied lines name := by
  intro name hname
  rcases c.names_script name hname with hcommon | ⟨r, hr, hrname⟩
  · exact h.provides_common hcommon
  · exact hc r hr name hrname

end Importing

theorem Routine.Whole.codes {r : Routine} (h : r.Whole) : ∀ code ∈ r.codes, code.Whole := by
  simp only [Routine.codes, List.forall_mem_append, List.forall_mem_cons]
  refine ⟨⟨h.guard, h.tail, List.forall_mem_nil _⟩, fun code hcode => ?_⟩
  obtain ⟨b, hb, hcode⟩ := List.mem_flatMap.mp hcode
  obtain ⟨hcondition, hvalue⟩ := h.branches b hb
  simp only [List.mem_cons, List.not_mem_nil, or_false] at hcode
  rcases hcode with rfl | rfl
  · exact hcondition
  · exact hvalue

/-- All code of a plan. -/
def Plan.codes (p : Plan) : List Code :=
  (p.entries ++ p.exits).map SignalLine.mask ++ (p.routine.map Routine.codes).getD []

/-- **The libraries that the code of a plan names are provided.** -/
theorem Importing.provides_plan (h : Importing p lines) (hplan : plan settings registry d = .ok p) :
    ∀ code ∈ p.codes,
      ∃ e, Script.read code.render = some e ∧ ∀ name ∈ e.names, Supplied lines name := by
  obtain ⟨-, hsignals, hleverage⟩ := plan_eq_ok hplan
  have himports := mem_imports_iff hplan
  refine List.forall_mem_append.mpr ⟨List.forall_mem_map.mpr fun s hs => ?_, ?_⟩
  · obtain ⟨c, hc, e, hbuild, hmask⟩ := emitSignals_masks hsignals s hs
    have hwhole : s.mask.Whole := hmask ▸ Emission.asMask_grouped hbuild
    have hsame : s.mask.references = e.code.references := by
      rw [hmask, Emission.asMask]
      split <;> rfl
    refine ⟨_, hwhole.read, h.provides_code ?_⟩
    rw [hsame]
    refine (Emission.build_refers hbuild fun n hn r hr name hname => ?_).1
    refine h.provides_reference (fun x hx => ?_) hr hname
    exact (himports x).mpr (.inr (.inl ⟨c, hc, n, hn, hx⟩))
  · cases hroutine : p.routine with
    | none => exact List.forall_mem_nil _
    | some r =>
      rw [hroutine] at hleverage
      obtain ⟨l, hl, henabled, hcompile⟩ := compileLeverage_eq_some hleverage
      obtain ⟨compiled, hparts⟩ := Leverage.compile_parts hcompile
      intro code hcode
      refine ⟨_, (hparts.whole.codes code hcode).read, h.provides_code ?_⟩
      rcases (Leverage.compile_emits hcompile).1 code hcode with ⟨x, rfl⟩ | hstems
      · exact List.forall_mem_nil _
      · obtain ⟨rule, hrule, hon, n, hn, e, hbuild, bounds, -, rfl⟩ := hstems
        rw [Leverage.references_clamped]
        refine (Emission.build_refers hbuild fun m hm r hr name hname => ?_).1
        refine h.provides_reference (fun x hx => ?_) hr hname
        exact (himports x).mpr (.inr (.inr
          ⟨l, hl, henabled, rule, hrule, hon, m, List.mem_flatMap.mpr ⟨n, hn, hm⟩, hx⟩))

/-! ## Imports and uses -/

/-- Some line of the code calls the library. -/
def BoundIndicator.Calls (i : BoundIndicator) (library : String) : Prop :=
  ∃ lines, i.code = .ok lines ∧ ∃ line ∈ lines, Text.Calls library line

theorem calls_iff_imports {declarations : List IndicatorDeclaration} {b : Binding}
    (hbind : Registry.builtin.bind declarations = .ok b) (hcode : b.code = .ok lines)
    {library : String × String} (hlibrary : library ∈ libraries) :
    (∃ i ∈ b.indicators, i.Calls library.2) ↔ ∃ i ∈ b.indicators, library.1 ∈ i.spec.imports := by
  refine exists_congr fun i => and_congr_right fun hi => ?_
  have hiff {block : List String} (h : i.code = .ok block) :=
    i.calls_iff (Registry.bind_sound hbind i hi) hlibrary
      (Registry.bind_specs Builtin.specs_declare hbind i hi library hlibrary) h
  obtain ⟨blocks, hindicators, hblocks, -⟩ := Binding.code_eq_ok hcode
  rw [← hindicators] at hi
  obtain ⟨e, he, rfl⟩ := List.mem_map.mp hi
  refine ⟨fun ⟨block, hblock, hcalls⟩ => (hiff hblock).mp hcalls, fun himports => ?_⟩
  exact ⟨e.2, hblocks e he, (hiff (hblocks e he)).mpr himports⟩

/-- **Optional imports are there exactly if they are used.** One library is imported if and only if
the code of an indicator calls it; the second one also for a crossing in an entry or exit tree of a
traded direction; the third one for a clock of a zone in an enabled rule of an enabled leverage
section. Every library that a mask, condition or value names is imported. -/
theorem optional_imports_used {settings : Settings} {raw : Value} {name : Option String}
    {g : Generated} {d : Document} (h : generate settings .builtin raw name = .ok g)
    (hd : prepare settings.limits raw = .ok d) :
    ∃ b p, Registry.builtin.bind d.indicators = .ok b ∧ plan settings .builtin d = .ok p ∧
      ("import talib.abstract as ta" ∈ Text.lines g.code ↔ ∃ i ∈ b.indicators, i.Calls "ta") ∧
      ("from technical import qtpylib" ∈ Text.lines g.code ↔
        (∃ i ∈ b.indicators, i.Calls "qtpylib") ∨
          ∃ c ∈ d.tradedTrees, ∃ n ∈ c.preorder, n.isCrossing = true) ∧
      ("from zoneinfo import ZoneInfo" ∈ Text.lines g.code ↔
        ∃ l, d.leverage = some l ∧ l.enabled = true ∧ ∃ r ∈ l.rules, r.enabled = true ∧
          ∃ n ∈ r.nodes, n.readsZone = true) ∧
      ∀ code ∈ p.codes, ∃ e, Script.read code.render = some e ∧
        ∀ x ∈ e.names, ∀ line, (x, line) ∈ libraryLines → line ∈ Text.lines g.code := by
  obtain ⟨className, d', hname, hd', hcompile⟩ := generate_eq_ok_iff.mp h
  obtain rfl : d' = d := Except.ok.inj (hd'.symm.trans hd)
  obtain ⟨p, hplan, ⟨lines, hcode⟩, himporting⟩ :=
    compileDocument_importing (requireName_eq_ok hname) hcompile
  obtain ⟨hbind, -, -⟩ := plan_eq_ok hplan
  have himports := mem_imports_iff hplan
  refine ⟨p.binding, p, hbind, hplan, ?_, ?_, ?_, himporting.provides_plan hplan⟩
  · rw [himporting.talib, himports,
      calls_iff_imports hbind hcode (show ("talib", "ta") ∈ libraries by decide)]
    simp [Document.LeverageImports, Emission.talib_notMem]
  · rw [himporting.qtpylib, himports,
      calls_iff_imports hbind hcode (show ("qtpylib", "qtpylib") ∈ libraries by decide)]
    simp [Document.LeverageImports, Emission.qtpylib_mem_iff]
  · have hindicators : ¬ ∃ i ∈ p.binding.indicators, "zoneinfo" ∈ i.spec.imports := by
      rintro ⟨i, hi, hmem⟩
      have hlisted := Registry.bind_specs Builtin.specs_imports hbind i hi _ hmem
      exact absurd hlisted (by decide)
    rw [himporting.zoneinfo, himports]
    simp [hindicators, Document.LeverageImports, Emission.zoneinfo_mem_iff]

theorem momentum_imports_used : ∃ d g, prepare unchecked.limits momentumRaw = .ok d ∧
    generate unchecked .builtin momentumRaw (some "Sample") = .ok g ∧
    "import talib.abstract as ta" ∈ Text.lines g.code ∧
    "from technical import qtpylib" ∈ Text.lines g.code ∧
    "from zoneinfo import ZoneInfo" ∈ Text.lines g.code := by
  obtain ⟨d, g, -, -, hprepare, hgenerate, -⟩ := momentum_generates
  obtain ⟨b, -, hbind, -, htalib, hqtpylib, hzoneinfo, -⟩ :=
    optional_imports_used hgenerate hprepare
  have hsample : ((prepare unchecked.limits momentumRaw).toOption.any fun d =>
      (d.tradedTrees.any fun c => c.preorder.any Node.isCrossing) &&
      (d.leverage.any fun l => l.enabled &&
        l.rules.any fun r => r.enabled && r.nodes.any Node.readsZone) &&
      ((Registry.builtin.bind d.indicators).toOption.any fun b =>
        b.indicators.any fun i =>
          i.spec.imports.contains "talib" && i.code.toOption.isSome)) = true := by
    decide +kernel
  obtain ⟨d', hd', hsample⟩ := (Option.any_eq_true _ _).mp hsample
  obtain rfl : d = d' := Except.ok.inj (hprepare.symm.trans (toOption_eq_some hd'))
  simp only [Bool.and_eq_true, Option.any_eq_true, List.any_eq_true, List.contains_iff_mem,
    Option.isSome_iff_exists] at hsample
  obtain ⟨⟨hcrossing, l, hl, henabled, hrules⟩, b', hb', i, hi, himports, block, hcode⟩ := hsample
  obtain rfl : b = b' := Except.ok.inj (hbind.symm.trans (toOption_eq_some hb'))
  have hlibrary : ("talib", "ta") ∈ libraries := by decide
  have hcalls := i.calls_iff (Registry.bind_sound hbind i hi) hlibrary
    (Registry.bind_specs Builtin.specs_declare hbind i hi _ hlibrary) (toOption_eq_some hcode)
  have hcalled : i.Calls "ta" := ⟨block, toOption_eq_some hcode, hcalls.mpr himports⟩
  exact ⟨d, g, hprepare, hgenerate, htalib.mpr ⟨i, hi, hcalled⟩, hqtpylib.mpr (.inr hcrossing),
    hzoneinfo.mpr ⟨l, hl, henabled, hrules⟩⟩

end Stratagem
