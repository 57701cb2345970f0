import Stratagem.Proofs.Compiler.Pipeline

/-! Expressions stay on their line. Whatever texts a tree or a rule holds, its code, the code of the
candle before and the comments are printable, so none of them ends a line. The methods that hold
expressions are written line by line, and these lines are the last ones of the module's text. -/

namespace Stratagem

variable {settings : Settings} {registry : Registry} {d : Document}

namespace Text

/-- Printable, and a single line where it is written. -/
def OnOneLine (s : String) : Prop := Printable s ∧ lines (s ++ "\n") = [s]

theorem Printable.onOneLine {s : String} (h : Printable s) : OnOneLine s :=
  ⟨h, lines_inline_feed h.isInline⟩

theorem printable_blank : Printable "" := printable_literal (by decide)

end Text

open Text

/-! ## Emitted code -/

namespace Emission

variable {context : EmissionContext} {e : Emitted}

theorem combine_prev (scope : Scope) (empty : Bool) (series scalar : Connective)
    {children : List Emitted} (h : ∀ p ∈ children, p.prev = none) :
    (combine scope empty series scalar children).prev = none := by
  unfold combine
  split
  · cases scope <;> rfl
  · exact h _ List.mem_cons_self
  · rfl

/-- A condition has no value of the candle before. -/
theorem condition_prev {c : Condition} {depth : Nat}
    (h : build context depth (.condition c) = .ok e) : e.prev = none := by
  refine build_induction (P := fun n e => ∀ c, n = .condition c → e.prev = none) ?_ h c rfl
  rintro n parts e depth hparts hnode c rfl
  have hchildren {children : List Condition}
      (hall : (Node.condition c).children = children.map .condition) :
      ∀ p ∈ parts, p.prev = none := by
    rw [hall, List.forall₂_map_left_iff] at hparts
    exact forall_of_forall₂ hparts fun d p hp => hp.2.2 d rfl
  change condition context c parts = .ok e at hnode
  cases c with
  | all mark children | any mark children =>
    cases hnode
    exact combine_prev _ _ _ _ (hchildren rfl)
  | not mark child =>
    cases hnode
    unfold negation
    split <;> rfl
  | ifThen mark c d | ifThenElse mark c d e =>
    cases hnode
    unfold ifThenElse
    dsimp only
    split <;> rfl
  | compare mark left operator right =>
    obtain ⟨-, ⟨-, -, rfl⟩ | ⟨r, -, -, -, rfl⟩⟩ := compare_eq_ok hnode
    · rfl
    · rfl
  | crossover mark a b | crossunder mark a b =>
    obtain ⟨-, -, rfl⟩ := crossing_eq_ok hnode
    cases context.scope <;> rfl
  | inRange mark value low high inclusive =>
    obtain ⟨-, rfl⟩ := inRange_eq_ok hnode
    rfl

/-- The texts of emitted code: of the candle itself, and of the one before. -/
def texts (e : Emitted) : List String := e.text :: (e.prev.map Code.render).toList

theorem texts_printable (hcode : e.code.Grouped) (hprev : ∀ p ∈ e.prev, p.Grouped) :
    ∀ s ∈ texts e, Printable s := by
  refine List.forall_mem_cons.mpr ⟨hcode.printable, fun s hs => ?_⟩
  obtain ⟨p, hp, rfl⟩ := Option.map_eq_some_iff.mp (Option.mem_toList.mp hs)
  exact (hprev p hp).printable

theorem emitCondition_printable {n : Node} {s t : Tally}
    (h : emitCondition context n s = (.ok e, t)) : ∀ s ∈ texts e, Printable s := by
  cases n with
  | operand o => cases h
  | condition c =>
    obtain ⟨built, hbuild, rfl⟩ := emitCondition_eq_ok (congrArg Prod.fst h)
    have hprev : (asMask context.scope built).prev = none := by
      unfold asMask
      split
      · rfl
      · exact condition_prev hbuild
    refine texts_printable (asMask_grouped hbuild).1 fun p hp => ?_
    rw [hprev] at hp
    cases hp

theorem emitOperand_printable {n : Node} {s t : Tally} (h : emitOperand context n s = (.ok e, t)) :
    ∀ s ∈ texts e, Printable s := by
  cases n with
  | condition c => cases h
  | operand o =>
    obtain ⟨hcode, hbefore, -⟩ : (Node.operand o).Grouped e :=
      build_grouped (build_of_descend (emitOperand_descends h))
    refine texts_printable hcode.1 fun p hp => ?_
    have hbefore' : e.before = p := by rw [Emitted.before, Option.mem_def.mp hp]; rfl
    exact hbefore' ▸ hbefore.1

end Emission

/-! ## Leverage -/

/-- The texts of a routine: its conditions, values and comments. -/
def Routine.texts (r : Routine) : List String :=
  [r.guardValue.render, r.tail.value.render, r.tail.comment] ++
    r.branches.flatMap fun b => [b.condition.render, b.value.render, b.comment]

namespace Leverage

theorem compile_printable {binding : Binding} {defaults : LeverageDefaults} {maxDepth : Int}
    {l : LeverageSettings} {r : Routine} (h : compile binding defaults maxDepth l = .ok r) :
    ∀ s ∈ r.texts, Printable s := by
  obtain ⟨compiled, hparts⟩ := compile_parts h
  obtain ⟨htail, hbranches⟩ := List.forall_mem_cons.mp (compile_comments_printable h)
  have hr := hparts.whole
  simp only [Routine.texts, List.forall_mem_append, List.forall_mem_cons, List.mem_flatMap]
  refine ⟨⟨hr.guard.1.printable, hr.tail.1.printable, htail, by simp⟩, ?_⟩
  rintro s ⟨b, hb, hs⟩
  revert s
  simp only [List.forall_mem_cons]
  exact ⟨(hr.branches b hb).1.1.printable, (hr.branches b hb).2.1.printable,
    hbranches _ (List.mem_map_of_mem hb), by simp⟩

end Leverage

/-! ## Lines of the module -/

namespace StrategyModule

theorem signalLine_printable {s : SignalLine} (h : s.mask.Grouped) : Printable (signalLine s) :=
  .append (.enclosed (.append (printable_literal (by decide)) h.printable)
    (printable_literal (by decide)) (printable_quoted s.column)) (printable_literal (by decide))

theorem tableMethod_printable {name : String} {body : List String} (hname : Printable name)
    (hbody : ∀ line ∈ body, Printable line) :
    ∀ line ∈ tableMethod name body, Printable line := by
  simp only [tableMethod, List.forall_mem_append, List.forall_mem_singleton]
  exact ⟨⟨.enclosed (printable_literal (by decide)) hname (printable_literal (by decide)),
    hbody⟩, printable_literal (by decide)⟩

theorem printable_capped {before : String} (hbefore : Printable before) {value : Code}
    (h : Printable value.render) : Printable (before ++ capped value) :=
  hbefore.append (.enclosed (printable_literal (by decide)) h (printable_literal (by decide)))

theorem candleLines_printable {r : Routine} (h : Printable r.guardValue.render) :
    ∀ line ∈ candleLines r, Printable line := by
  refine forall_onlyIf (List.forall_mem_append.mpr ⟨?_, forall_onlyIf ?_⟩)
  · simp only [List.forall_mem_cons]
    exact ⟨printable_literal (by decide), .enclosed (printable_literal (by decide))
      (printable_natText _) (printable_literal (by decide)),
      printable_capped (printable_literal (by decide)) h, printable_literal (by decide), by simp⟩
  · exact List.forall_mem_singleton.mpr (printable_literal (by decide))

theorem branchLines_printable {b : Branch}
    (h : ∀ s ∈ [b.condition.render, b.value.render, b.comment], Printable s) :
    ∀ line ∈ branchLines b, Printable line := by
  simp only [List.forall_mem_cons] at h
  obtain ⟨hcondition, hvalue, hcomment, -⟩ := h
  simp only [branchLines, List.forall_mem_cons]
  exact ⟨printable_blank, .append (printable_literal (by decide)) hcomment,
    .enclosed (printable_literal (by decide)) hcondition (printable_literal (by decide)),
    printable_capped (printable_literal (by decide)) hvalue, by simp⟩

theorem leverageMethod_printable {routine? : Option Routine} {lines : List String}
    (hroutine : ∀ r ∈ routine?, ∀ s ∈ r.texts, Printable s)
    (h : leverageMethod routine? = .ok lines) : ∀ line ∈ lines, Printable line := by
  obtain ⟨-, rfl⟩ := leverageMethod_eq_ok.mp h
  cases routine? with
  | none => simp [leverageTexts]
  | some r =>
    obtain ⟨hfixed, hbranches⟩ := List.forall_mem_append.mp (hroutine r rfl)
    simp only [List.forall_mem_cons] at hfixed
    obtain ⟨hguard, htail, hcomment, -⟩ := hfixed
    have hcap : ∀ line ∈ capTexts r.cap, Printable line :=
      List.forall_mem_map.mpr fun x _ => .enclosed (printable_literal (by decide))
        (printable_float x) (printable_literal (by decide))
    simp only [leverageTexts, leverageTop, List.forall_mem_append]
    refine ⟨⟨⟨⟨?_, hcap⟩, candleLines_printable hguard⟩, ?_⟩, ?_⟩
    · simp only [List.forall_mem_cons]
      exact ⟨printable_blank, printable_literal (by decide), printable_literal (by decide),
        printable_literal (by decide), printable_literal (by decide), by simp⟩
    · intro line hline
      obtain ⟨b, hb, hline⟩ := List.mem_flatMap.mp hline
      exact branchLines_printable
        (fun s hs => hbranches s (List.mem_flatMap.mpr ⟨b, hb, hs⟩)) line hline
    · simp only [List.forall_mem_cons]
      exact ⟨printable_blank, .append (printable_literal (by decide)) hcomment,
        printable_capped (printable_literal (by decide)) htail, by simp⟩

end StrategyModule

/-! ## The text of the module -/

/-- A text that is written line by line has the lines of each of these. -/
theorem lines_unlines (ls : List String) :
    Text.lines (unlines ls) = ls.flatMap fun line => Text.lines (line ++ "\n") := by
  induction ls with
  | nil => rfl
  | cons line rest ih =>
    have hcons : unlines (line :: rest) = line ++ "\n" ++ unlines rest :=
      String.toList_inj.mp (by simp [toList_unlines, Scan.written])
    rw [hcons, lines_feed, ih, List.flatMap_cons]

theorem flatMap_lines_of_inline {ls : List String}
    (h : ∀ line ∈ ls, ∀ c ∈ line.toList, Script.isInline c = true) :
    (ls.flatMap fun line => Text.lines (line ++ "\n")) = ls := by
  rw [List.flatMap_congr fun line hline => lines_inline_feed (h line hline)]
  simp

/-- Printable lines that are written one after the other stay together. -/
theorem infix_lines_unlines {ls all : List String} (h : ls <:+: all)
    (hls : ∀ line ∈ ls, Printable line) : ls <:+: Text.lines (unlines all) := by
  obtain ⟨before, after, rfl⟩ := h
  rw [lines_unlines, List.flatMap_append, List.flatMap_append,
    flatMap_lines_of_inline fun line hline => (hls line hline).isInline]
  exact ⟨_, _, rfl⟩

/-- The masks of a plan are grouped, and the texts of its routine printable. -/
theorem plan_printable {p : Plan} (h : plan settings registry d = .ok p) :
    (∀ s ∈ p.entries ++ p.exits, s.mask.Grouped) ∧
      ∀ r ∈ p.routine, ∀ s ∈ r.texts, Printable s := by
  obtain ⟨-, hsignals, hleverage⟩ := plan_eq_ok h
  refine ⟨fun s hs => ?_, fun r hr => ?_⟩
  · obtain ⟨c, -, e, hbuild, hmask⟩ := emitSignals_masks hsignals s hs
    rw [hmask]
    exact (Emission.asMask_grouped hbuild).1
  · rw [Option.mem_def.mp hr] at hleverage
    obtain ⟨l, -, -, hl⟩ := compileLeverage_eq_some hleverage
    exact Leverage.compile_printable hl

open StrategyModule

/-- The methods that hold expressions, as the last lines of a module. -/
def expressionLines (entries exits : List SignalLine) (leverage : List String) : List String :=
  tableMethod "populate_entry_trend" (entries.map signalLine) ++ [""] ++
    tableMethod "populate_exit_trend" (exits.map signalLine) ++ leverage

theorem expressionLines_printable {entries exits : List SignalLine} {leverage : List String}
    (hmasks : ∀ s ∈ entries ++ exits, s.mask.Grouped)
    (hleverage : ∀ line ∈ leverage, Printable line) :
    ∀ line ∈ expressionLines entries exits leverage, Printable line := by
  obtain ⟨hentries, hexits⟩ := List.forall_mem_append.mp hmasks
  simp only [expressionLines, List.forall_mem_append, List.forall_mem_singleton]
  exact ⟨⟨⟨tableMethod_printable (printable_literal (by decide))
      (List.forall_mem_map.mpr fun s hs => signalLine_printable (hentries s hs)), printable_blank⟩,
    tableMethod_printable (printable_literal (by decide))
      (List.forall_mem_map.mpr fun s hs => signalLine_printable (hexits s hs))⟩, hleverage⟩

/-- A compiled text ends in the methods that hold expressions, line by line. -/
theorem compileDocument_lines {className : String} {g : Generated}
    (h : compileDocument settings registry className d = .ok g) :
    ∃ p front leverage, plan settings registry d = .ok p ∧
      leverageMethod p.routine = .ok leverage ∧
      Text.lines g.code = front ++ expressionLines p.entries p.exits leverage := by
  obtain ⟨p, m, hplan, hassemble, hwrite, -⟩ := compileDocument_eq_ok h
  obtain ⟨-, -, hentries, hexits, hroutine⟩ := assemble_eq_ok hassemble
  obtain ⟨ls, hls, hcode, -⟩ := writeModule_eq_ok_iff.mp hwrite
  obtain ⟨attributes, method, -, hmethod, rfl⟩ := lines_eq_ok_iff.mp hls
  rw [hroutine] at hmethod
  obtain ⟨hmasks, htexts⟩ := plan_printable hplan
  have hback := expressionLines_printable hmasks (leverageMethod_printable htexts hmethod)
  obtain ⟨front, hfront⟩ : ∃ front, m.header ++ attributes ++ m.tableMethods ++ method =
      front ++ expressionLines p.entries p.exits method :=
    ⟨m.header ++ attributes ++
        tableMethod "populate_indicators" (m.indicatorLines.map indicatorLine) ++ [""], by
      simp only [tableMethods, expressionLines, hentries, hexits, List.append_assoc]⟩
  refine ⟨p, front.flatMap fun line => Text.lines (line ++ "\n"), method, hplan, hmethod, ?_⟩
  rw [hcode, hfront, lines_unlines, List.flatMap_append,
    flatMap_lines_of_inline fun line hline => (hback line hline).isInline]

/-- What a compilation has assembled, and whose printable attributes stand in its text. -/
theorem compileDocument_attributes {className : String} {g : Generated}
    (h : compileDocument settings registry className d = .ok g) :
    ∃ p m, plan settings registry d = .ok p ∧ Assembled p d.parameters m ∧
      ∀ ls, ls <:+: m.attributeTexts → (∀ line ∈ ls, Printable line) →
        ls <:+: Text.lines g.code := by
  obtain ⟨p, m, hplan, hassemble, hwrite, -⟩ := compileDocument_eq_ok h
  obtain ⟨lines, hlines, hcode, -⟩ := writeModule_eq_ok_iff.mp hwrite
  obtain ⟨attributes, method, hattributes, -, rfl⟩ := lines_eq_ok_iff.mp hlines
  obtain ⟨-, rfl⟩ := attributes_eq_ok.mp hattributes
  refine ⟨p, m, hplan, assemble_assembled hassemble, fun ls hls hprintable => ?_⟩
  rw [hcode]
  refine infix_lines_unlines (hls.trans ?_) hprintable
  exact ⟨m.header, m.tableMethods ++ method, by simp only [List.append_assoc]⟩

/-- **No text of a document starts a line of code.** In either scope the code of a tree and that of
the candle before are printable and stay on one line, and so do the conditions, values and comments
of a leverage routine. A module's text ends in the methods that hold them, line by line. -/
theorem document_texts_onOneLine :
    (∀ (context : EmissionContext) (n : Node) (s t : Tally) (e : Emitted),
      Emission.emitCondition context n s = (.ok e, t) ∨
        Emission.emitOperand context n s = (.ok e, t) →
      ∀ text ∈ e.text :: (e.prev.map Code.render).toList, OnOneLine text) ∧
    (∀ (binding : Binding) (defaults : LeverageDefaults) (maxDepth : Int) (l : LeverageSettings)
      (r : Routine), Leverage.compile binding defaults maxDepth l = .ok r →
      OnOneLine r.guardValue.render ∧ OnOneLine r.tail.value.render ∧ OnOneLine r.tail.comment ∧
        ∀ b ∈ r.branches, OnOneLine b.condition.render ∧ OnOneLine b.value.render ∧
          OnOneLine b.comment) ∧
    (∀ (settings : Settings) (registry : Registry) (className : String) (d : Document)
      (g : Generated), compileDocument settings registry className d = .ok g →
      ∃ p front leverage, plan settings registry d = .ok p ∧
        leverageMethod p.routine = .ok leverage ∧
        Text.lines g.code = front ++
          (tableMethod "populate_entry_trend" (p.entries.map signalLine) ++ [""] ++
            tableMethod "populate_exit_trend" (p.exits.map signalLine) ++ leverage)) := by
  refine ⟨?_, ?_, ?_⟩
  · rintro context n s t e (h | h) text htext
    · exact (Emission.emitCondition_printable h text htext).onOneLine
    · exact (Emission.emitOperand_printable h text htext).onOneLine
  · intro binding defaults maxDepth l r h
    have hone : ∀ s ∈ r.texts, OnOneLine s := fun s hs =>
      (Leverage.compile_printable h s hs).onOneLine
    simp only [Routine.texts, List.forall_mem_append, List.forall_mem_cons] at hone
    obtain ⟨⟨hguard, htail, hcomment, -⟩, hbranches⟩ := hone
    refine ⟨hguard, htail, hcomment, fun b hb => ?_⟩
    have hmem {s : String} (hs : s ∈ [b.condition.render, b.value.render, b.comment]) :
        OnOneLine s := hbranches s (List.mem_flatMap.mpr ⟨b, hb, hs⟩)
    exact ⟨hmem (by simp), hmem (by simp), hmem (by simp)⟩
  · intro settings registry className d g h
    exact compileDocument_lines h

/-- A text that would be four lines if it were written as it stands. -/
def unruly : String := "x'\r\nimport os\u2028\x0cy"

def unrulyCondition : Condition :=
  .compare ⟨none, some unruly⟩ (.constant (.scalar (.text unruly))) .in_
    (.constant (.list [.text unruly, .null]))

def unrulySettings : LeverageSettings where
  enabled := true
  rules := [⟨none, some unruly, 0, true, some unrulyCondition, .plain (.time .hour (some unruly))⟩]
  defaultLeverage := none
  maxLeverage := none

theorem unruly_texts_onOneLine :
    Text.lines unruly = ["x'", "import os", "", "y"] ∧
    (∃ e t, Emission.emitCondition ⟨.series, .empty, 3⟩ (.condition unrulyCondition) .empty =
        (.ok e, t) ∧ OnOneLine e.text) ∧
    (∃ r, Leverage.compile .empty {} 3 unrulySettings = .ok r ∧ r.branches.length = 1 ∧
      ∀ b ∈ r.branches, OnOneLine b.condition.render ∧ OnOneLine b.value.render ∧
        OnOneLine b.comment) ∧
    ∃ d g, compileDocument {} .builtin "Sample" d = .ok g ∧ ∃ p front leverage,
      plan {} .builtin d = .ok p ∧ leverageMethod p.routine = .ok leverage ∧
      Text.lines g.code = front ++
        (tableMethod "populate_entry_trend" (p.entries.map signalLine) ++ [""] ++
          tableMethod "populate_exit_trend" (p.exits.map signalLine) ++ leverage) := by
  obtain ⟨hemitted, hroutines, hmodules⟩ := document_texts_onOneLine
  refine ⟨by decide, ?_, ?_, ?_⟩
  · have hsome : (Emission.emitCondition ⟨.series, .empty, 3⟩ (.condition unrulyCondition)
        .empty).1.toOption.isSome = true := by decide +kernel
    obtain ⟨e, he⟩ := Option.isSome_iff_exists.mp hsome
    have hemit : Emission.emitCondition ⟨.series, .empty, 3⟩ (.condition unrulyCondition) .empty =
        (.ok e, _) := Prod.ext (toOption_eq_some he) rfl
    exact ⟨e, _, hemit, hemitted _ _ _ _ e (.inl hemit) e.text List.mem_cons_self⟩
  · have hsome : ((Leverage.compile .empty {} 3 unrulySettings).toOption.any
        fun r => r.branches.length == 1) = true := by decide +kernel
    obtain ⟨r, hr, hlength⟩ := (Option.any_eq_true _ _).mp hsome
    have hcompile := toOption_eq_some hr
    exact ⟨r, hcompile, by simpa using hlength, (hroutines _ _ _ _ r hcompile).2.2.2⟩
  · obtain ⟨d, g, l, -, hcompile, -⟩ := sample_compiles
    exact ⟨d, g, hcompile, hmodules _ _ _ d g hcompile⟩

end Stratagem
