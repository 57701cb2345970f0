import Stratagem.Proofs.Emission.Reads
import Stratagem.Proofs.Emission.Recorded
import Stratagem.Proofs.Leverage.Candles
import Stratagem.Proofs.Leverage.Renaming

/-! What a routine refers to, and what it imports: both come from the trees of its enabled rules.
The leverage method reads the columns that the code of the rules reads; its other lines read
none. -/

namespace Stratagem

open Script

/-! ## The routine -/

/-- All code of the routine reads only such columns. -/
structure Routine.Reads (P : String → Prop) (r : Routine) : Prop where
  branches : ∀ b ∈ r.branches, b.condition.Reads P ∧ b.value.Reads P
  tail : r.tail.value.Reads P
  guard : r.guardValue.Reads P

/-- All code of the routine. -/
def Routine.codes (r : Routine) : List Code :=
  [r.guardValue, r.tail.value] ++ r.branches.flatMap fun b => [b.condition, b.value]

/-- The trees of a rule: that of its value, and that of its condition. -/
def LeverageRule.roots (r : LeverageRule) : List Node :=
  .operand r.leverage.operand :: r.condition.toList.map .condition

def LeverageRule.nodes (r : LeverageRule) : List Node := r.roots.flatMap Node.preorder

namespace Leverage

open Emission

variable {context : EmissionContext}

/-- A bound is a number and refers to nothing. -/
theorem references_clamped (bounds : List (Extremum × Binary64)) (code : Code) :
    (clamped bounds code).references = code.references := by
  induction bounds with
  | nil => rfl
  | cons bound rest ih => exact ih

theorem valueCode_emits {v : LeverageValue} {s t : Tally} {code : Code} {lookback : Nat}
    (h : valueCode context v s = .ok ((code, lookback), t)) :
    Records context v.operand.preorder s t ∧ ∃ e, build context 1 (.operand v.operand) = .ok e ∧
      code = clamped v.clamps e.code := by
  obtain ⟨e, hdescend, hcode, -, -⟩ := valueCode_eq_ok h
  exact ⟨descend_records hdescend, e, build_of_descend hdescend, hcode⟩

theorem conditionCode_emits (hscope : context.scope = .leverage) {condition : Option Condition}
    {s t : Tally} {code? : Option Code} (h : conditionCode context condition s = .ok (code?, t)) :
    Records context ((condition.toList.map Node.condition).flatMap Node.preorder) s t ∧
      ∀ code, code? = some code → ∃ c e, condition = some c ∧
        build context 1 (.condition c) = .ok e ∧ code = e.code := by
  cases condition with
  | none =>
    cases h
    exact ⟨.nil, nofun⟩
  | some c =>
    obtain ⟨e, u, he, hcode⟩ := bind_eq_ok h
    cases hcode
    have hrun := emission_eq_ok he
    obtain ⟨p, hbuild, rfl⟩ := emitCondition_eq_ok (congrArg Prod.fst hrun)
    have hmask : asMask context.scope p = p := by simp [asMask, hscope]
    refine ⟨by simpa using emitCondition_records hrun, ?_⟩
    rintro code ⟨⟩
    exact ⟨c, p, rfl, hbuild, by rw [hmask]⟩

/-- The code of a tree of the rule, within two bounds at the most. -/
def Stems (context : EmissionContext) (r : LeverageRule) (code : Code) : Prop :=
  ∃ n ∈ r.roots, ∃ e, build context 1 n = .ok e ∧
    ∃ bounds, bounds.length ≤ 2 ∧ code = clamped bounds e.code

theorem compileRule_emits (hscope : context.scope = .leverage) {index : Nat} {r : LeverageRule}
    {s t : Tally} {c : CompiledRule} (h : compileRule context index r s = .ok (c, t)) :
    Records context r.nodes s t ∧ Stems context r c.value ∧
      ∀ code, c.condition = some code → Stems context r code := by
  obtain ⟨u, hvalue, hcondition, -⟩ := compileRule_eq_ok h
  obtain ⟨hfirst, e, he, hsame⟩ := valueCode_emits hvalue
  obtain ⟨hsecond, hcode⟩ := conditionCode_emits hscope hcondition
  refine ⟨hfirst.append hsecond, ⟨_, by simp [LeverageRule.roots], e, he, _,
    r.leverage.length_clamps_le, hsame⟩, ?_⟩
  intro code hsome
  obtain ⟨d, e, hd, he, rfl⟩ := hcode code hsome
  exact ⟨_, by simp [LeverageRule.roots, hd], e, he, [], Nat.zero_le _, rfl⟩

/-- One rule after the other, each from the tally of the one before. -/
theorem compileRules_emits (hscope : context.scope = .leverage) {start : Nat}
    {rules : List LeverageRule} {s t : Tally} {compiled : List CompiledRule}
    (h : compileRules context start rules s = .ok (compiled, t)) :
    Records context (rules.flatMap LeverageRule.nodes) s t ∧
      ∀ c ∈ compiled, ∃ r ∈ rules, Stems context r c.value ∧
        ∀ code, c.condition = some code → Stems context r code := by
  induction rules generalizing start s compiled with
  | nil =>
    cases h
    exact ⟨.nil, nofun⟩
  | cons r rest ih =>
    obtain ⟨first, u, hfirst, h⟩ := bind_eq_ok h
    obtain ⟨others, _, hothers, h⟩ := bind_eq_ok h
    cases h
    obtain ⟨hrecords, hcodes⟩ := compileRule_emits hscope hfirst
    obtain ⟨hrest, hall⟩ := ih hothers
    refine ⟨hrecords.append hrest, List.forall_mem_cons.mpr ⟨⟨r, by simp, hcodes⟩, fun c hc => ?_⟩⟩
    obtain ⟨r', hr', hcodes⟩ := hall c hc
    exact ⟨r', List.mem_cons_of_mem _ hr', hcodes⟩

/-- **The code of a routine is that of its enabled rules, single numbers apart,** and its imports
are those that the nodes of these rules ask for. -/
theorem compile_emits {binding : Binding} {defaults : LeverageDefaults} {maxDepth : Int}
    {l : LeverageSettings} {r : Routine} (h : compile binding defaults maxDepth l = .ok r) :
    (∀ code ∈ r.codes, (∃ x, code = .float x) ∨ ∃ rule ∈ l.rules, rule.enabled = true ∧
      Stems ⟨.leverage, binding, maxDepth⟩ rule code) ∧
    ∀ x, x ∈ r.imports ↔ ∃ rule ∈ l.rules, rule.enabled = true ∧
      ∃ n ∈ rule.nodes, x ∈ nodeImports .leverage n := by
  obtain ⟨compiled, tally, steady, -, hrules, -, htail, hr⟩ := compile_eq_ok h
  obtain ⟨hrecords, hcompiled⟩ := compileRules_emits rfl hrules
  simp only [mem_ordered, and_assoc] at hcompiled
  have htailStems : (∃ x, r.tail.value = .float x) ∨ ∃ rule ∈ l.rules, rule.enabled = true ∧
      Stems ⟨.leverage, binding, maxDepth⟩ rule r.tail.value := by
    rcases tailOf_cases htail with
      ⟨c, hfind, htail, -⟩ | ⟨-, ⟨x, -, -, htail, -⟩ | ⟨-, htail, -⟩⟩
    · obtain ⟨rule, hmem, henabled, hvalue, -⟩ := hcompiled c (List.mem_of_find?_eq_some hfind)
      exact .inr ⟨rule, hmem, henabled, htail ▸ hvalue⟩
    · exact .inl ⟨x, congrArg Tail.value htail⟩
    · exact .inl ⟨_, congrArg Tail.value htail⟩
  constructor
  · simp only [Routine.codes, List.forall_mem_append, List.forall_mem_cons, List.mem_flatMap]
    refine ⟨⟨?_, htailStems, nofun⟩, ?_⟩
    · rw [hr]
      cases steady with
      | true => exact htailStems
      | false => exact .inl ⟨_, rfl⟩
    · rintro code ⟨b, hb, hcode⟩
      rw [hr] at hb
      obtain ⟨c, hc, hbranch⟩ := List.mem_filterMap.mp hb
      obtain ⟨condition, hcondition, rfl⟩ := Option.map_eq_some_iff.mp hbranch
      obtain ⟨rule, hmem, henabled, hvalue, hconditions⟩ := hcompiled c hc
      refine .inr ⟨rule, hmem, henabled, ?_⟩
      rcases List.mem_pair.mp hcode with rfl | rfl
      · exact hconditions _ hcondition
      · exact hvalue
  · intro x
    have himports : r.imports = tally.imports := by rw [hr]
    rw [himports, hrecords.imports]
    simp only [Tally.empty, List.not_mem_nil, false_or, List.mem_flatMap, mem_ordered]
    exact ⟨fun ⟨n, ⟨rule, ⟨hmem, henabled⟩, hn⟩, hx⟩ => ⟨rule, hmem, henabled, n, hn, hx⟩,
      fun ⟨rule, hmem, henabled, n, hn, hx⟩ => ⟨n, ⟨rule, ⟨hmem, henabled⟩, hn⟩, hx⟩⟩

/-- The code of a routine reads what the code of its rules reads. -/
theorem compile_reads {P : String → Prop} {binding : Binding} {defaults : LeverageDefaults}
    {maxDepth : Int} {l : LeverageSettings} {r : Routine}
    (hbuild : ∀ n e, build ⟨.leverage, binding, maxDepth⟩ 1 n = .ok e → e.Reads P)
    (h : compile binding defaults maxDepth l = .ok r) : r.Reads P := by
  have hcodes : ∀ code ∈ r.codes, code.Reads P := by
    intro code hcode column hcolumn
    rw [Code.mem_columns_iff] at hcolumn
    rcases (compile_emits h).1 code hcode with ⟨x, rfl⟩ | ⟨rule, -, -, n, -, e, he, bounds, -, rfl⟩
    · cases hcolumn
    · rw [references_clamped, ← Code.mem_columns_iff] at hcolumn
      exact (hbuild n e he).1 column hcolumn
  simp only [Routine.codes, List.forall_mem_append, List.forall_mem_cons,
    List.mem_flatMap] at hcodes
  obtain ⟨⟨hguard, htail, -⟩, hbranches⟩ := hcodes
  exact ⟨fun b hb => ⟨hbranches _ ⟨b, hb, by simp⟩, hbranches _ ⟨b, hb, by simp⟩⟩, htail, hguard⟩

end Leverage

/-! ## The lines of the method -/

namespace Script

/-- The expressions of a line, as they are written. -/
def Line.texts : Line → List String
  | .blank => []
  | .assign _ _ value => [value]
  | .test _ condition => [condition]
  | .finish _ value => [value]

/-- A text is an expression that reads only such columns. -/
def TextReads (P : String → Prop) (text : String) : Prop :=
  ∃ e, read text = some e ∧ ∀ column ∈ e.columns, P column

variable {P : String → Prop}

theorem textReads_row {text : String} {k : Nat} (h : read text = some (rowFromEnd k)) :
    TextReads P text := ⟨_, h, List.forall_mem_nil _⟩

theorem textReads_code {c : Code} (hwhole : c.Whole) (h : c.Reads P) : TextReads P c.render :=
  ⟨c.script, hwhole.read, by rwa [Code.columns_script]⟩

theorem textReads_capped {c : Code} (hwhole : c.Whole) (h : c.Reads P) :
    TextReads P (StrategyModule.capped c) := by
  refine ⟨limited c, read_capped hwhole, ?_⟩
  have hcolumns : (limited c).columns = c.columns := by
    simp [limited, least, Expr.columns, ArgList.columns, Code.columns_script]
  rwa [hcolumns]

theorem textReads_side : TextReads P "side == 'short'" := by
  refine ⟨sideTest.script, read_side, ?_⟩
  rw [Code.columns_script]
  nofun

theorem textReads_cap {x : Binary64} (hx : x.isFinite = true) :
    TextReads P ("min(max_leverage, " ++ x.text ++ ")") := by
  have htext : "min(max_leverage, " ++ x.text ++ ")" =
      "min(" ++ (Code.variable maxLeverage).render ++ ", " ++ (Code.float x).render ++ ")" := rfl
  rw [htext]
  refine ⟨_, Code.whole_maxLeverage.read_least (Code.whole_float hx), ?_⟩
  simp [least, Expr.columns, ArgList.columns, Code.columns_script, Code.columns, Code.float,
    -Code.script]

theorem candlesRead_reads {r : Routine} (hwhole : r.guardValue.Whole)
    (h : r.guardValue.Reads P) : ∀ line ∈ candlesRead r, ∀ text ∈ line.texts, TextReads P text := by
  have hfewer : TextReads P ("len(dataframe) < " ++ natText r.minCandles) :=
    ⟨_, read_fewer r.minCandles, by simp [fewer, Expr.columns, ArgList.columns]⟩
  have hrow : ∀ text ∈ ["dataframe.iloc[-1]", "dataframe.iloc[-2]",
      "self.dp.get_analyzed_dataframe(pair, self.timeframe)"], TextReads P text := by
    simp only [List.forall_mem_cons]
    exact ⟨textReads_row (k := 1) (read_row (by decide +kernel)),
      textReads_row (k := 2) (read_row (by decide +kernel)), ⟨_, read_table, List.forall_mem_nil _⟩,
      by simp⟩
  simp only [List.forall_mem_cons] at hrow
  obtain ⟨hlast, hprevious, htable, -⟩ := hrow
  unfold candlesRead
  split
  · rw [List.forall_mem_append]
    refine ⟨?_, ?_⟩
    · simp only [List.forall_mem_cons, Line.texts]
      simp [hlast, htable, hfewer, textReads_capped hwhole h]
    · split
      · simpa [Line.texts] using hprevious
      · simp
  · simp

/-- **Every line of the method reads what the code of the routine reads, or no column.** -/
theorem routineRead_reads {r : Routine} (hwhole : r.Whole) (h : r.Reads P)
    (hcap : ∀ x, r.cap = some x → x.isFinite = true) :
    ∀ line ∈ routineRead r, ∀ text ∈ line.texts, TextReads P text := by
  simp only [routineRead, List.forall_mem_cons, List.forall_mem_append]
  refine ⟨by simpa [Line.texts] using textReads_side, ?_,
    candlesRead_reads hwhole.guard h.guard, ?_, ?_⟩
  · intro line hline
    obtain ⟨x, hx, rfl⟩ := List.mem_map.mp hline
    simpa [Line.texts] using textReads_cap (hcap x (Option.mem_toList.mp hx))
  · intro line hline
    obtain ⟨b, hb, hline⟩ := List.mem_flatMap.mp hline
    obtain ⟨hcondition, hvalue⟩ := hwhole.branches b hb
    have hlines : ∀ line ∈ branchRead b, ∀ text ∈ line.texts, TextReads P text := by
      simp only [branchRead, List.forall_mem_cons, Line.texts]
      simp [textReads_code hcondition (h.branches b hb).1,
        textReads_capped hvalue (h.branches b hb).2]
    exact hlines line hline
  · simp only [tailRead, List.forall_mem_cons, Line.texts]
    simp [textReads_capped hwhole.tail h.tail]

end Script

end Stratagem
