import Stratagem.Compiler.Generate
import Stratagem.Proofs.Emission.Recursion

/-! What of a document the compiler looks at. The essence of a document has no ids and labels of
conditions, no labels of indicators, no signals of directions that are not traded, no disabled
rules, no leverage section that is disabled, and nothing of the mirror policy, the version, the
callbacks and the unknown parameters. `compileDocument_essence` says that a document and its essence
compile to the same module or fail with the same error; each stage of the compiler has a lemma of
this kind. -/

namespace Stratagem

/-! ## Conditions without marks -/

def Mark.blank : Mark := ⟨none, none⟩

mutual

/-- The condition without any id or label. -/
def Condition.unmarked : Condition → Condition
  | .all _ children => .all .blank (Condition.allUnmarked children)
  | .any _ children => .any .blank (Condition.allUnmarked children)
  | .not _ child => .not .blank child.unmarked
  | .ifThen _ c t => .ifThen .blank c.unmarked t.unmarked
  | .ifThenElse _ c t e => .ifThenElse .blank c.unmarked t.unmarked e.unmarked
  | .compare _ left operator right => .compare .blank left operator right
  | .crossover _ a b => .crossover .blank a b
  | .crossunder _ a b => .crossunder .blank a b
  | .inRange _ v low high inclusive => .inRange .blank v low high inclusive

def Condition.allUnmarked : List Condition → List Condition
  | [] => []
  | c :: rest => c.unmarked :: Condition.allUnmarked rest

end

theorem Condition.allUnmarked_eq (cs : List Condition) :
    Condition.allUnmarked cs = cs.map Condition.unmarked := by
  induction cs with
  | nil => rfl
  | cons c rest ih => rw [Condition.allUnmarked, ih, List.map_cons]

def Node.unmarked : Node → Node
  | .condition c => .condition c.unmarked
  | .operand o => .operand o

theorem Node.children_unmarked (n : Node) : n.unmarked.children = n.children.map Node.unmarked := by
  cases n with
  | operand o => cases o <;> simp [Node.unmarked, Node.children, Function.comp_def]
  | condition c =>
    cases c <;> simp [Node.unmarked, Node.children, Condition.unmarked, Condition.allUnmarked_eq,
      Function.comp_def]

namespace Emission

theorem node_unmarked (context : EmissionContext) (n : Node) (parts : List Emitted) :
    node context n.unmarked parts = node context n parts := by
  cases n with
  | operand o => rfl
  | condition c => cases c <;> rfl

theorem record_unmarked (tally : Tally) (scope : Scope) (n : Node) (e : Emitted) :
    tally.record scope n.unmarked e = tally.record scope n e := by
  cases n with
  | operand o => rfl
  | condition c => cases c <;> rfl

theorem descendAll_map {context : EmissionContext} {f : Node → Node} {depth : Nat} {ns : List Node}
    (h : ∀ n ∈ ns, ∀ tally, descend context depth (f n) tally = descend context depth n tally)
    (tally : Tally) :
    descendAll context depth (ns.map f) tally = descendAll context depth ns tally := by
  induction ns generalizing tally with
  | nil => rfl
  | cons n rest ih =>
    obtain ⟨hn, hrest⟩ := List.forall_mem_cons.mp h
    simp only [List.map_cons, descendAll, hn tally, ih hrest]

/-- Emission does not look at marks. -/
theorem descend_unmarked (context : EmissionContext) (n : Node) :
    ∀ depth tally, descend context depth n.unmarked tally = descend context depth n tally := by
  induction n using Node.induction with
  | step n ih =>
    intro depth tally
    have hparts := descendAll_map (fun m hm => ih m hm (depth + 1)) tally
    rw [descend, descend, Node.children_unmarked, hparts]
    simp only [node_unmarked, record_unmarked]

theorem emitCondition_unmarked (context : EmissionContext) (c : Condition) :
    emitCondition context (.condition c.unmarked) = emitCondition context (.condition c) := by
  funext tally
  have h := descend_unmarked context (.condition c) 1 tally
  rw [emitCondition, emitCondition, tree_eq_descend, tree_eq_descend]
  rw [Node.unmarked] at h
  rw [h]

end Emission

/-! ## Signals and indicators -/

def SignalConfig.unmarked (s : SignalConfig) : SignalConfig := ⟨s.entry.unmarked, s.exit.unmarked⟩

def IndicatorDeclaration.unlabelled (d : IndicatorDeclaration) : IndicatorDeclaration :=
  { d with label := none }

theorem Registry.bindFrom_unlabelled (r : Registry) (bound : List BoundIndicator)
    (owners : Registry.Owners) (ds : List IndicatorDeclaration) :
    r.bindFrom bound owners (ds.map .unlabelled) = r.bindFrom bound owners ds := by
  induction ds generalizing bound owners with
  | nil => rfl
  | cons d rest ih =>
    have hone : r.bindOne bound d.unlabelled = r.bindOne bound d := rfl
    simp only [List.map_cons, Registry.bindFrom, hone, ih]
    rfl

theorem emitMask_unmarked (context : EmissionContext) (tally : Tally) (c : Condition) :
    emitMask context tally c.unmarked = emitMask context tally c := by
  rw [emitMask, emitMask, Emission.emitCondition_unmarked]

/-! ## Leverage -/

def LeverageRule.unmarked (r : LeverageRule) : LeverageRule :=
  { r with condition := r.condition.map Condition.unmarked }

/-- The enabled rules, with no marks in their conditions. -/
def LeverageSettings.essence (l : LeverageSettings) : LeverageSettings :=
  { l with rules := (l.rules.filter LeverageRule.enabled).map LeverageRule.unmarked }

namespace Leverage

theorem ordered_essence (l : LeverageSettings) :
    ordered l.essence.rules = (ordered l.rules).map LeverageRule.unmarked := by
  have henabled : l.essence.rules.filter LeverageRule.enabled = l.essence.rules := by
    rw [List.filter_eq_self]
    intro r hr
    obtain ⟨s, hs, rfl⟩ := List.mem_map.mp hr
    exact (List.mem_filter.mp hs).2
  rw [ordered, henabled, LeverageSettings.essence, ordered]
  exact (List.map_mergeSort (f := LeverageRule.unmarked) fun _ _ _ _ => rfl).symm

theorem compileRule_unmarked (context : EmissionContext) (index : Nat) (r : LeverageRule) :
    compileRule context index r.unmarked = compileRule context index r := by
  obtain ⟨id, label, priority, enabled, condition, value⟩ := r
  cases condition with
  | none => rfl
  | some c =>
    simp only [compileRule, LeverageRule.unmarked, Option.map_some,
      Emission.emitCondition_unmarked]
    rfl

theorem compileRules_unmarked (context : EmissionContext) (start : Nat)
    (rules : List LeverageRule) :
    compileRules context start (rules.map LeverageRule.unmarked) =
      compileRules context start rules := by
  induction rules generalizing start with
  | nil => rfl
  | cons r rest ih => simp only [List.map_cons, compileRules, compileRule_unmarked, ih]

theorem checkUnconditional_unmarked (rules : List LeverageRule) :
    checkUnconditional (rules.map LeverageRule.unmarked) = checkUnconditional rules := by
  have hbare : (rules.map LeverageRule.unmarked).filter (·.condition.isNone) =
      (rules.filter (·.condition.isNone)).map LeverageRule.unmarked := by
    rw [List.filter_map]
    congr 2
    funext r
    simp [LeverageRule.unmarked]
  simp only [checkUnconditional, hbare, List.length_map, List.map_map]
  rfl

theorem compile_essence (binding : Binding) (defaults : LeverageDefaults) (maxDepth : Int)
    (l : LeverageSettings) :
    compile binding defaults maxDepth l.essence = compile binding defaults maxDepth l := by
  have htail : tailOf l.essence = tailOf l := rfl
  have hcap : l.essence.maxLeverage = l.maxLeverage := rfl
  simp only [compile, ordered_essence, checkUnconditional_unmarked, compileRules_unmarked, htail,
    hcap]

end Leverage

/-! ## Documents -/

/-- The part of a document that its module depends on. -/
def Document.essence (d : Document) : Document where
  version := 0
  positionMode := d.positionMode
  indicators := d.indicators.map .unlabelled
  long := if d.positionMode.trades .long then d.long.map .unmarked else none
  short := if d.positionMode.trades .short then d.short.map .unmarked else none
  mirror := none
  leverage := (d.leverage.filter LeverageSettings.enabled).map .essence
  parameters := { d.parameters with extra := [] }
  callbacks := []

theorem Document.signal_essence {d : Document} {direction : Direction}
    (h : d.positionMode.trades direction = true) :
    d.essence.signal direction = (d.signal direction).map .unmarked := by
  cases direction <;> simp [Document.essence, Document.signal, h]

theorem emitSignals_essence (context : EmissionContext) (d : Document) (tally : Tally)
    {directions : List Direction}
    (h : ∀ direction ∈ directions, d.positionMode.trades direction = true) :
    emitSignals context d.essence tally directions = emitSignals context d tally directions := by
  induction directions generalizing tally with
  | nil => rfl
  | cons direction rest ih =>
    obtain ⟨hfirst, hrest⟩ := List.forall_mem_cons.mp h
    rw [emitSignals, emitSignals, Document.signal_essence hfirst]
    cases d.signal direction with
    | none => rfl
    | some s =>
      simp only [Option.map_some, SignalConfig.unmarked, emitMask_unmarked, ih _ hrest]

theorem compileLeverage_essence (settings : Settings) (binding : Binding) (d : Document) :
    compileLeverage settings binding d.essence.leverage =
      compileLeverage settings binding d.leverage := by
  simp only [Document.essence]
  cases d.leverage with
  | none => rfl
  | some l =>
    cases hl : l.enabled with
    | false => simp [compileLeverage, Option.filter, hl]
    | true =>
      have henabled : l.essence.enabled = true := hl
      simp [compileLeverage, Option.filter, hl, henabled, Leverage.compile_essence]

theorem plan_essence (settings : Settings) (registry : Registry) (d : Document) :
    plan settings registry d.essence = plan settings registry d := by
  have hbind : registry.bind d.essence.indicators = registry.bind d.indicators :=
    registry.bindFrom_unlabelled [] [] d.indicators
  have hsignals : ∀ context tally, emitSignals context d.essence tally d.positionMode.directions =
      emitSignals context d tally d.positionMode.directions :=
    fun context tally => emitSignals_essence context d tally fun _ h => (List.mem_filter.mp h).2
  have hmode : d.essence.positionMode = d.positionMode := rfl
  simp only [plan, hbind, hmode, hsignals, compileLeverage_essence]

/-- **A document compiles as its essence does.** -/
theorem compileDocument_essence (settings : Settings) (registry : Registry) (className : String)
    (d : Document) : compileDocument settings registry className d.essence =
      compileDocument settings registry className d := by
  have hassemble : assemble settings className d.essence = assemble settings className d := rfl
  simp only [compileDocument, plan_essence, hassemble]

end Stratagem
