import Stratagem.Proofs.Compiler.DepthGuard
import Stratagem.Proofs.Compiler.Returns
import Stratagem.Proofs.Compiler.Startup

/-! Numbers and keys that can be written. A section may be accepted and still hold a number that is
not finite or too long, or a key of digits that stand for no minutes, and then no module comes out.
This is the only way in which the numbers and keys of accepted sections get in the way: where all
are in order, whatever else fails has another reason, and the table of returns is written in
order. -/

namespace Stratagem

open Emission Schema Schema.Checked StrategyModule

variable {v : Value}

/-! ## Blame -/

/-- No literal for a number in the code of leverage, or no text for it in a message. -/
def LeverageError.OfNumber : LeverageError → Prop
  | .noLiteral _ | .emission (.invalidConstant _) | .notNumber none | .notPositive none => True
  | _ => False

/-- Blamed on a number of the parameters or of the leverage section, or on a key of the returns. -/
def CompileError.OfNumber : CompileError → Prop
  | .roi _ | .render _ => True
  | .leverage reason => reason.OfNumber
  | _ => False

/-! ## Trees -/

/-- No constant of a tree has an integer that is too long. -/
def Node.Written (n : Node) : Prop :=
  ∀ value, Node.operand (.constant value) ∈ n.preorder → value.toValue.hasLong = false

/-- Of the numbers of a tree only those that are too long get in the way of emission. -/
def Node.WellFormed (n : Node) : Prop :=
  ∀ context, HingesOn (fun reason => (LeverageError.emission reason).OfNumber) n.Written
    (build context 1 n)

theorem Node.ReadFrom.wellFormed {n : Node} (h : n.ReadFrom v) : n.WellFormed := by
  intro context
  have hverdict := build_verdict context n h.admissible 1
  refine ⟨fun e he value hvalue => ?_, fun hwritten reason hreason hnumber => ?_⟩
  · rw [he] at hverdict
    exact (hverdict.1.typed_of_mem hvalue).written value rfl
  · rw [hreason] at hverdict
    cases reason with
    | invalidConstant missing =>
      cases missing with
      | overlong =>
        obtain ⟨value, hvalue, hlong⟩ := FirstOffence.exists_hasLong hverdict rfl
        simp [hwritten value hvalue] at hlong
      | _ => exact FirstOffence.ne_malformed hverdict rfl
    | _ => exact hnumber

section Emitting

variable (context : EmissionContext) (tally : Tally)

theorem emitCondition_hinges {c : Condition} (h : (Node.condition c).WellFormed) :
    HingesOn (fun reason => (LeverageError.emission reason).OfNumber) (Node.condition c).Written
      (emitCondition context (.condition c) tally).1 := by
  rw [emitCondition_fst]
  exact (h context).map

theorem emitOperand_hinges {o : Operand} (h : (Node.operand o).WellFormed) :
    HingesOn (fun reason => (LeverageError.emission reason).OfNumber) (Node.operand o).Written
      (emitOperand context (.operand o) tally).1 := by
  rw [emitOperand_fst]
  refine ((h context).bind fun e _ => .of_failsOnly ?_).congr (and_true _).to_iff
  unfold asValue
  split
  · exact .error id
  · exact .ok _

end Emitting

/-! ## Leverage -/

/-- The bounds of a leverage value. -/
def LeverageValue.bounds : LeverageValue → List Binary64
  | .plain _ => []
  | .clamped _ min max => min.toList ++ max.toList

/-- The numbers of a rule: its bounds are finite, and no constant and not the priority is too
long. -/
structure LeverageRule.Written (r : LeverageRule) : Prop where
  bounds : ∀ x ∈ r.leverage.bounds, x.isFinite = true
  leverage : (Node.operand r.leverage.operand).Written
  condition : ∀ c ∈ r.condition, (Node.condition c).Written
  priority : isLong r.priority = false

structure LeverageRule.WellFormed (r : LeverageRule) : Prop where
  condition : ∀ c, r.condition = some c → (Node.condition c).WellFormed
  leverage : (Node.operand r.leverage.operand).WellFormed

theorem LeverageSettings.read_wellFormed {l : LeverageSettings}
    (h : LeverageSettings.read v = .good l) : ∀ r ∈ l.rules, r.WellFormed := by
  intro r hr
  have hwithin := LeverageSettings.read_within h le_rfl r hr
  constructor
  · intro c hc
    obtain ⟨_, _, hread⟩ := hwithin.condition c hc
    exact hread.wellFormed
  · obtain ⟨_, _, hread⟩ := hwithin.leverage
    exact hread.wellFormed

namespace Leverage

/-- A step of the compilation hinges on a condition, whatever the tally is. -/
def StepHinges {α : Type} (C : Prop) (x : Compile α) : Prop :=
  ∀ s, HingesOn LeverageError.OfNumber C (x s)

namespace StepHinges

variable {α : Type} {C : Prop}

theorem pure (a : α) : StepHinges True (Pure.pure a : Compile α) := fun _ => .ok _

theorem congr {x : Compile α} {D : Prop} (hx : StepHinges C x) (h : C ↔ D) :
    StepHinges D x := fun s => (hx s).congr h

theorem bind {β : Type} {x : Compile α} {f : α → Compile β} {D : Prop} (hx : StepHinges C x)
    (hf : ∀ a, StepHinges D (f a)) : StepHinges (C ∧ D) (x >>= f) :=
  fun s => (hx s).bind fun p _ => hf p.1 p.2

theorem lift {x : Except LeverageError α} (h : HingesOn LeverageError.OfNumber C x) :
    StepHinges C (liftM x : Compile α) :=
  fun _ => (h.bind fun _ _ => .ok _).congr (by simp)

theorem emission {run : Tally → Except EmissionError Emitted × Tally}
    (h : ∀ s, HingesOn (fun reason => (LeverageError.emission reason).OfNumber) C (run s).1) :
    StepHinges C (emission run) :=
  fun s => ⟨fun p hp => (h s).needed p.1 (congrArg Prod.fst (emission_eq_ok hp)),
    fun hc => emission_failsOnly ((h s).enough hc)⟩

end StepHinges

theorem floatCode_hingesOn (x : Binary64) :
    HingesOn LeverageError.OfNumber (x.isFinite = true) (floatCode x) := by
  refine ⟨fun code hcode => (floatCode_eq_ok hcode).1, fun hx => ?_⟩
  rw [floatCode, Value.literal, if_pos hx]
  exact .ok _

theorem checkConstant_blameless {value : Constant} (h : value.toValue.hasLong = false) :
    FailsOnly (fun reason => ¬ reason.OfNumber) (checkConstant value) := by
  have hshown : value.toValue.shown? = some value.toValue.written := by simp [Value.shown?, h]
  unfold checkConstant
  rw [hshown]
  split
  · split
    · exact .error id
    · split
      · exact .ok _
      · exact .error id
  · exact .error id

theorem checkedComment_hingesOn (index : Nat) (r : LeverageRule) :
    HingesOn LeverageError.OfNumber (isLong r.priority = false) (checkedComment index r) := by
  unfold checkedComment
  cases h : isLong r.priority with
  | true => exact ⟨nofun, nofun⟩
  | false => exact (HingesOn.ok _).congr (by simp)

theorem clamp_hingesOn (f : Extremum) (bound : Option Binary64) (code : Code) :
    HingesOn LeverageError.OfNumber (∀ x ∈ bound.toList, x.isFinite = true)
      (clamp f bound code) := by
  cases bound with
  | none => exact (HingesOn.ok code).congr (by simp)
  | some x => exact ((floatCode_hingesOn x).bind fun _ _ => .ok _).congr (by simp)

variable {context : EmissionContext}

theorem numberCode_hinges {o : Operand} (h : (Node.operand o).WellFormed) :
    StepHinges (Node.operand o).Written (numberCode context o) := by
  refine ((StepHinges.emission fun s => emitOperand_hinges context s h).bind fun e => ?_).congr
    (and_true _).to_iff
  split
  · exact .pure _
  · exact fun _ => .of_failsOnly (.error id)

/-- The check of a constant lets a number pass that is too long, and emission then refuses it. -/
theorem operandValue_hinges {o : Operand} (h : (Node.operand o).WellFormed) :
    StepHinges (Node.operand o).Written (operandValue context o) := by
  have hnumber : StepHinges _ (numberCode context o) := numberCode_hinges h
  unfold operandValue
  split
  · next value =>
    refine fun s => ⟨fun p hp => ?_, fun hwritten => ?_⟩
    · obtain ⟨_, u, _, hp⟩ := bind_eq_ok hp
      exact (hnumber u).needed _ hp
    · have hvalue := hwritten value ((Node.mem_preorder _).mpr (.inl rfl))
      have hcheck : StepHinges True (liftM (checkConstant value) : Compile Unit) :=
        .lift (.of_failsOnly (checkConstant_blameless hvalue))
      exact ((hcheck s).enough trivial).bind fun _ _ => (hnumber _).enough hwritten
  · exact hnumber

theorem valueCode_hinges {v : LeverageValue} (h : (Node.operand v.operand).WellFormed) :
    StepHinges ((Node.operand v.operand).Written ∧ ∀ x ∈ v.bounds, x.isFinite = true)
      (valueCode context v) := by
  cases v with
  | plain o =>
    exact (operandValue_hinges h).congr (by simp [LeverageValue.bounds, LeverageValue.operand])
  | clamped o min max =>
    refine ((operandValue_hinges h).bind fun _ => (StepHinges.lift (clamp_hingesOn .min max _)).bind
      fun _ => (StepHinges.lift (clamp_hingesOn .max min _)).bind fun _ => .pure _).congr ?_
    simp only [LeverageValue.bounds, LeverageValue.operand, List.forall_mem_append]
    tauto

theorem conditionCode_hinges {condition : Option Condition}
    (h : ∀ c, condition = some c → (Node.condition c).WellFormed) :
    StepHinges (∀ c ∈ condition, (Node.condition c).Written) (conditionCode context condition) := by
  cases condition with
  | none => exact (StepHinges.pure _).congr (by simp)
  | some c =>
    have hemit := StepHinges.emission fun s => emitCondition_hinges context s (h c rfl)
    exact (hemit.bind fun _ => .pure _).congr (by simp)

theorem compileRule_hinges {r : LeverageRule} (index : Nat) (h : r.WellFormed) :
    StepHinges r.Written (compileRule context index r) := by
  intro s
  rw [compileRule_eq]
  refine ((valueCode_hinges h.leverage s).bind fun p _ =>
    (conditionCode_hinges h.condition p.2).bind fun q _ =>
      (checkedComment_hingesOn index r).map).congr ?_
  exact ⟨fun ⟨⟨hvalue, hbounds⟩, hcondition, hpriority⟩ => ⟨hbounds, hvalue, hcondition, hpriority⟩,
    fun hr => ⟨⟨hr.leverage, hr.bounds⟩, hr.condition, hr.priority⟩⟩

theorem compileRules_hinges {rules : List LeverageRule} (start : Nat)
    (h : ∀ r ∈ rules, r.WellFormed) :
    StepHinges (∀ r ∈ rules, r.Written) (compileRules context start rules) := by
  induction rules generalizing start with
  | nil => exact (StepHinges.pure _).congr (by simp)
  | cons r rest ih =>
    obtain ⟨hr, hrest⟩ := List.forall_mem_cons.mp h
    refine ((compileRule_hinges start hr).bind fun _ => (ih (start + 1) hrest).bind fun _ =>
      .pure _).congr ?_
    simp

/-- The default counts only if every rule has a condition. -/
theorem tailOf_hingesOn (l : LeverageSettings) (fallback : Binary64)
    (compiled : List CompiledRule) :
    HingesOn LeverageError.OfNumber ((∀ c ∈ compiled, c.condition.isSome = true) →
      ∀ x ∈ l.defaultLeverage.toList, x.isFinite = true) (tailOf l fallback compiled) := by
  have hnone : compiled.find? (·.condition.isNone) = none ↔
      ∀ c ∈ compiled, c.condition.isSome = true := by
    simp [Option.isSome_iff_ne_none]
  rw [← hnone]
  unfold tailOf
  split
  · next c hfind => exact (HingesOn.ok _).congr (by simp [hfind])
  · next x hfind hdefault =>
    exact ((floatCode_hingesOn x).bind fun _ _ => .ok _).congr (by simp [hfind, hdefault])
  · next hfind hdefault => exact (HingesOn.ok _).congr (by simp [hdefault])

theorem Compiles.condition_isSome {r : LeverageRule} {c : CompiledRule} (h : Compiles context r c) :
    c.condition.isSome = r.condition.isSome := by
  have hrel := h.condition
  generalize r.condition = a, c.condition = b at hrel
  cases hrel <;> rfl

/-- Compiled rules have conditions where the rules have them. -/
theorem forall_isSome_of_compiles {rules : List LeverageRule} {compiled : List CompiledRule}
    (h : List.Forall₂ (Compiles context) rules compiled) :
    (∀ c ∈ compiled, c.condition.isSome = true) ↔ ∀ r ∈ rules, r.condition.isSome = true := by
  induction h with
  | nil => simp
  | cons hc _ ih =>
    rw [List.forall_mem_cons, List.forall_mem_cons, ih, hc.condition_isSome]

end Leverage

/-- The numbers in the code of leverage can be written: those of the enabled rules, the fallback,
and the default if each of these rules has a condition. -/
structure LeverageSettings.Written (fallback : Binary64) (l : LeverageSettings) : Prop where
  rules : ∀ r ∈ l.rules, r.enabled = true → r.Written
  fallback : fallback.isFinite = true
  default : (∀ r ∈ l.rules, r.enabled = true → r.condition.isSome = true) →
    ∀ x ∈ l.defaultLeverage.toList, x.isFinite = true

theorem Leverage.compile_hingesOn {l : LeverageSettings} (binding : Binding)
    (defaults : LeverageDefaults) (maxDepth : Int) (h : ∀ r ∈ l.rules, r.WellFormed) :
    HingesOn LeverageError.OfNumber (l.Written defaults.fallback)
      (compile binding defaults maxDepth l) := by
  have hordered : ∀ r ∈ ordered l.rules, r.WellFormed := fun r hr => h r (mem_ordered.mp hr).1
  have hcheck : HingesOn LeverageError.OfNumber True (checkUnconditional (ordered l.rules)) := by
    refine .of_failsOnly ?_
    unfold checkUnconditional
    dsimp only
    split
    · exact .error id
    · exact .ok _
  have htail (compiled : List CompiledRule)
      (hcompiled : List.Forall₂ (Compiles ⟨.leverage, binding, maxDepth⟩) (ordered l.rules)
        compiled) :
      HingesOn LeverageError.OfNumber ((∀ r ∈ ordered l.rules, r.condition.isSome = true) →
        ∀ x ∈ l.defaultLeverage.toList, x.isFinite = true) (tailOf l defaults.fallback compiled) :=
    (tailOf_hingesOn l defaults.fallback compiled).congr
      (by rw [forall_isSome_of_compiles hcompiled])
  refine (hcheck.bind fun _ _ => (compileRules_hinges 0 hordered Tally.empty).bind fun p hp =>
    (floatCode_hingesOn defaults.fallback).bind fun _ _ =>
      (htail p.1 (compileRules_compiles hp)).bind fun _ _ => .ok _).congr ?_
  simp only [mem_ordered, true_and, and_true, and_imp]
  exact ⟨fun ⟨hrules, hfallback, hdefault⟩ => ⟨hrules, hfallback, hdefault⟩,
    fun hl => ⟨hl.rules, hl.fallback, hl.default⟩⟩

/-! ## Documents -/

/-- The parameters and the leverage section of a document come from values that were accepted. -/
structure Document.Accepted (d : Document) : Prop where
  parameters : ∃ v, Parameters.read v = .good d.parameters
  leverage : ∀ l ∈ d.leverage, ∃ v, LeverageSettings.read v = .good l

/-- An empty mapping gives the default parameters. -/
theorem Parameters.read_empty : Parameters.read (.object []) = .good .default := by
  -- the numbers stay closed, for unfolding them would round fractions
  unfold Parameters.read Parameters.default
  generalize Binary64.ofRatio true 1 10 = loss, Binary64.ofRatio false 1 10 = gain
  rfl

theorem Document.read_accepted {d : Document} (h : Document.read v = .good d) : d.Accepted := by
  obtain ⟨fields, -, hread⟩ := Document.read_eq_good h
  constructor
  · rcases optional_eq_good hread.parameters with hdefault | ⟨_, _, w, _, _, hw⟩
    · exact ⟨_, hdefault ▸ Parameters.read_empty⟩
    · exact ⟨w, hw⟩
  · intro l hl
    obtain ⟨_, _, w, _, _, hw⟩ := nullable_eq_good (hl ▸ hread.leverage)
    exact ⟨w, hw⟩

/-- Mirroring replaces a side and leaves the sections as they are. -/
theorem applyMirror_accepted {d out : Document} (hd : d.Accepted) (h : d.applyMirror = .ok out) :
    out.Accepted := by
  rw [Document.applyMirror_frame h]
  exact ⟨hd.parameters, hd.leverage⟩

theorem prepare_accepted {limits : Limits} {raw : Value} {d : Document}
    (h : prepare limits raw = .ok d) : d.Accepted := by
  obtain ⟨before, hauthored, hmirror⟩ := exists_of_bind_ok h
  obtain ⟨_, _, -, hread⟩ := authored_eq_ok hauthored
  exact applyMirror_accepted (Document.read_accepted hread) (ok_of_mapError_ok hmirror)

/-! ## The pipeline -/

/-- The numbers among the parameters. -/
def Parameters.numbers (p : Parameters) : List Binary64 :=
  [p.stoploss] ++ (p.minimalRoi.map Prod.snd ++
    (p.trailingStopPositive.toList ++ p.trailingStopPositiveOffset.toList))

/-- All numbers of the parameters and of an enabled leverage section can be written, and the keys of
the returns stand for minutes. The number of candles at the start is that of the plan if none is
given. -/
structure Document.Writable (settings : Settings) (registry : Registry) (d : Document) : Prop where
  leverage : ∀ l ∈ d.leverage, l.enabled = true → l.Written settings.leverage.fallback
  keys : ∀ e ∈ d.parameters.minimalRoi, NamesMinutes e.1
  parameters : ∀ x ∈ d.parameters.numbers, x.isFinite = true
  startup : ∀ n ∈ d.parameters.startupCandleCount, isLong n = false
  warmup : d.parameters.startupCandleCount = none →
    ∀ p, plan settings registry d = .ok p → isLong p.startup = false
  cap : ∀ l ∈ d.leverage, l.enabled = true → ∀ x ∈ l.maxLeverage.toList, x.isFinite = true

variable {settings : Settings} {registry : Registry} {className : String} {d : Document}

theorem emitSignals_not_ofNumber (context : EmissionContext) (tally : Tally)
    (directions : List Direction) :
    FailsOnly (fun e => ¬ e.OfNumber) (emitSignals context d tally directions) := by
  intro e he
  obtain ⟨_, -, ⟨-, rfl⟩ | ⟨_, -, _, -, _, _, -, rfl⟩⟩ := emitSignals_eq_error he
  · exact id
  · exact id

theorem compileLeverage_hingesOn (binding : Binding) (h : d.Accepted) :
    HingesOn CompileError.OfNumber
      (∀ l ∈ d.leverage, l.enabled = true → l.Written settings.leverage.fallback)
      (compileLeverage settings binding d.leverage) := by
  cases hl : d.leverage with
  | none => exact (HingesOn.ok none).congr (by simp)
  | some l =>
    rw [compileLeverage]
    split
    · next henabled =>
      obtain ⟨v, hv⟩ := h.leverage l hl
      have hcompile : HingesOn (fun reason => CompileError.OfNumber (.leverage reason))
          (l.Written settings.leverage.fallback)
          (Leverage.compile binding settings.leverage settings.limits.maxDepth l) :=
        Leverage.compile_hingesOn _ _ _ (LeverageSettings.read_wellFormed hv)
      exact (HingesOn.mapError hcompile.map).congr (by simp [henabled])
    · next hdisabled => exact (HingesOn.ok none).congr (by simp [hdisabled])

theorem plan_hingesOn (h : d.Accepted) :
    HingesOn CompileError.OfNumber
      (∀ l ∈ d.leverage, l.enabled = true → l.Written settings.leverage.fallback)
      (plan settings registry d) := by
  have hbind : HingesOn CompileError.OfNumber True
      ((registry.bind d.indicators).mapError .binding) := .of_failsOnly (.mapError fun _ _ => id)
  refine (hbind.bind fun binding _ => HingesOn.bind
    (.of_failsOnly (emitSignals_not_ofNumber _ _ _)) fun _ _ =>
      (compileLeverage_hingesOn binding h).bind fun _ _ => .ok _).congr ?_
  simp

theorem assemble_hingesOn (p : Plan) (h : d.Accepted) :
    HingesOn CompileError.OfNumber (∀ e ∈ d.parameters.minimalRoi, NamesMinutes e.1)
      (assemble settings className d p) := by
  have hkeys : ∀ e ∈ d.parameters.minimalRoi, e.1.isEmpty = false := fun e he => by
    obtain ⟨v, hv⟩ := h.parameters
    have hdigits := Parameters.read_digits hv e he
    simp only [Text.isDigits, Bool.and_eq_true, Bool.not_eq_true'] at hdigits
    exact hdigits.1
  have hcode : HingesOn CompileError.OfNumber True (p.binding.code.mapError .snippet) :=
    .of_failsOnly (.mapError fun _ _ => id)
  exact ((HingesOn.mapError (sortedRoi_hingesOn hkeys)).bind fun _ _ => hcode.bind fun _ _ =>
    .ok _).congr (by simp)

theorem writeModule_hingesOn (m : StrategyModule) :
    HingesOn CompileError.OfNumber (∀ v ∈ m.numbers, v.hasLiteral = true)
      (writeModule settings m) := by
  have hlines : HingesOn (fun _ => True) (∀ v ∈ m.numbers, v.hasLiteral = true) m.lines := by
    rw [m.lines_eq]
    refine ⟨fun lines h => (ifWritten_eq_ok.mp h).1, fun hwritten reason hreason _ => ?_⟩
    cases (ifWritten_eq_ok.mpr ⟨hwritten, rfl⟩).symm.trans hreason
  have hrender : HingesOn CompileError.OfNumber (∀ v ∈ m.numbers, v.hasLiteral = true)
      (m.render.mapError fun reason => .render (.noLiteral reason)) :=
    .mapError ((hlines.bind fun _ _ => .ok _).congr (and_true _).to_iff)
  refine (hrender.bind fun code _ => .of_failsOnly ?_).congr (and_true _).to_iff
  split
  · split
    · exact .ok _
    · exact .error id
  · exact .ok _

/-- The cap of a routine is that of its enabled section. -/
theorem mem_cap_iff {binding : Binding} {routine? : Option Routine}
    (h : compileLeverage settings binding d.leverage = .ok routine?) {x : Binary64} :
    x ∈ (routine?.bind Routine.cap).toList ↔
      ∃ l ∈ d.leverage, l.enabled = true ∧ x ∈ l.maxLeverage.toList := by
  cases hl : d.leverage with
  | none =>
    rw [hl] at h
    cases h
    simp
  | some l =>
    rw [hl] at h
    cases henabled : l.enabled with
    | false =>
      rw [compileLeverage, henabled] at h
      cases h
      simp [henabled]
    | true =>
      obtain ⟨r, rfl, hr⟩ := compileLeverage_of_enabled henabled h
      obtain ⟨_, hparts⟩ := Leverage.compile_parts hr
      simp [henabled, hparts.cap]

/-- The numbers of the attributes are those of the parameters and the candles at the start. -/
theorem forall_attributeNumbers_iff {p : Plan} {m : StrategyModule}
    (h : assemble settings className d p = .ok m) :
    (∀ v ∈ m.attributeNumbers, v.hasLiteral = true) ↔
      (∀ x ∈ d.parameters.numbers, x.isFinite = true) ∧
      isLong ((d.parameters.startupCandleCount.map Int.ofNat).getD p.startup) = false := by
  have hm := assemble_assembled h
  simp only [attributeNumbers, Parameters.numbers, List.forall_mem_append, List.forall_mem_map,
    List.forall_mem_singleton, Value.hasLiteral_float, Value.hasLiteral_int, Bool.not_eq_true',
    hm.stoploss, hm.trailingStopPositive, hm.trailingStopPositiveOffset, hm.startupCandleCount,
    (sortedRoi_eq_ok hm.minimalRoi).1.mem_iff, and_assoc]

/-- The numbers of a module can be written where those of the document can. -/
theorem forall_numbers_iff {p : Plan} {m : StrategyModule}
    (hplan : plan settings registry d = .ok p)
    (hassemble : assemble settings className d p = .ok m) :
    (∀ v ∈ m.numbers, v.hasLiteral = true) ↔
      (∀ x ∈ d.parameters.numbers, x.isFinite = true) ∧
      ((∀ n ∈ d.parameters.startupCandleCount, isLong n = false) ∧
        (d.parameters.startupCandleCount = none →
          ∀ p, plan settings registry d = .ok p → isLong p.startup = false)) ∧
      ∀ l ∈ d.leverage, l.enabled = true → ∀ x ∈ l.maxLeverage.toList, x.isFinite = true := by
  obtain ⟨-, -, -, -, hroutine⟩ := assemble_eq_ok hassemble
  obtain ⟨-, -, hleverage⟩ := plan_eq_ok hplan
  have hstartup : isLong ((d.parameters.startupCandleCount.map Int.ofNat).getD p.startup) = false ↔
      (∀ n ∈ d.parameters.startupCandleCount, isLong n = false) ∧
      (d.parameters.startupCandleCount = none →
        ∀ p, plan settings registry d = .ok p → isLong p.startup = false) := by
    cases d.parameters.startupCandleCount <;> simp [hplan]
  have hcap : (∀ v ∈ leverageNumbers m.leverage, v.hasLiteral = true) ↔
      ∀ l ∈ d.leverage, l.enabled = true → ∀ x ∈ l.maxLeverage.toList, x.isFinite = true := by
    rw [hroutine, leverageNumbers]
    simp only [List.forall_mem_map, mem_cap_iff hleverage, Value.hasLiteral_float]
    grind
  rw [numbers, List.forall_mem_append, forall_attributeNumbers_iff hassemble, hstartup, hcap,
    and_assoc]

theorem compileDocument_hingesOn (h : d.Accepted) :
    HingesOn CompileError.OfNumber (d.Writable settings registry)
      (compileDocument settings registry className d) := by
  refine ((plan_hingesOn h).bind fun p hplan => (assemble_hingesOn p h).bind
    fun m hassemble => ((writeModule_hingesOn m).congr
      (forall_numbers_iff hplan hassemble)).bind fun _ _ => .ok _).congr ?_
  rw [and_true]
  exact ⟨fun ⟨hleverage, hkeys, hnumbers, ⟨hgiven, hwarmup⟩, hcap⟩ =>
      ⟨hleverage, hkeys, hnumbers, hgiven, hwarmup, hcap⟩,
    fun hd => ⟨hd.leverage, hd.keys, hd.parameters, ⟨hd.startup, hd.warmup⟩, hd.cap⟩⟩

/-! ## The table of returns -/

theorem roiTable_printable (entries : List (String × Binary64)) :
    ∀ line ∈ roiTable entries, Text.Printable line := by
  simp only [roiTable, List.forall_mem_append, List.forall_mem_cons, List.forall_mem_map]
  refine ⟨⟨Text.printable_literal (by decide), fun e _ => ?_⟩, Text.printable_literal (by decide),
    by simp⟩
  have hkey : Text.Printable ("        " ++ Text.quoted e.1) :=
    .append (Text.printable_literal (by decide)) (Text.printable_quoted _)
  exact .append (.enclosed hkey (Text.printable_literal (by decide)) (Text.printable_float _))
    (Text.printable_literal (by decide))

/-- The table is written line by line, in the order of its minutes. -/
theorem roiTable_infix {g : Generated}
    (h : compileDocument settings registry className d = .ok g) :
    ∃ entries, sortedRoi d.parameters.minimalRoi = .ok entries ∧
      roiTable entries <:+: Text.lines g.code := by
  obtain ⟨p, m, -, hm, hattributes⟩ := compileDocument_attributes h
  exact ⟨m.minimalRoi, hm.minimalRoi, hattributes _ ⟨_, _, rfl⟩ (roiTable_printable _)⟩

/-- **Accepted sections can be written exactly if their numbers are finite and not too long and
their keys stand for minutes.** Where this is so, no failure is to be blamed on them. A module comes
out only there, and its table of returns holds the given entries in ascending order of their
minutes. -/
theorem accepted_sections_written (h : d.Accepted) :
    (d.Writable settings registry →
      FailsOnly (fun e => ¬ e.OfNumber) (compileDocument settings registry className d)) ∧
    ∀ g, compileDocument settings registry className d = .ok g →
      d.Writable settings registry ∧ ∃ entries : List (String × Binary64),
        entries.Perm d.parameters.minimalRoi ∧
        (entries.Pairwise fun a b => NoLater a.1 b.1) ∧
        roiTable entries <:+: Text.lines g.code := by
  have hhinges : HingesOn CompileError.OfNumber (d.Writable settings registry)
      (compileDocument settings registry className d) := compileDocument_hingesOn h
  refine ⟨hhinges.enough, fun g hg => ⟨hhinges.needed g hg, ?_⟩⟩
  obtain ⟨entries, hsorted, htable⟩ := roiTable_infix hg
  obtain ⟨hperm, hpairwise⟩ := sortedRoi_eq_ok hsorted
  exact ⟨entries, hperm, hpairwise, htable⟩

theorem momentum_sections_written : ∃ d g, prepare unchecked.limits momentumRaw = .ok d ∧
    d.Accepted ∧ d.parameters.minimalRoi.map Prod.fst = ["\u0663"] ∧
    compileDocument unchecked .builtin "Sample" d = .ok g ∧
    d.Writable unchecked .builtin ∧ ∃ entries : List (String × Binary64),
      entries.Perm d.parameters.minimalRoi ∧ roiTable entries <:+: Text.lines g.code := by
  obtain ⟨d, g, -, -, hprepare, hgenerate, -, -, -, -, -, -, hkeys⟩ := momentum_generates
  obtain ⟨className, d', hname, hd', hcompile⟩ := generate_eq_ok_iff.mp hgenerate
  obtain rfl : d' = d := Except.ok.inj (hd'.symm.trans hprepare)
  obtain rfl : "Sample" = className := Except.ok.inj hname
  have haccepted := prepare_accepted hprepare
  obtain ⟨hwritable, entries, hperm, -, htable⟩ :=
    (accepted_sections_written haccepted).2 g hcompile
  exact ⟨d', g, hprepare, haccepted, hkeys, hcompile, hwritable, entries, hperm, htable⟩

/-- A table of returns whose key is a digit, but no decimal one. -/
def superscriptRaw : Value :=
  .object [("version", .int 2), ("long", .object []),
    ("parameters", .object [("minimal_roi", .object [("²", .int 1)])])]

/-- A key is accepted that stands for no minutes, and compiling fails for this reason. -/
theorem accepted_key_without_minutes :
    (∃ d, prepare {} superscriptRaw = .ok d ∧ d.Accepted) ∧
    ∃ e, generate {} .builtin superscriptRaw (some "Rsi") = .error e ∧
      e = .roi (.notDecimal "²") ∧ e.kind = .internal := by
  have hprepare : (prepare {} superscriptRaw).toOption.isSome = true := by decide +kernel
  have hgenerate : (match generate {} .builtin superscriptRaw (some "Rsi") with
      | .error (.roi (.notDecimal key)) => key == "²"
      | _ => false) = true := by decide +kernel
  constructor
  · obtain ⟨d, hd⟩ := Option.isSome_iff_exists.mp hprepare
    exact ⟨d, toOption_eq_some hd, prepare_accepted (toOption_eq_some hd)⟩
  · split at hgenerate
    · next key heq =>
      obtain rfl := eq_of_beq hgenerate
      exact ⟨_, heq, rfl, rfl⟩
    · cases hgenerate

end Stratagem
