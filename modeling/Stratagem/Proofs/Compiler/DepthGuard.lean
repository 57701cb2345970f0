import Stratagem.Proofs.Compiler.Pipeline
import Stratagem.Proofs.Document.Mirroring
import Stratagem.Proofs.Document.Sources
import Stratagem.Proofs.Emission.Mirrored

/-! The guards on depth. The size guard counts the containers around a place in the raw document,
emission the nodes above a node of a tree. A node takes a container to write, and mirroring keeps
the shape of a tree, so where the first guard has let a document through the second never strikes; a
compilation that fails over a size has failed at the first. -/

namespace Stratagem

open Emission

variable {n : Node} {depth : Nat} {maxDepth : Int} {d : Document} {c : Condition} {s : SignalConfig}
  {raw : Value} {settings : Settings}

/-! ## Trees -/

/-- A node lies at a depth in its tree that the value of the tree has containers for. -/
theorem Node.ReadFrom.occurs_lt {m : Node} {v : Value} {d : Nat} (h : n.ReadFrom v)
    (hm : n.Occurs depth m d) : d < depth + v.depth := by
  induction n using Node.induction generalizing v depth with
  | step n ih =>
    obtain ⟨fields, rfl, hn⟩ := h.inv
    rcases (Node.occurs_iff ..).mp hm with ⟨rfl, rfl⟩ | ⟨k, hk, hocc⟩
    · rw [Value.depth]
      omega
    · obtain ⟨w, hw, hread⟩ := hn.parts k hk
      have hbelow := ih k hk hread hocc
      have hdepth := Value.depth_lt_of_holds hw
      omega

theorem Node.offence_ne_tooDeep (n : Node) : n.offence ≠ .tooDeep := by
  unfold Node.offence
  split <;> simp

/-- Some node is too deep if that is the first offence of a tree. -/
theorem Emission.FirstOffence.exists_deep {context : EmissionContext} {offence : Offence}
    (h : FirstOffence context depth n offence) (hdeep : offence = .tooDeep) :
    ∃ m d, n.Occurs depth m d ∧ context.maxDepth < (d : Int) := by
  induction h with
  | deep h => exact ⟨_, _, .root, h⟩
  | part _ hparts _ _ ih =>
    obtain ⟨k, d, hk, hd⟩ := ih hdeep
    exact ⟨k, d, (Node.occurs_iff ..).mpr (.inr ⟨_, by simp [hparts], hk⟩), hd⟩
  | own => exact absurd hdeep (Node.offence_ne_tooDeep _)

/-- Emission does not refuse a tree for its depth. -/
def Node.Fits (maxDepth : Int) (n : Node) : Prop :=
  ∀ scope binding,
    FailsOnly (fun reason => reason.offence ≠ .tooDeep) (build ⟨scope, binding, maxDepth⟩ 1 n)

theorem Node.ReadWithin.fits (h : n.ReadWithin depth) : n.Fits depth := by
  intro scope binding reason hreason hdeep
  obtain ⟨v, hv, hread⟩ := h
  have hverdict := build_verdict ⟨scope, binding, depth⟩ n hread.admissible 1
  rw [hreason] at hverdict
  obtain ⟨m, d, hocc, hd⟩ := FirstOffence.exists_deep hverdict hdeep
  have hlt := hread.occurs_lt hocc
  simp only at hd
  omega

theorem Node.Fits.mirror (h : n.Fits maxDepth) (p : MirrorPolicy) : (n.mirror p).Fits maxDepth := by
  intro scope binding reason hreason
  have hn := h scope binding
  have hagree := descend_mirror ⟨scope, binding, maxDepth⟩ p n 1 Tally.empty
  unfold build at hn hreason
  generalize descend ⟨scope, binding, maxDepth⟩ 1 (n.mirror p) Tally.empty = x at hagree hreason
  generalize descend ⟨scope, binding, maxDepth⟩ 1 n Tally.empty = y at hagree hn
  rcases hagree with ⟨hsame | hoffence, _⟩
  · cases hreason
  · cases hreason
    rw [hoffence]
    exact hn _ rfl

section Emitting

variable {maxDepth : Int} (scope : Scope) (binding : Binding) (tally : Tally)

theorem emitCondition_failsOnly {c : Condition} (h : (Node.condition c).Fits maxDepth) :
    FailsOnly (fun reason => reason.offence ≠ .tooDeep)
      (emitCondition ⟨scope, binding, maxDepth⟩ (.condition c) tally).1 := by
  rw [emitCondition_fst]
  exact (h scope binding).map

theorem emitOperand_failsOnly {o : Operand} (h : (Node.operand o).Fits maxDepth) :
    FailsOnly (fun reason => reason.offence ≠ .tooDeep)
      (emitOperand ⟨scope, binding, maxDepth⟩ (.operand o) tally).1 := by
  rw [emitOperand_fst]
  refine (h scope binding).bind fun e _ => ?_
  unfold asValue
  split
  · exact .error (by simp [EmissionError.offence])
  · exact .ok _

end Emitting

theorem EmissionError.kind_ne_sizeLimit {reason : EmissionError} (h : reason.offence ≠ .tooDeep) :
    reason.kind ≠ .sizeLimit := by
  rw [EmissionError.kind_eq]
  cases hoffence : reason.offence with
  | tooDeep => exact absurd hoffence h
  | _ => simp [Offence.kind]

/-! ## Documents -/

theorem mem_roots_of_tree (h : c ∈ d.trees) : Node.condition c ∈ d.roots :=
  List.mem_append_left _ (List.mem_map_of_mem h)

theorem mem_roots_of_rule {l : LeverageSettings} {r : LeverageRule} (hl : d.leverage = some l)
    (hr : r ∈ l.rules) : Node.operand r.leverage.operand ∈ d.roots := by
  refine List.mem_append_right _ ?_
  rw [hl]
  exact List.mem_map_of_mem hr

theorem mem_roots_of_signal {direction : Direction} (h : d.signal direction = some s)
    (hc : c ∈ s.trees) : Node.condition c ∈ d.roots := by
  apply mem_roots_of_tree
  cases direction with
  | long =>
    have hlong : d.long = some s := h
    simp [Document.trees, hlong, hc]
  | short =>
    have hshort : d.short = some s := h
    simp [Document.trees, hshort, hc]

theorem mem_roots_withSignal {direction : Direction} (h : n ∈ (d.withSignal direction s).roots) :
    n ∈ d.roots ∨ ∃ c ∈ s.trees, n = .condition c := by
  cases direction <;>
    simp only [Document.withSignal, Document.roots, Document.trees, List.mem_append, List.mem_map,
      Option.map_some, Option.getD_some] at h ⊢ <;>
    grind

theorem mem_trees_mirror {p : MirrorPolicy} (h : c ∈ (s.mirror p).trees) :
    ∃ b ∈ s.trees, c = b.mirror p := by
  simp only [SignalConfig.trees, SignalConfig.mirror, List.mem_cons, List.not_mem_nil,
    or_false] at h ⊢
  rcases h with rfl | rfl
  · exact ⟨s.entry, .inl rfl, rfl⟩
  · exact ⟨s.exit, .inr rfl, rfl⟩

theorem applyMirror_fits {out : Document} (hd : ∀ n ∈ d.roots, n.Fits maxDepth)
    (h : d.applyMirror = .ok out) : ∀ n ∈ out.roots, n.Fits maxDepth := by
  rcases Document.applyMirror_eq_ok h with rfl | ⟨m, s, -, -, hs, rfl⟩
  · exact hd
  · intro n hn
    rcases mem_roots_withSignal hn with hn | ⟨c, hc, rfl⟩
    · exact hd n hn
    · obtain ⟨b, hb, rfl⟩ := mem_trees_mirror hc
      exact (hd _ (mem_roots_of_signal hs hb)).mirror m.policy

theorem authored_fits {limits : Limits} (h : authored limits raw = .ok d) :
    ∀ n ∈ d.roots, n.Fits limits.maxDepth :=
  fun n hn => (authored_readWithin h n hn).fits

theorem prepare_fits {limits : Limits} (h : prepare limits raw = .ok d) :
    ∀ n ∈ d.roots, n.Fits limits.maxDepth := by
  obtain ⟨before, hauthored, hmirror⟩ := exists_of_bind_ok h
  exact applyMirror_fits (authored_fits hauthored) (ok_of_mapError_ok hmirror)

/-! ## Leverage -/

namespace Leverage

/-- No size is to blame when leverage fails to compile. -/
def Sizeless {α : Type} (x : Compile α) : Prop :=
  ∀ s, FailsOnly (fun reason => reason.kind ≠ .sizeLimit) (x s)

namespace Sizeless

variable {α : Type}

theorem pure (a : α) : Sizeless (Pure.pure a : Compile α) := fun _ => .ok _

theorem bind {β : Type} {x : Compile α} {f : α → Compile β} (hx : Sizeless x)
    (hf : ∀ a, Sizeless (f a)) : Sizeless (x >>= f) :=
  fun s => (hx s).bind fun p _ => hf p.1 p.2

theorem lift {x : Except LeverageError α}
    (h : FailsOnly (fun reason => reason.kind ≠ .sizeLimit) x) :
    Sizeless (liftM x : Compile α) := by
  intro s
  cases x with
  | error reason => exact .error (h reason rfl)
  | ok a => exact .ok _

theorem emission {run : Tally → Except EmissionError Emitted × Tally}
    (h : ∀ s, FailsOnly (fun reason => reason.offence ≠ .tooDeep) (run s).1) :
    Sizeless (emission run) :=
  fun s => emission_failsOnly ((h s).imp fun _ => EmissionError.kind_ne_sizeLimit)

end Sizeless

variable {maxDepth : Int} {scope : Scope} {binding : Binding}

theorem LeverageError.kind_ne_sizeLimit {reason : LeverageError}
    (h : ∀ e, reason ≠ .emission e) : reason.kind ≠ .sizeLimit := by
  cases reason with
  | emission e => exact absurd rfl (h e)
  | notNumber given | notPositive given => cases given <;> simp [LeverageError.kind]
  | _ => simp [LeverageError.kind]

theorem floatCode_failsOnly (x : Binary64) :
    FailsOnly (fun reason => reason.kind ≠ .sizeLimit) (floatCode x) := by
  unfold floatCode
  split
  · exact .ok _
  · exact .error (LeverageError.kind_ne_sizeLimit (by simp))

theorem checkConstant_failsOnly (value : Constant) :
    FailsOnly (fun reason => reason.kind ≠ .sizeLimit) (checkConstant value) := by
  unfold checkConstant
  split
  · split
    · exact .error (LeverageError.kind_ne_sizeLimit (by simp))
    · split
      · exact .ok _
      · exact .error (LeverageError.kind_ne_sizeLimit (by simp))
  · exact .error (LeverageError.kind_ne_sizeLimit (by simp))

theorem checkedComment_failsOnly (index : Nat) (r : LeverageRule) :
    FailsOnly (fun reason => reason.kind ≠ .sizeLimit) (checkedComment index r) := by
  unfold checkedComment
  split
  · exact .error (LeverageError.kind_ne_sizeLimit (by simp))
  · exact .ok _

theorem clamp_failsOnly (f : Extremum) (bound : Option Binary64) (code : Code) :
    FailsOnly (fun reason => reason.kind ≠ .sizeLimit) (clamp f bound code) := by
  cases bound with
  | none => exact .ok _
  | some x => exact (floatCode_failsOnly x).bind fun _ _ => .ok _

theorem numberCode_sizeless {o : Operand} (h : (Node.operand o).Fits maxDepth) :
    Sizeless (numberCode ⟨scope, binding, maxDepth⟩ o) := by
  refine (Sizeless.emission fun s => emitOperand_failsOnly scope binding s h).bind fun e => ?_
  split
  · exact .pure _
  · exact fun _ => .error (by simp [LeverageError.kind])

theorem operandValue_sizeless {o : Operand} (h : (Node.operand o).Fits maxDepth) :
    Sizeless (operandValue ⟨scope, binding, maxDepth⟩ o) := by
  unfold operandValue
  split
  · exact (Sizeless.lift (checkConstant_failsOnly _)).bind fun _ => numberCode_sizeless h
  · exact numberCode_sizeless h

theorem valueCode_sizeless {v : LeverageValue} (h : (Node.operand v.operand).Fits maxDepth) :
    Sizeless (valueCode ⟨scope, binding, maxDepth⟩ v) := by
  cases v with
  | plain o => exact operandValue_sizeless h
  | clamped o min max =>
    exact (operandValue_sizeless h).bind fun _ => (Sizeless.lift (clamp_failsOnly _ _ _)).bind
      fun _ => (Sizeless.lift (clamp_failsOnly _ _ _)).bind fun _ => .pure _

theorem compileRule_sizeless {r : LeverageRule} (index : Nat)
    (hvalue : (Node.operand r.leverage.operand).Fits maxDepth)
    (hcondition : ∀ c, r.condition = some c → (Node.condition c).Fits maxDepth) :
    Sizeless (compileRule ⟨scope, binding, maxDepth⟩ index r) := by
  refine (valueCode_sizeless hvalue).bind fun _ => ?_
  dsimp only
  split
  · exact (Sizeless.pure _).bind fun _ =>
      (Sizeless.lift (checkedComment_failsOnly index r)).bind fun _ => .pure _
  · next c hc =>
    have hemit := fun s => emitCondition_failsOnly scope binding s (hcondition c hc)
    exact (Sizeless.emission hemit).bind fun _ => (Sizeless.pure _).bind fun _ =>
      (Sizeless.lift (checkedComment_failsOnly index r)).bind fun _ => .pure _

/-- One rule after the other, each from the tally of the one before. -/
theorem compileRules_sizeless {rules : List LeverageRule} (start : Nat)
    (hvalue : ∀ r ∈ rules, (Node.operand r.leverage.operand).Fits maxDepth)
    (hcondition : ∀ r ∈ rules, ∀ c, r.condition = some c → (Node.condition c).Fits maxDepth) :
    Sizeless (compileRules ⟨scope, binding, maxDepth⟩ start rules) := by
  induction rules generalizing start with
  | nil => exact .pure _
  | cons r rest ih =>
    obtain ⟨hvalue, hvalues⟩ := List.forall_mem_cons.mp hvalue
    obtain ⟨hcondition, hconditions⟩ := List.forall_mem_cons.mp hcondition
    exact (compileRule_sizeless start hvalue hcondition).bind fun _ =>
      (ih (start + 1) hvalues hconditions).bind fun _ => .pure _

theorem compile_failsOnly {l : LeverageSettings} (defaults : LeverageDefaults)
    (hvalue : ∀ r ∈ l.rules, (Node.operand r.leverage.operand).Fits maxDepth)
    (hcondition : ∀ r ∈ l.rules, ∀ c, r.condition = some c → (Node.condition c).Fits maxDepth) :
    FailsOnly (fun reason => reason.kind ≠ .sizeLimit) (compile binding defaults maxDepth l) := by
  have hordered : ∀ r ∈ ordered l.rules, r ∈ l.rules := fun r hr =>
    (List.mem_filter.mp (List.mem_mergeSort.mp hr)).1
  refine FailsOnly.bind ?_ fun _ _ => FailsOnly.bind ?_ fun _ _ =>
    (floatCode_failsOnly _).bind fun _ _ => FailsOnly.bind ?_ fun _ _ => .ok _
  · unfold checkUnconditional
    dsimp only
    split
    · exact .error (by simp [LeverageError.kind])
    · exact .ok _
  · exact compileRules_sizeless 0 (fun r hr => hvalue r (hordered r hr))
      (fun r hr => hcondition r (hordered r hr)) Tally.empty
  · unfold tailOf
    split
    · exact .ok _
    · exact (floatCode_failsOnly _).bind fun _ _ => .ok _
    · exact .ok _

end Leverage

/-! ## The pipeline -/

theorem emitSignals_failsOnly (scope : Scope) (binding : Binding) (tally : Tally)
    (directions : List Direction) (hd : ∀ n ∈ d.roots, n.Fits maxDepth) :
    FailsOnly (fun e => e.kind ≠ .sizeLimit)
      (emitSignals ⟨scope, binding, maxDepth⟩ d tally directions) := by
  intro e he
  obtain ⟨direction, -, ⟨-, rfl⟩ | ⟨s, hs, c, hc, t, reason, hreason, rfl⟩⟩ :=
    emitSignals_eq_error he
  · simp [CompileError.kind]
  · have hfits := hd _ (mem_roots_of_signal hs hc)
    exact EmissionError.kind_ne_sizeLimit
      (emitCondition_failsOnly scope binding t hfits reason hreason)

theorem compileLeverage_failsOnly (binding : Binding)
    (hd : ∀ n ∈ d.roots, n.Fits settings.limits.maxDepth) :
    FailsOnly (fun e => e.kind ≠ .sizeLimit) (compileLeverage settings binding d.leverage) := by
  cases hl : d.leverage with
  | none => exact .ok _
  | some l =>
    rw [compileLeverage]
    split
    · refine .mapError (FailsOnly.map (Leverage.compile_failsOnly _ ?_ ?_))
      · intro r hr
        exact hd _ (mem_roots_of_rule hl hr)
      · intro r hr c hc
        refine hd _ (mem_roots_of_tree (List.mem_append_right _ ?_))
        rw [hl]
        exact List.mem_filterMap.mpr ⟨r, hr, hc⟩
    · exact .ok _

theorem BindError.kind_ne_sizeLimit (e : BindError) : e.kind ≠ .sizeLimit := by
  unfold BindError.kind
  split <;> simp

/-- Behind the preparation no size is to blame. -/
theorem compileDocument_failsOnly (registry : Registry) (className : String)
    (hd : ∀ n ∈ d.roots, n.Fits settings.limits.maxDepth) :
    FailsOnly (fun e => e.kind ≠ .sizeLimit)
      (compileDocument settings registry className d) := by
  intro e he
  rcases compileDocument_eq_error he with hplan | hinternal
  · rcases plan_eq_error hplan with ⟨reason, rfl⟩ | ⟨binding, hsignals | hleverage⟩
    · exact reason.kind_ne_sizeLimit
    · exact emitSignals_failsOnly _ binding _ _ hd e hsignals
    · exact compileLeverage_failsOnly binding hd e hleverage
  · simp [hinternal]

theorem requireName_failsOnly (limits : Limits) (name : Option String) :
    FailsOnly (fun e => e.kind ≠ .sizeLimit) (requireName limits name) :=
  FailsOnly.bind (.mapError fun _ _ => by simp [CompileError.kind]) fun _ _ => .ok _

/-- Of the stages of a preparation only the size guard blames a size. -/
theorem prepare_failsOnly (limits : Limits) (raw : Value) :
    FailsOnly (fun e => e.kind = .sizeLimit →
      ∃ reason, Extent.check limits raw = .error reason ∧ e = .size reason)
      (prepare limits raw) := by
  have hother : ∀ {e : CompileError}, e.kind = .schema → e.kind = .sizeLimit →
      ∃ reason, Extent.check limits raw = .error reason ∧ e = .size reason := by
    intro e hschema hsize
    simp [hschema] at hsize
  have hshape (reason : ShapeError) (hsize : (CompileError.shape reason).kind = .sizeLimit) :
      ∃ size, Extent.check limits raw = .error size ∧ CompileError.shape reason = .size size := by
    cases h : reason.isUnwritten <;> simp [CompileError.kind, ShapeError.kind, h] at hsize
  refine FailsOnly.bind (FailsOnly.bind (FailsOnly.bind ?_ fun _ _ => ?_) fun _ _ => ?_) fun _ _ =>
    .mapError fun _ _ => hother rfl
  · exact .mapError fun reason hreason _ => ⟨reason, hreason, rfl⟩
  · exact FailsOnly.bind (.mapError fun _ _ => hshape _) fun _ _ =>
      FailsOnly.bind (.mapError fun _ _ => hshape _) fun _ _ =>
      FailsOnly.bind (.mapError fun _ _ => hshape _) fun _ _ => .ok _
  · refine FailsOnly.bind (.mapError fun _ _ => hother rfl) fun _ _ => ?_
    split
    · exact .error (hother rfl)
    · exact .ok _

theorem generate_eq_size {registry : Registry} {name : Option String} {className : String}
    {reason : SizeError} (hname : requireName settings.limits name = .ok className)
    (hcheck : Extent.check settings.limits raw = .error reason) :
    generate settings registry raw name = .error (.size reason) := by
  simp [generate, hname, prepare, authored, canonical, hcheck, Except.mapError, bind, Except.bind]

/-- Only the size guard is to blame for a size, and it comes after the class name. -/
theorem generate_failsOnly (settings : Settings) (registry : Registry) (raw : Value)
    (name : Option String) :
    FailsOnly (fun e => e.kind = .sizeLimit → (requireName settings.limits name).isOk = true ∧
      ∃ reason, Extent.check settings.limits raw = .error reason ∧ e = .size reason)
      (generate settings registry raw name) := by
  refine FailsOnly.bind ?_ fun className hname => ?_
  · exact (requireName_failsOnly _ _).imp fun _ hne hsize => absurd hsize hne
  · refine FailsOnly.bind ?_ fun d hd => ?_
    · refine (prepare_failsOnly settings.limits raw).imp fun e hguard hsize => ?_
      rw [hname]
      exact ⟨rfl, hguard hsize⟩
    · exact (compileDocument_failsOnly registry className (prepare_fits hd)).imp
        fun _ hne hsize => absurd hsize hne

/-- Once a document is prepared, no tree of it, as authored or as mirrored, and no operand that its
leverage is computed from is refused for its depth, in whatever scope and from whatever tally it is
emitted. Hence a compilation blames a size only if the class name is accepted and the size guard
refuses the raw document, and it then reports what the guard does. -/
theorem emission_depth_guard_unreachable (settings : Settings) (raw : Value) :
    (∀ d, authored settings.limits raw = .ok d ∨ prepare settings.limits raw = .ok d →
      ∀ scope binding tally limit,
        (∀ c ∈ d.trees, (emitCondition ⟨scope, binding, settings.limits.maxDepth⟩ (.condition c)
          tally).1 ≠ .error (.tooDeep limit)) ∧
        ∀ l, d.leverage = some l → ∀ r ∈ l.rules,
          (emitOperand ⟨scope, binding, settings.limits.maxDepth⟩ (.operand r.leverage.operand)
            tally).1 ≠ .error (.tooDeep limit)) ∧
    ∀ registry name e, e.kind = .sizeLimit →
      (generate settings registry raw name = .error e ↔
        (requireName settings.limits name).isOk = true ∧
        ∃ reason, Extent.check settings.limits raw = .error reason ∧ e = .size reason) := by
  constructor
  · intro d hd scope binding tally limit
    have hfits : ∀ n ∈ d.roots, n.Fits settings.limits.maxDepth :=
      hd.elim authored_fits prepare_fits
    constructor
    · intro c hc herror
      have hc := hfits _ (mem_roots_of_tree hc)
      exact emitCondition_failsOnly scope binding tally hc _ herror rfl
    · intro l hl r hr herror
      have hr := hfits _ (mem_roots_of_rule hl hr)
      exact emitOperand_failsOnly scope binding tally hr _ herror rfl
  · intro registry name e hsize
    constructor
    · intro h
      exact generate_failsOnly settings registry raw name e h hsize
    · rintro ⟨hname, reason, hcheck, rfl⟩
      cases hrequire : requireName settings.limits name with
      | error reason => rw [hrequire] at hname; cases hname
      | ok className => exact generate_eq_size hrequire hcheck

/-- A document that mirrors its entry and keeps a bare list of rules among the callbacks. Six
containers nest where the leverage is. -/
def nestedRaw : Value :=
  let twice : Value := .object [("type", .text "CONSTANT"), ("value", .int 2)]
  .object [
    ("long", .object [("entry", .object [("type", .text "NOT"), ("child", .object [
      ("type", .text "COMPARE"), ("operator", .text "gt"), ("right", twice),
      ("left", .object [("type", .text "PRICE"), ("field", .text "close")])])])]),
    ("mirror", .object [("enabled", .bool true)]),
    ("callbacks", .object [("leverage", .list [.object [
      ("leverage", .object [("type", .text "EXPRESSION"), ("operand", twice)])]])])]

/-- The entry of the derived side. -/
def nestedMirror : Condition :=
  .not ⟨none, none⟩
    (.compare ⟨none, none⟩ (.price .close 0) .lt (.constant (.scalar (.int 2))))

theorem prepare_nestedRaw : ∃ d l r, prepare { maxDepth := 6 } nestedRaw = .ok d ∧
    nestedMirror ∈ d.trees ∧ d.leverage = some l ∧ r ∈ l.rules := by
  refine ⟨_, _, _, by with_unfolding_all rfl, ?_, rfl, List.mem_cons_self⟩
  -- Behind the two trees of the long side.
  with_unfolding_all exact .tail _ (.tail _ (.head _))

theorem nestedRaw_depth_guard :
    (∃ d l r, prepare { maxDepth := 6 } nestedRaw = .ok d ∧ nestedMirror ∈ d.trees ∧
      (∀ limit, (emitCondition ⟨.series, Binding.empty, 6⟩ (.condition nestedMirror)
        Tally.empty).1 ≠ .error (.tooDeep limit)) ∧
      d.leverage = some l ∧ r ∈ l.rules ∧
      ∀ limit, (emitOperand ⟨.leverage, Binding.empty, 6⟩ (.operand r.leverage.operand)
        Tally.empty).1 ≠ .error (.tooDeep limit)) ∧
    Extent.check { maxDepth := 5 } nestedRaw = .error (.tooDeep 5) ∧
    generate { limits := { maxDepth := 5 } } .builtin nestedRaw (some "Nested") =
      .error (.size (.tooDeep 5)) := by
  constructor
  · obtain ⟨d, l, r, hprepare, hmirror, hl, hr⟩ := prepare_nestedRaw
    have hguard := (emission_depth_guard_unreachable { limits := { maxDepth := 6 } } nestedRaw).1 d
      (.inr hprepare)
    exact ⟨d, l, r, hprepare, hmirror,
      fun limit => (hguard .series Binding.empty Tally.empty limit).1 _ hmirror, hl, hr,
      fun limit => (hguard .leverage Binding.empty Tally.empty limit).2 l hl r hr⟩
  · have hcheck : Extent.check { maxDepth := 5 } nestedRaw = .error (.tooDeep 5) := by
      decide +kernel
    refine ⟨hcheck, ?_⟩
    refine ((emission_depth_guard_unreachable { limits := { maxDepth := 5 } } nestedRaw).2 .builtin
      (some "Nested") (.size (.tooDeep 5)) rfl).mpr ⟨by decide, .tooDeep 5, hcheck, rfl⟩

end Stratagem
