import Stratagem.Proofs.Emission.Typing

/-! Emission with its partial operations left partial. The strict rules take a part by its position,
several parts at once, a maximum or an entry of a table, and crash where there is none; a constant
without a literal is refused on the spot. Main statement: on every tree that the schema lets through
the strict walk does what the walk does, so it never crashes, and the only constants without a
literal are those with an integer of too many digits. -/

namespace Stratagem

namespace Emission

/-- What a partial operation may find missing. -/
inductive Crash where
  | part (index : Nat)
  | count (wanted found : Nat)
  | maximum
  | entry
  | result
  deriving DecidableEq

/-- Why a strict emission ends early: it crashed, or the tree is refused. -/
inductive Stop where
  | crash (c : Crash)
  | refused (reason : EmissionError)
  deriving DecidableEq

/-- A result that is there, or is refused. -/
def settled {α : Type} (x : Except EmissionError α) : Except Stop α := x.mapError .refused

namespace Strict

variable {α : Type} {parts results : List Emitted} {n root : Node} {depth : Nat} {rest : List Frame}

/-! ## Partial operations -/

def item {α : Type} (xs : List α) (i : Nat) : Except Stop α :=
  match xs[i]? with
  | some x => .ok x
  | none => .error (.crash (.part i))

def pair {α : Type} : List α → Except Stop (α × α)
  | [a, b] => .ok (a, b)
  | xs => .error (.crash (.count 2 xs.length))

def triple {α : Type} : List α → Except Stop (α × α × α)
  | [a, b, c] => .ok (a, b, c)
  | xs => .error (.crash (.count 3 xs.length))

def maximum (xs : List Nat) : Except Stop Nat :=
  match xs.max? with
  | some m => .ok m
  | none => .error (.crash .maximum)

def entry {α : Type} : Option α → Except Stop α
  | some a => .ok a
  | none => .error (.crash .entry)

/-! ## Rules -/

def tradeContext (scope : Scope) (field : TradeField) : Except Stop Emitted :=
  match scope with
  | .series => .error (.refused (.contextOutsideCallback field))
  | .leverage =>
    if (callbackArgument field).isNone then .error (.refused (.contextUnavailable field))
    else do
      let (name, numeric) ← entry (callbackArgument field)
      return { code := .variable name, prev := some (.variable name), numeric }

/-- What the fields of a time are, given its parts. -/
def timeTable (part : TimePart → Code) : List (TimeField × Code) :=
  [(.hour, part .hour), (.minute, part .minute), (.dayOfWeek, part .dayOfWeek),
   (.dayOfMonth, part .dayOfMonth), (.month, part .month),
   (.isWeekend, .paren (.compare .gte (part .dayOfWeek) (.number 5)))]

def time (scope : Scope) (field : TimeField) (zone : Option String) : Except Stop Emitted :=
  match scope with
  | .series => do
    let date := Code.column "date"
    let base := zone.elim date (.seriesZone date)
    let code ← entry ((timeTable (.seriesPart base)).lookup field)
    return { code, series := true, prev := some (.shifted code 1) }
  | .leverage => do
    let now := Code.variable "current_time"
    let base := zone.elim now (.momentZone now)
    let code ← entry ((timeTable (.momentPart base)).lookup field)
    return { code, prev := some code }

def extremum (scope : Scope) (f : Extremum) (terms : List Code) : Except Stop Code :=
  match scope with
  | .series => do return terms.tail.foldl (.pairwise f) (← item terms 0)
  | .leverage => .ok (.extremum f (Code.chain .also terms))

def arithmetic (scope : Scope) (operation : Operation) (terms : List Code) : Except Stop Code :=
  match operation with
  | .add | .sum => .ok (joined .add terms)
  | .sub => .ok (joined .sub terms)
  | .mul => .ok (joined .mul terms)
  | .div => .ok (joined .div terms)
  | .neg => do return .paren (.negative (← item terms 0))
  | .abs => do return .pointwise .abs (← item terms 0)
  | .round => do return .pointwise .round (← item terms 0)
  | .floor => do return .pointwise .floor (← item terms 0)
  | .ceil => do return .pointwise .ceil (← item terms 0)
  | .average => .ok (mean terms)
  | .percentChange => do return percentChange (← item terms 0) (← item terms 1)
  | .min => extremum scope .min terms
  | .max => extremum scope .max terms

def computed (scope : Scope) (operation : Operation) (operands : List Emitted) :
    Except Stop Emitted :=
  match operands.find? (! ·.numeric) with
  | some operand => .error (.refused (.computedNotNumeric operation operand.text))
  | none => do
    let code ← arithmetic scope operation (operands.map Emitted.code)
    let prev ← arithmetic scope operation (operands.map Emitted.before)
    let lookback ← maximum (operands.map Emitted.lookback)
    let prevLookback ← maximum (operands.map fun e => max e.prevLookback e.lookback)
    return {
      code
      series := operands.any Emitted.series
      market := operands.any Emitted.market
      prev := some prev
      lookback
      prevLookback }

def operand (context : EmissionContext) (o : Operand) (parts : List Emitted) :
    Except Stop Emitted :=
  match o with
  | .tradeContext field => tradeContext context.scope field
  | .time field zone => time context.scope field zone
  | .computed operation _ => computed context.scope operation parts
  | o => settled (Emission.operand context o parts)

/-- The branches of a choice; the last one need not be there. -/
def ifThenElse (scope : Scope) (parts : List Emitted) : Except Stop Emitted := do
  let condition ← item parts 0
  let then_ ← item parts 1
  let else_ ← if 2 < parts.length then item parts 2 else .ok absentBranch
  let branches := [condition, then_, else_]
  if scope = .series && branches.any Emitted.series then
    let lookback ← maximum (branches.map Emitted.lookback)
    return {
      code := .broadcast (.choose condition.code then_.code else_.code)
      series := true
      lookback
      numeric := false }
  else return Emission.ifThenElse scope condition then_ else_

def compare (scope : Scope) (operator : Comparison) (left right : Emitted) :
    Except Stop Emitted :=
  if left.isList then .error (.refused .listOnLeft)
  else if operator = .in_ || operator = .notIn then
    if right.isList then .ok (membership scope operator left right)
    else .error (.refused (.listNeeded operator right.text))
  else if right.isList then .error (.refused (.listCompared operator))
  else if isOrdering operator && !left.numeric then
    .error (.refused (.orderNotNumeric operator .left left.text))
  else if isOrdering operator && !right.numeric then
    .error (.refused (.orderNotNumeric operator .right right.text))
  else do
    let r ← entry (relation? operator)
    return boolean (.paren (.compare r left.code right.code)) [left, right]

def condition (context : EmissionContext) (c : Condition) (parts : List Emitted) :
    Except Stop Emitted :=
  match c with
  | .all .. | .any .. => settled (Emission.condition context c parts)
  | .not .. => do return negation context.scope (← item parts 0)
  | .ifThen .. | .ifThenElse .. => ifThenElse context.scope parts
  | .compare _ _ operator _ => do
    let (left, right) ← pair parts
    compare context.scope operator left right
  | .crossover .. => do
    let (first, second) ← pair parts
    settled (crossing context.scope true first second)
  | .crossunder .. => do
    let (first, second) ← pair parts
    settled (crossing context.scope false first second)
  | .inRange _ _ _ _ inclusive => do
    let (value, low, high) ← triple parts
    settled (inRange context.scope inclusive value low high)

def node (context : EmissionContext) (n : Node) (parts : List Emitted) : Except Stop Emitted :=
  match n with
  | .condition c => condition context c parts
  | .operand o => operand context o parts

/-! ## Trees -/

/-- The walk with the strict rules. What it returns is the lowest result on the stack. -/
def walk (context : EmissionContext) (pending : List Frame) (results : List Emitted)
    (tally : Tally) : Except Stop Emitted × Tally :=
  match pending with
  | [] => match results.getLast? with
    | some e => (.ok e, tally)
    | none => (.error (.crash .result), tally)
  | ⟨n, depth, false⟩ :: rest =>
    if context.maxDepth < depth then
      (.error (.refused (.tooDeep context.maxDepth)), tally)
    else walk context (Frame.parts ⟨n, depth, false⟩ ++ ⟨n, depth, true⟩ :: rest) results tally
  | ⟨n, _, true⟩ :: rest =>
    let count := n.children.length
    match node context n (results.take count).reverse with
    | .error e => (.error e, tally)
    | .ok e => walk context rest (e :: results.drop count) (tally.record context.scope n e)
termination_by frameWeights pending
decreasing_by
  · simp only [frameWeights_append, Frame.parts, frameWeights_fresh, frameWeights, Frame.weight]
    simp only [Bool.false_eq_true, if_false, if_true, Node.size_eq n]
    omega
  · simp only [frameWeights, Frame.weight, if_true]
    omega

def emitCondition (context : EmissionContext) (root : Node) (tally : Tally) :
    Except Stop Emitted × Tally :=
  match root with
  | .operand o => (.error (.refused (.notCondition o.kind)), tally)
  | .condition _ =>
    let (result, tally) := walk context [⟨root, 1, false⟩] [] tally
    (result.map (asMask context.scope), tally)

def emitOperand (context : EmissionContext) (root : Node) (tally : Tally) :
    Except Stop Emitted × Tally :=
  match root with
  | .condition c => (.error (.refused (.notOperand c.kind)), tally)
  | .operand _ =>
    let (result, tally) := walk context [⟨root, 1, false⟩] [] tally
    (result.bind fun e => settled (asValue e), tally)

/-! ## Partial operations that find something -/

theorem item_eq {xs : List α} {i : Nat} (h : i < xs.length) (d : α) :
    item xs i = .ok (xs.getD i d) := by
  rw [item, List.getD_eq_getElem?_getD, List.getElem?_eq_getElem h]
  rfl

theorem pair_eq {xs : List α} (h : xs.length = 2) (d : α) :
    pair xs = .ok (xs.getD 0 d, xs.getD 1 d) := by
  obtain ⟨a, b, rfl⟩ := List.length_eq_two.mp h
  rfl

theorem triple_eq {xs : List α} (h : xs.length = 3) (d : α) :
    triple xs = .ok (xs.getD 0 d, xs.getD 1 d, xs.getD 2 d) := by
  obtain ⟨a, b, c, rfl⟩ := List.length_eq_three.mp h
  rfl

theorem maximum_eq {xs : List Nat} (h : xs ≠ []) : maximum xs = .ok (greatest xs) := by
  obtain ⟨x, rest, rfl⟩ := List.exists_cons_of_ne_nil h
  simp only [maximum, greatest, List.max?_cons', List.foldl_cons, Nat.zero_max]

/-! ## Rules on parts that are there -/

theorem tradeContext_eq (scope : Scope) (field : TradeField) :
    tradeContext scope field = settled (Emission.tradeContext scope field) := by
  cases scope with
  | series => rfl
  | leverage =>
    cases hfield : callbackArgument field with
    | none => simp [tradeContext, Emission.tradeContext, hfield, settled, Except.mapError]
    | some argument =>
      simp [tradeContext, Emission.tradeContext, hfield, settled, Except.mapError, entry, bind,
        Except.bind, pure, Except.pure]

theorem timeTable_lookup (part : TimePart → Code) (field : TimeField) :
    (timeTable part).lookup field = some (timePart part field) := by
  cases field <;> rfl

theorem time_eq (scope : Scope) (field : TimeField) (zone : Option String) :
    time scope field zone = .ok (Emission.time scope field zone) := by
  cases scope <;> simp only [time, timeTable_lookup] <;> rfl

theorem extremum_eq (scope : Scope) (f : Extremum) {terms : List Code} (h : 0 < terms.length) :
    extremum scope f terms = .ok (Emission.extremum scope f terms) := by
  cases scope with
  | leverage => rfl
  | series =>
    obtain ⟨term, rest, rfl⟩ := List.exists_cons_of_length_pos h
    rfl

/-- An operation finds as many terms as its arity promises. -/
theorem arithmetic_eq (scope : Scope) {operation : Operation} {terms : List Code}
    (h : operation.arity.allows terms.length = true) :
    arithmetic scope operation terms = .ok (Emission.arithmetic scope operation terms) := by
  have hleast : operation.arity.least ≤ terms.length :=
    of_decide_eq_true (Bool.and_eq_true_iff.mp h).1
  have hterm {i : Nat} (hi : i < operation.arity.least) :=
    item_eq (Nat.lt_of_lt_of_le hi hleast) (Code.literal (.scalar .null))
  cases operation with
  | add | sum | sub | mul | div | average => rfl
  | neg | abs | round | floor | ceil =>
    rw [arithmetic, hterm (i := 0) (by decide)]
    rfl
  | percentChange =>
    rw [arithmetic, hterm (i := 0) (by decide), hterm (i := 1) (by decide)]
    rfl
  | min | max => exact extremum_eq scope _ (Nat.lt_of_lt_of_le (by decide) hleast)

theorem computed_eq (scope : Scope) {operation : Operation} {operands : List Emitted}
    (h : operation.arity.allows operands.length = true) :
    computed scope operation operands = settled (Emission.computed scope operation operands) := by
  have hsome : operands ≠ [] := by
    rintro rfl
    cases operation <;> cases h
  rw [computed, Emission.computed]
  cases operands.find? (! ·.numeric) with
  | some operand => rfl
  | none =>
    simp only
    rw [arithmetic_eq scope (by simpa using h), arithmetic_eq scope (by simpa using h),
      maximum_eq (by simpa using hsome), maximum_eq (by simpa using hsome)]
    rfl

theorem operand_eq (context : EmissionContext) {o : Operand} (ho : (Node.operand o).Admissible)
    (h : parts.length = (Node.operand o).children.length) :
    operand context o parts = settled (Emission.operand context o parts) := by
  cases o with
  | tradeContext field => exact tradeContext_eq context.scope field
  | time field zone => exact time_eq context.scope field zone
  | computed operation operands =>
    have hcount : parts.length = operands.length := by simpa [Node.children] using h
    exact computed_eq context.scope (hcount ▸ ho)
  | _ => rfl

theorem compare_eq (scope : Scope) (operator : Comparison) (left right : Emitted) :
    compare scope operator left right = settled (Emission.compare scope operator left right) := by
  unfold compare Emission.compare
  cases operator with
  | in_ | notIn =>
    cases left.isList <;> cases right.isList <;> rfl
  | _ =>
    cases left.isList <;> cases right.isList <;> cases left.numeric <;> cases right.numeric <;> rfl

theorem ifThenElse_eq (scope : Scope) {condition then_ else_ : Emitted}
    (h : parts = [condition, then_] ∧ else_ = absentBranch ∨ parts = [condition, then_, else_]) :
    ifThenElse scope parts = .ok (Emission.ifThenElse scope condition then_ else_) := by
  have hsome : [condition, then_, else_].map Emitted.lookback ≠ [] := by simp
  have hbranches : ifThenElse scope parts =
      if scope = .series && [condition, then_, else_].any Emitted.series then do
        let lookback ← maximum ([condition, then_, else_].map Emitted.lookback)
        return {
          code := .broadcast (.choose condition.code then_.code else_.code)
          series := true
          lookback
          numeric := false }
      else return Emission.ifThenElse scope condition then_ else_ := by
    rcases h with ⟨rfl, rfl⟩ | rfl <;> rfl
  rw [hbranches, maximum_eq hsome]
  split
  · next hseries =>
    rw [Emission.ifThenElse, if_pos hseries]
    rfl
  · rfl

theorem condition_eq (context : EmissionContext) (c : Condition)
    (h : parts.length = (Node.condition c).children.length) :
    condition context c parts = settled (Emission.condition context c parts) := by
  cases c with
  | all | any => rfl
  | not mark child =>
    obtain ⟨part, rfl⟩ := List.length_eq_one_iff.mp h
    rfl
  | ifThen =>
    obtain ⟨a, b, rfl⟩ := List.length_eq_two.mp h
    exact ifThenElse_eq context.scope (.inl ⟨rfl, rfl⟩)
  | ifThenElse =>
    obtain ⟨a, b, d, rfl⟩ := List.length_eq_three.mp h
    exact ifThenElse_eq context.scope (.inr rfl)
  | compare mark left operator right =>
    rw [condition, pair_eq h absentBranch]
    exact compare_eq context.scope operator _ _
  | crossover | crossunder =>
    rw [condition, pair_eq h absentBranch]
    rfl
  | inRange mark value low high inclusive =>
    rw [condition, triple_eq h absentBranch]
    rfl

/-- **A strict rule finds whatever it takes in an admissible node and its parts.** -/
theorem node_eq (context : EmissionContext) (hn : n.Admissible)
    (h : parts.length = n.children.length) :
    node context n parts = settled (Emission.node context n parts) := by
  cases n with
  | condition c => exact condition_eq context c h
  | operand o => exact operand_eq context hn h

/-! ## The walk -/

/-- With so many results on the stack, each node that is pending finds those of its parts, and one
result is left over at the end. -/
def Ready : List Frame → Nat → Prop
  | [], results => results = 1
  | ⟨n, _, false⟩ :: rest, results => (∀ m ∈ n.preorder, m.Admissible) ∧ Ready rest (results + 1)
  | ⟨n, _, true⟩ :: rest, results =>
    n.Admissible ∧ ∃ below, results = below + n.children.length ∧ Ready rest (below + 1)

theorem ready_fresh {ns : List Node} {results : Nat}
    (hns : ∀ n ∈ ns, ∀ m ∈ n.preorder, m.Admissible) (hrest : Ready rest (results + ns.length)) :
    Ready (ns.map (fun n => ⟨n, depth, false⟩) ++ rest) results := by
  induction ns generalizing results with
  | nil => simpa using hrest
  | cons n ns ih =>
    obtain ⟨hn, hns⟩ := List.forall_mem_cons.mp hns
    refine ⟨hn, ih hns ?_⟩
    rwa [List.length_cons, Nat.add_comm ns.length, ← Nat.add_assoc] at hrest

/-- Going down to the parts of a node keeps everything ready. -/
theorem Ready.expand {results : Nat} (h : Ready (⟨n, depth, false⟩ :: rest) results) :
    Ready (Frame.parts ⟨n, depth, false⟩ ++ ⟨n, depth, true⟩ :: rest) results := by
  obtain ⟨hn, hrest⟩ := h
  obtain ⟨hroot, hparts⟩ := (Node.forall_mem_preorder n).mp hn
  exact ready_fresh hparts ⟨hroot, results, rfl, hrest⟩

/-- A node that comes up again finds its parts on the stack. -/
theorem Ready.node_eq (h : Ready (⟨n, depth, true⟩ :: rest) results.length)
    (context : EmissionContext) :
    node context n (results.take n.children.length).reverse =
      settled (Emission.node context n (results.take n.children.length).reverse) := by
  obtain ⟨hn, below, hbelow, -⟩ := h
  exact Strict.node_eq context hn (by simp [hbelow])

/-- The result of a node in place of those of its parts keeps everything ready. -/
theorem Ready.settle (h : Ready (⟨n, depth, true⟩ :: rest) results.length) (e : Emitted) :
    Ready rest (e :: results.drop n.children.length).length := by
  obtain ⟨-, below, hbelow, hrest⟩ := h
  simpa [hbelow] using hrest

/-- On what is ready, the strict walk does what the walk does. -/
theorem walk_eq {context : EmissionContext} {pending : List Frame} {tally : Tally}
    (h : Ready pending results.length) :
    walk context pending results tally =
      ((settled (Emission.walk context pending results tally).1),
        (Emission.walk context pending results tally).2) := by
  fun_induction Emission.walk context pending results tally with
  | case1 results tally =>
    obtain ⟨e, rfl⟩ := List.length_eq_one_iff.mp h
    rw [walk]
    rfl
  | case2 results tally n depth rest hdeep =>
    rw [walk, if_pos hdeep]
    rfl
  | case3 results tally n depth rest hdeep ih =>
    rw [walk, if_neg hdeep]
    exact ih h.expand
  | case4 results tally n depth rest count reason hnode =>
    have hstrict := h.node_eq context
    rw [hnode] at hstrict
    rw [walk, hstrict]
    rfl
  | case5 results tally n depth rest count e hnode ih =>
    have hstrict := h.node_eq context
    rw [hnode] at hstrict
    rw [walk, hstrict]
    exact ih (h.settle e)

theorem ready_root (h : ∀ m ∈ root.preorder, m.Admissible) :
    Ready [⟨root, 1, false⟩] ([] : List Emitted).length := ⟨h, rfl⟩

theorem emitCondition_eq (h : ∀ m ∈ root.preorder, m.Admissible) (context : EmissionContext)
    (tally : Tally) :
    emitCondition context root tally =
      (settled (Emission.emitCondition context root tally).1,
        (Emission.emitCondition context root tally).2) := by
  cases root with
  | operand o => rfl
  | condition c =>
    rw [emitCondition, walk_eq (ready_root h), Emission.emitCondition, tree]
    obtain ⟨result, after⟩ := Emission.walk context [⟨.condition c, 1, false⟩] [] tally
    cases result <;> rfl

theorem emitOperand_eq (h : ∀ m ∈ root.preorder, m.Admissible) (context : EmissionContext)
    (tally : Tally) :
    emitOperand context root tally =
      (settled (Emission.emitOperand context root tally).1,
        (Emission.emitOperand context root tally).2) := by
  cases root with
  | condition c => rfl
  | operand o =>
    rw [emitOperand, walk_eq (ready_root h), Emission.emitOperand, tree]
    obtain ⟨result, after⟩ := Emission.walk context [⟨.operand o, 1, false⟩] [] tally
    cases result <;> rfl

end Strict

/-- A literal is missing because a constant of the tree has an integer with too many digits. -/
def LacksLiteral (root : Node) (reason : LiteralError) : Prop :=
  reason = .overlong ∧
    ∃ value, .operand (.constant value) ∈ root.preorder ∧ value.toValue.hasLong = true

/-- A constant is refused for nothing but an integer with too many digits. -/
theorem build_invalidConstant {context : EmissionContext} {depth : Nat} {n : Node}
    {reason : LiteralError} (hadm : ∀ m ∈ n.preorder, m.Admissible)
    (h : build context depth n = .error (.invalidConstant reason)) : LacksLiteral n reason := by
  have hverdict := build_verdict context n hadm depth
  rw [h] at hverdict
  cases reason with
  | overlong => exact ⟨rfl, FirstOffence.exists_hasLong hverdict rfl⟩
  | notFinite | unsupported => exact absurd rfl (FirstOffence.ne_malformed hverdict)

theorem emitted_invalidConstant {root : Node} {reason : LiteralError}
    (hadm : ∀ m ∈ root.preorder, m.Admissible) (context : EmissionContext) (tally : Tally)
    (h : (emitCondition context root tally).1 = .error (.invalidConstant reason) ∨
      (emitOperand context root tally).1 = .error (.invalidConstant reason)) :
    LacksLiteral root reason := by
  suffices h : build context 1 root = .error (.invalidConstant reason) from
    build_invalidConstant hadm h
  cases root with
  | condition c =>
    rcases h with h | h
    · rw [emitCondition_fst] at h
      cases hbuild : build context 1 (.condition c) <;> simp_all [Except.map]
    · cases h
  | operand o =>
    rcases h with h | h
    · cases h
    · rw [emitOperand_fst] at h
      cases hbuild : build context 1 (.operand o) with
      | error => simp_all [Except.bind]
      | ok e =>
        rw [hbuild, Except.bind, asValue] at h
        split at h <;> cases h

theorem settled_ne_crash {α : Type} (x : Except EmissionError α) (c : Crash) :
    settled x ≠ .error (.crash c) := by
  cases x <;> simp [settled, Except.mapError]

/-- **Emission of a tree that was read never crashes.** Whatever value a condition or an operand was
read from, all its nodes are admissible; and in either scope, with any indicators and any bound on
the depth, strict emission of the tree as a condition or as an operand does what emission does: it
gives a result or refuses the tree. For want of a literal it refuses those trees only that have an
integer with too many digits in a constant. -/
theorem read_tree_never_crashes {raw : Value} {root : Node} (h : root.ReadFrom raw) :
    (∀ m ∈ root.preorder, m.Admissible) ∧
      ∀ (context : EmissionContext) (tally : Tally),
        (Strict.emitCondition context root tally =
          (settled (emitCondition context root tally).1, (emitCondition context root tally).2) ∧
        Strict.emitOperand context root tally =
          (settled (emitOperand context root tally).1, (emitOperand context root tally).2)) ∧
        (∀ c, (Strict.emitCondition context root tally).1 ≠ .error (.crash c) ∧
          (Strict.emitOperand context root tally).1 ≠ .error (.crash c)) ∧
        ∀ reason, (emitCondition context root tally).1 = .error (.invalidConstant reason) ∨
          (emitOperand context root tally).1 = .error (.invalidConstant reason) →
          LacksLiteral root reason := by
  refine ⟨h.admissible, fun context tally => ?_⟩
  have hcondition := Strict.emitCondition_eq h.admissible context tally
  have hoperand := Strict.emitOperand_eq h.admissible context tally
  refine ⟨⟨hcondition, hoperand⟩, fun c => ?_,
    fun reason => emitted_invalidConstant h.admissible context tally⟩
  rw [hcondition, hoperand]
  exact ⟨settled_ne_crash _ c, settled_ne_crash _ c⟩

theorem branchingRaw_never_crashes :
    (Node.condition branching).ReadFrom branchingRaw ∧
      Strict.emitCondition ⟨.leverage, Binding.empty, 64⟩ (.condition branching) Tally.empty =
        (.error (.refused (.indicator (.undeclared "rsi"))), Tally.empty) := by
  have hread : (Node.condition branching).ReadFrom branchingRaw := read_branchingRaw
  refine ⟨hread, ?_⟩
  rw [((read_tree_never_crashes hread).2 _ _).1.1]
  decide +kernel

/-- A constant without a literal can be read, and is refused in either scope. -/
theorem overlong_literal_missing :
    Operand.read (Operand.constant (.scalar (.int overlong))).dump =
        .good (.constant (.scalar (.int overlong))) ∧
      ∀ scope, (Strict.emitOperand ⟨scope, Binding.empty, 64⟩
        (.operand (.constant (.scalar (.int overlong)))) Tally.empty).1 =
        .error (.refused (.invalidConstant .overlong)) := by
  have hadm : (Operand.constant (.scalar (.int overlong))).Admissible := by
    simp [Operand.Admissible, Operand.preorder, Node.Admissible, Constant.notFinite?,
      Scalar.notFinite?]
  refine ⟨(Operand.read_dump_iff _).mpr hadm, fun scope => ?_⟩
  rw [Strict.emitOperand_eq hadm, emitOperand_fst]
  simp [build_eq, Node.children, node, operand, constant, Constant.toValue, Scalar.toValue,
    Value.literal, isLong_overlong, settled, Except.bind, pure, Except.pure, Except.mapError]

-- Without operands, which the schema refuses, there is nothing to negate.
example : (Strict.emitOperand ⟨.series, Binding.empty, 64⟩ (.operand (.computed .neg []))
    Tally.empty).1 = .error (.crash (.part 0)) := by decide +kernel

end Emission

end Stratagem
