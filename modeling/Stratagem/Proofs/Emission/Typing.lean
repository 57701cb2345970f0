import Mathlib.Tactic.Tauto
import Stratagem.Proofs.Emission.Recursion
import Stratagem.Proofs.Expression.RoundTrip
import Stratagem.Proofs.Number.Digits

/-! The typing of expression trees. The rules of emission each look at a few marks of the parts;
`WellTyped` says of a whole tree what they amount to, and `FirstOffence` which node is blamed when
a tree is refused. Main statement: emission succeeds on the well-typed trees and on no others. -/

namespace Stratagem

/-! ## Kinds of operands -/

def Operand.isList : Operand → Bool
  | .constant value => value.isList
  | _ => false

/-- Fields of a trade that are texts. -/
def TradeField.isText : TradeField → Bool
  | .pair | .side | .entryTag => true
  | _ => false

/-- Neither a text, a truth value, nothing or a list, nor a text of the trade. -/
def Operand.isNumeric : Operand → Bool
  | .constant value => value.isNumber
  | .tradeContext field => !field.isText
  | _ => true

mutual

/-- Some operand below, through computed ones, is of a kind. -/
def Operand.anyLeaf (p : Operand → Bool) : Operand → Bool
  | .computed _ operands => Operand.anyLeaves p operands
  | o => p o

def Operand.anyLeaves (p : Operand → Bool) : List Operand → Bool
  | [] => false
  | o :: rest => o.anyLeaf p || Operand.anyLeaves p rest

end

theorem Operand.anyLeaf_computed (p : Operand → Bool) (operation : Operation)
    (operands : List Operand) :
    (Operand.computed operation operands).anyLeaf p = operands.any (Operand.anyLeaf p) := by
  rw [Operand.anyLeaf]
  induction operands with
  | nil => rfl
  | cons o rest ih => rw [Operand.anyLeaves, ih, List.any_cons]

/-- A price or an indicator, or computed from one. -/
def Operand.isMarket : Operand → Bool :=
  Operand.anyLeaf fun
    | .price .. | .indicator .. => true
    | _ => false

/-- Something that differs from candle to candle, or computed from it. -/
def Operand.varies : Operand → Bool :=
  Operand.anyLeaf fun
    | .price .. | .indicator .. | .time .. => true
    | _ => false

/-! ## Well-typed trees -/

/-- A node stands in the tree of a root at some depth; the root has a depth of its own. -/
inductive Node.Occurs (root : Node) (depth : Nat) : Node → Nat → Prop
  | root : Occurs root depth root depth
  | part {n m : Node} {d : Nat} : Occurs root depth n d → m ∈ n.children →
      Occurs root depth m (d + 1)

/-- Fields that the leverage callback knows. -/
def callbackFields : List TradeField :=
  [.pair, .side, .isShort, .currentRate, .proposedLeverage, .maxLeverage, .entryTag]

/-- A reference names an output of a declared indicator, or its default by naming none. -/
def Binding.Resolves (b : Binding) (id : String) (field : Option String) : Prop :=
  ∃ i, b.find? id = some i ∧ ∃ output ∈ i.spec.outputs,
    (field = some output ∧ output ≠ "") ∨
      ((field = none ∨ field = some "") ∧ i.spec.defaultField = some output)

def Node.isReserved : Node → Bool
  | .operand (.external _) | .operand (.custom _) => true
  | _ => false

/-- Operands that a node needs as numbers. -/
def Node.numbers : Node → List Operand
  | .operand (.computed _ operands) => operands
  | .condition (.compare _ left operator right) =>
    if operator ∈ [Comparison.gt, .gte, .lt, .lte] then [left, right] else []
  | .condition (.inRange _ value low high _) => [value, low, high]
  | _ => []

/-- Operands that cross each other. -/
def Node.crossing : Node → List Operand
  | .condition (.crossover _ a b) | .condition (.crossunder _ a b) => [a, b]
  | _ => []

/-- A list stands on the right of a membership test, and nowhere else. -/
def Node.ListsFit : Node → Prop
  | .condition (.compare _ left operator right) =>
    left.isList = false ∧ (right.isList = true ↔ operator = .in_ ∨ operator = .notIn)
  | n => ∀ o, Node.operand o ∈ n.children → o.isList = false

/-- What a single node and its parts have to be. -/
structure Node.Shaped (scope : Scope) (binding : Binding) (n : Node) : Prop where
  implemented : n.isReserved = false
  resolved : ∀ id field offset, n = .operand (.indicator id field offset) →
    binding.Resolves id field
  inScope : ∀ field, n = .operand (.tradeContext field) →
    scope = .leverage ∧ field ∈ callbackFields
  lists : n.ListsFit
  numbers : ∀ o ∈ n.numbers, o.isNumeric = true
  crossing : ∀ o ∈ n.crossing, o.isMarket = true

/-- A node has its shape, and its constant can be written. -/
structure Node.Typed (scope : Scope) (binding : Binding) (n : Node) : Prop
    extends n.Shaped scope binding where
  written : ∀ value, n = .operand (.constant value) → value.toValue.hasLong = false

/-- No node is too deep and every node is typed. -/
def WellTyped (context : EmissionContext) (depth : Nat) (root : Node) : Prop :=
  ∀ n d, root.Occurs depth n d →
    (d : Int) ≤ context.maxDepth ∧ n.Typed context.scope context.binding

theorem Node.occurs_iff (root : Node) (depth : Nat) (n : Node) (d : Nat) :
    root.Occurs depth n d ↔
      (n = root ∧ d = depth) ∨ ∃ k ∈ root.children, k.Occurs (depth + 1) n d := by
  constructor
  · intro h
    induction h with
    | root => exact .inl ⟨rfl, rfl⟩
    | part _ hm ih =>
      rcases ih with ⟨rfl, rfl⟩ | ⟨k, hk, hocc⟩
      · exact .inr ⟨_, hm, .root⟩
      · exact .inr ⟨k, hk, hocc.part hm⟩
  · rintro (⟨rfl, rfl⟩ | ⟨k, hk, hocc⟩)
    · exact .root
    · induction hocc with
      | root => exact .part .root hk
      | part _ hm ih => exact ih.part hm

theorem wellTyped_iff (context : EmissionContext) (depth : Nat) (root : Node) :
    WellTyped context depth root ↔ (depth : Int) ≤ context.maxDepth ∧
      root.Typed context.scope context.binding ∧
      ∀ k ∈ root.children, WellTyped context (depth + 1) k := by
  simp only [WellTyped, Node.occurs_iff root depth]
  constructor
  · intro h
    exact ⟨(h root depth (.inl ⟨rfl, rfl⟩)).1, (h root depth (.inl ⟨rfl, rfl⟩)).2,
      fun k hk n d hocc => h n d (.inr ⟨k, hk, hocc⟩)⟩
  · rintro ⟨hdepth, htyped, hparts⟩ n d (⟨rfl, rfl⟩ | ⟨k, hk, hocc⟩)
    · exact ⟨hdepth, htyped⟩
    · exact hparts k hk n d hocc

theorem WellTyped.typed_of_mem {context : EmissionContext} {depth : Nat} {root : Node}
    (h : WellTyped context depth root) {n : Node} (hn : n ∈ root.preorder) :
    n.Typed context.scope context.binding := by
  induction root using Node.induction generalizing depth with
  | step root ih =>
    obtain ⟨-, htyped, hparts⟩ := (wellTyped_iff ..).mp h
    rcases (Node.mem_preorder root).mp hn with rfl | ⟨k, hk, hn⟩
    · exact htyped
    · exact ih k hk (hparts k hk) hn

/-! ## The marks of emitted operands -/

/-- The marks on emitted code say what the operand is. -/
structure Operand.Marks (scope : Scope) (o : Operand) (e : Emitted) : Prop where
  isList : e.isList = o.isList
  numeric : e.numeric = o.isNumeric
  market : e.market = o.isMarket
  series : e.series = (decide (scope = .series) && o.varies)

def Node.Marks (scope : Scope) : Node → Emitted → Prop
  | .operand o, e => o.Marks scope e
  | .condition _, _ => True

inductive Offence where
  | tooDeep | notImplemented | unresolved | outOfScope | illTyped | unwritten | malformed
  deriving DecidableEq, Repr

def EmissionError.offence : EmissionError → Offence
  | .tooDeep _ => .tooDeep
  | .notImplemented _ => .notImplemented
  | .indicator _ => .unresolved
  | .contextOutsideCallback _ | .contextUnavailable _ => .outOfScope
  | .invalidConstant .overlong => .unwritten
  | .invalidConstant _ | .notCondition _ | .notOperand _ => .malformed
  | _ => .illTyped

/-- What a node can be blamed for besides its depth. -/
def Node.offence : Node → Offence
  | .operand (.external _) | .operand (.custom _) => .notImplemented
  | .operand (.indicator ..) => .unresolved
  | .operand (.tradeContext _) => .outOfScope
  | .operand (.constant _) => .unwritten
  | _ => .illTyped

theorem Node.offence_ne_malformed (n : Node) : n.offence ≠ .malformed := by
  unfold Node.offence
  split <;> simp

/-- The rule of a node accepts it if and only if it is typed, and marks it or blames it. -/
def Verdict (context : EmissionContext) (n : Node) : Except EmissionError Emitted → Prop
  | .ok e => n.Typed context.scope context.binding ∧ n.Marks context.scope e
  | .error reason => ¬ n.Typed context.scope context.binding ∧ reason.offence = n.offence

theorem Scalar.literal_of_finite {s : Scalar} (h : s.notFinite? = none) :
    s.toValue.literal =
      if s.toValue.hasLong then .error .overlong else .ok s.toValue.written := by
  cases s with
  | float x =>
    simp only [Scalar.notFinite?] at h
    split at h
    · next hx => simp [Scalar.toValue, Value.literal, Value.written, Value.hasLong, hx]
    · cases h
  | _ => simp [Scalar.toValue, Value.literal, Value.written, Value.hasLong]

/-- Of a finite constant only an integer with too many digits has no literal. -/
theorem Constant.literal_of_finite {c : Constant} (h : c.notFinite? = none) :
    c.toValue.literal =
      if c.toValue.hasLong then .error .overlong else .ok c.toValue.written := by
  cases c with
  | scalar s => exact Scalar.literal_of_finite h
  | list items =>
    have hitems : Value.literals (items.map Scalar.toValue) =
        if Value.anyLong (items.map Scalar.toValue) then .error .overlong
        else .ok (Value.writtenItems (items.map Scalar.toValue)) := by
      induction items with
      | nil => simp [Value.literals, Value.writtenItems, Value.anyLong]
      | cons s rest ih =>
        simp only [Constant.notFinite?, List.findSome?_cons] at h
        split at h
        · cases h
        · next hs =>
          rw [List.map_cons, Value.literals, Value.writtenItems, Value.anyLong,
            Scalar.literal_of_finite hs, ih h]
          cases s.toValue.hasLong <;> cases Value.anyLong (rest.map Scalar.toValue) <;> rfl
    rw [Constant.toValue, Value.literal, Value.written, Value.hasLong, hitems]
    cases Value.anyLong (items.map Scalar.toValue) <;> rfl

theorem Binding.column_ok_iff (b : Binding) (id : String) (field : Option String) :
    (∃ name, b.column id field = .ok name) ↔ b.Resolves id field := by
  unfold Binding.column Binding.Resolves
  cases hfind : b.find? id with
  | none => simp
  | some i =>
    simp only [BoundIndicator.column, BoundIndicator.output, Option.some.injEq, exists_eq_left']
    have key : ∀ output, (field.filter (! ·.isEmpty)).or i.spec.defaultField = some output ↔
        (field = some output ∧ output ≠ "") ∨
          ((field = none ∨ field = some "") ∧ i.spec.defaultField = some output) := by
      intro output
      cases field with
      | none => simp
      | some f =>
        by_cases hf : f = ""
        · subst hf
          simp [Option.filter]
        · have : f.isEmpty = false := by simpa [String.isEmpty_iff] using hf
          simp only [Option.filter, this, Bool.not_false, if_true, Option.some_or,
            Option.some.injEq, hf, reduceCtorEq, false_and, or_false]
          constructor
          · rintro rfl; exact ⟨rfl, hf⟩
          · exact fun h => h.1
    simp only [← key]
    cases (field.filter (! ·.isEmpty)).or i.spec.defaultField with
    | none => simp [bind, Except.bind]
    | some output =>
      by_cases hout : output ∈ i.spec.outputs <;>
        simp [bind, Except.bind, pure, Except.pure, hout]

/-! ## One rule at a time -/

namespace Emission

variable {scope : Scope} {binding : Binding} {n : Node} (context : EmissionContext) {o : Operand}
  {p q : Emitted} {depth : Nat} {offence : Offence}

/-- A node that asks for nothing. -/
private theorem shaped_of_free (hreserved : n.isReserved = false)
    (hindicator : ∀ i f k, n ≠ .operand (.indicator i f k))
    (htrade : ∀ f, n ≠ .operand (.tradeContext f)) (hlists : n.ListsFit) (hnumbers : n.numbers = [])
    (hcrossing : n.crossing = []) : n.Shaped scope binding :=
  ⟨hreserved, fun i f k h => absurd h (hindicator i f k), fun f h => absurd h (htrade f), hlists,
    by simp [hnumbers], by simp [hcrossing]⟩

private theorem constant_shaped (scope : Scope) (binding : Binding) (value : Constant) :
    (Node.operand (.constant value)).Shaped scope binding :=
  shaped_of_free rfl nofun nofun (by simp [Node.ListsFit, Node.children]) rfl rfl

theorem constant_verdict {value : Constant} (h : value.notFinite? = none) :
    Verdict context (.operand (.constant value)) (constant value) := by
  rw [constant, Constant.literal_of_finite h]
  cases hlong : value.toValue.hasLong with
  | true => exact ⟨fun htyped => by simp [htyped.written value rfl] at hlong, rfl⟩
  | false =>
    refine ⟨⟨constant_shaped .., ?_⟩, rfl, rfl, rfl, by simp [Operand.varies, Operand.anyLeaf]⟩
    rintro _ ⟨⟩
    exact hlong

theorem columns_marks (scope : Scope) (names : List String) (offset : Nat)
    (hlist : o.isList = false) (hnumeric : o.isNumeric = true) (hmarket : o.isMarket = true)
    (hvaries : o.varies = true) : o.Marks scope (columns scope names offset) :=
  ⟨hlist.symm, hnumeric.symm, hmarket.symm, by simp [columns, hvaries]⟩

theorem indicator_verdict (id : String) (field : Option String) (offset : Nat) :
    Verdict context (.operand (.indicator id field offset))
      (indicator context id field offset) := by
  have hiff := context.binding.column_ok_iff id field
  unfold indicator
  cases hcolumn : context.binding.column id field with
  | ok name =>
    refine ⟨⟨⟨rfl, ?_, by simp, by simp [Node.ListsFit, Node.children], by simp [Node.numbers],
      by simp [Node.crossing]⟩, nofun⟩, columns_marks _ _ _ rfl rfl rfl rfl⟩
    rintro id' field' offset' h
    obtain ⟨rfl, rfl, rfl⟩ : id = id' ∧ field = field' ∧ offset = offset' := by simpa using h
    exact hiff.mp ⟨name, hcolumn⟩
  | error reason =>
    refine ⟨fun htyped => ?_, rfl⟩
    obtain ⟨name, hname⟩ := hiff.mpr (htyped.resolved id field offset rfl)
    rw [hcolumn] at hname
    cases hname

theorem callbackArgument_eq_none_iff (field : TradeField) :
    callbackArgument field = none ↔ field ∉ callbackFields := by
  cases field <;> decide

theorem callbackArgument_numeric {field : TradeField} {name : String} {numeric : Bool}
    (h : callbackArgument field = some (name, numeric)) : numeric = !field.isText := by
  cases field <;> cases h <;> rfl

theorem tradeContext_verdict (field : TradeField) :
    Verdict context (.operand (.tradeContext field)) (tradeContext context.scope field) := by
  unfold tradeContext
  have hout : (¬ (context.scope = .leverage ∧ field ∈ callbackFields)) →
      ¬ (Node.operand (.tradeContext field)).Typed context.scope context.binding :=
    fun hno htyped => hno (htyped.inScope field rfl)
  cases hscope : context.scope with
  | series =>
    rw [hscope] at hout
    exact ⟨by rw [hscope]; exact hout (by simp), rfl⟩
  | leverage =>
    rw [hscope] at hout
    cases hargument : callbackArgument field with
    | none =>
      have := (callbackArgument_eq_none_iff field).mp hargument
      exact ⟨by rw [hscope]; exact hout (by simp [this]), rfl⟩
    | some argument =>
      obtain ⟨name, numeric⟩ := argument
      have hmem : field ∈ callbackFields := by
        by_contra hno
        rw [(callbackArgument_eq_none_iff field).mpr hno] at hargument
        cases hargument
      refine ⟨⟨⟨rfl, by simp, ?_, by simp [Node.ListsFit, Node.children], by simp [Node.numbers],
        by simp [Node.crossing]⟩, nofun⟩, ?_⟩
      · rintro field' h
        obtain rfl : field = field' := by simpa using h
        exact ⟨hscope, hmem⟩
      · exact ⟨rfl, callbackArgument_numeric hargument, rfl,
          by simp [Operand.varies, Operand.anyLeaf]⟩

theorem isList_of_isNumeric (h : o.isNumeric = true) : o.isList = false := by
  cases o with
  | constant value => cases value <;> simp_all [Operand.isNumeric, Operand.isList,
      Constant.isNumber, Constant.isList]
  | _ => rfl

private theorem any_of_forall₂ {α β : Type} {f : α → Bool} {g : β → Bool} {xs : List α}
    {ys : List β} (h : List.Forall₂ (fun x y => g y = f x) xs ys) : ys.any g = xs.any f := by
  induction h with
  | nil => rfl
  | cons hxy _ ih => simp [hxy, ih]

theorem computed_verdict (operation : Operation) {operands : List Operand} {parts : List Emitted}
    (h : List.Forall₂ (Operand.Marks context.scope) operands parts) :
    Verdict context (.operand (.computed operation operands))
      (computed context.scope operation parts) := by
  have hnumeric : parts.find? (! ·.numeric) = none ↔ ∀ o ∈ operands, o.isNumeric = true := by
    induction h with
    | nil => simp
    | cons hop _ ih =>
      simp only [List.find?_eq_none, Bool.not_eq_true', Bool.not_eq_false] at ih
      simp [hop.numeric, ih]
  unfold computed
  split
  · next e hfound =>
    refine ⟨fun htyped => ?_, rfl⟩
    have := hnumeric.mpr htyped.numbers
    simp [hfound] at this
  · next hfound =>
    have hall := hnumeric.mp hfound
    refine ⟨⟨⟨rfl, by simp, by simp, ?_, hall, by simp [Node.crossing]⟩, nofun⟩, ?_⟩
    · simpa [Node.ListsFit, Node.children] using fun o ho => isList_of_isNumeric (hall o ho)
    · refine ⟨rfl, rfl, ?_, ?_⟩
      · rw [Operand.isMarket, Operand.anyLeaf_computed]
        exact any_of_forall₂ (h.imp fun _ _ hm => hm.market)
      · rw [Operand.varies, Operand.anyLeaf_computed]
        simp only
        rw [any_of_forall₂ (f := fun o => decide (context.scope = .series) && o.varies)
          (h.imp fun _ _ hm => hm.series)]
        cases decide (context.scope = .series) <;> simp [Operand.varies]

theorem compare_typed_iff {mark : Mark} {left right : Operand} {operator : Comparison} :
    (Node.condition (.compare mark left operator right)).Typed scope binding ↔
      left.isList = false ∧ (right.isList = true ↔ operator = .in_ ∨ operator = .notIn) ∧
      (isOrdering operator = true → left.isNumeric = true ∧ right.isNumeric = true) := by
  have hmem : operator ∈ [Comparison.gt, .gte, .lt, .lte] ↔ isOrdering operator = true := by
    cases operator <;> decide
  have hnumbers : (∀ o ∈ (Node.condition (.compare mark left operator right)).numbers,
      o.isNumeric = true) ↔
      (isOrdering operator = true → left.isNumeric = true ∧ right.isNumeric = true) := by
    simp only [Node.numbers, hmem]
    by_cases h : isOrdering operator = true <;> simp [h]
  constructor
  · intro h
    exact ⟨h.lists.1, h.lists.2, hnumbers.mp h.numbers⟩
  · rintro ⟨hleft, hright, hnum⟩
    exact ⟨⟨rfl, by simp, by simp, ⟨hleft, hright⟩, hnumbers.mpr hnum, by simp [Node.crossing]⟩,
      nofun⟩

theorem compare_verdict (mark : Mark) (operator : Comparison) {left right : Operand}
    (hp : left.Marks context.scope p) (hq : right.Marks context.scope q) :
    Verdict context (.condition (.compare mark left operator right))
      (compare context.scope operator p q) := by
  simp only [compare, hp.isList, hq.isList, hp.numeric, hq.numeric]
  cases hleft : left.isList with
  | true => exact ⟨fun h => by simp [compare_typed_iff, hleft] at h, rfl⟩
  | false =>
    simp only [Bool.false_eq_true, if_false]
    cases hrelation : relation? operator with
    | none =>
      have hmember : operator = .in_ ∨ operator = .notIn := by
        cases operator <;> simp [relation?] at hrelation ⊢
      have hplain : isOrdering operator = false := by rcases hmember with rfl | rfl <;> rfl
      cases hright : right.isList with
      | true => exact ⟨compare_typed_iff.mpr ⟨hleft, by simp [hright, hmember], by simp [hplain]⟩,
          trivial⟩
      | false =>
        exact ⟨fun h => by simp [compare_typed_iff, hright, hmember] at h, rfl⟩
    | some r =>
      have hmember : ¬ (operator = .in_ ∨ operator = .notIn) := by
        rintro (rfl | rfl) <;> simp [relation?] at hrelation
      cases hright : right.isList with
      | true =>
        exact ⟨fun h => by simp [compare_typed_iff, hright, hmember] at h, rfl⟩
      | false =>
        simp only [Bool.false_eq_true, if_false]
        cases hordering : isOrdering operator with
        | false =>
          exact ⟨compare_typed_iff.mpr ⟨hleft, by simp [hright, hmember], by simp [hordering]⟩,
            trivial⟩
        | true =>
          cases hl : left.isNumeric with
          | false => exact ⟨fun h => by simp [compare_typed_iff, hordering, hl] at h, rfl⟩
          | true =>
            cases hr : right.isNumeric with
            | false => exact ⟨fun h => by simp [compare_typed_iff, hordering, hr] at h, rfl⟩
            | true =>
              exact ⟨compare_typed_iff.mpr ⟨hleft, by simp [hright, hmember], by simp [hl, hr]⟩,
                trivial⟩

theorem isList_of_isMarket (h : o.isMarket = true) : o.isList = false := by
  cases o <;> simp_all [Operand.isMarket, Operand.anyLeaf, Operand.isList]

theorem crossing_typed_iff {mark : Mark} {a b : Operand} (above : Bool) :
    (Node.condition (bif above then .crossover mark a b else .crossunder mark a b)).Typed
      scope binding ↔ a.isMarket = true ∧ b.isMarket = true := by
  constructor
  · intro h
    have := h.crossing
    cases above <;> simpa [Node.crossing] using this
  · rintro ⟨ha, hb⟩
    have hla := isList_of_isMarket ha
    have hlb := isList_of_isMarket hb
    cases above <;>
      exact ⟨⟨rfl, by simp, by simp, by simp [Node.ListsFit, Node.children, hla, hlb],
        by simp [Node.numbers], by simp [Node.crossing, ha, hb]⟩, by simp⟩

theorem crossing_verdict (mark : Mark) (above : Bool) {a b : Operand} (hp : a.Marks context.scope p)
    (hq : b.Marks context.scope q) :
    Verdict context (.condition (bif above then .crossover mark a b else .crossunder mark a b))
      (crossing context.scope above p q) := by
  have hoffence : (Node.condition
      (bif above then .crossover mark a b else .crossunder mark a b)).offence = .illTyped := by
    cases above <;> rfl
  simp only [crossing, hp.market, hq.market]
  cases ha : a.isMarket with
  | false => exact ⟨fun h => by simp [crossing_typed_iff, ha] at h, hoffence.symm⟩
  | true =>
    cases hb : b.isMarket with
    | false => exact ⟨fun h => by simp [crossing_typed_iff, hb] at h, hoffence.symm⟩
    | true => exact ⟨(crossing_typed_iff above).mpr ⟨ha, hb⟩, trivial⟩

theorem inRange_verdict (mark : Mark) (inclusive : Bool) {value low high : Operand} {r : Emitted}
    (hp : value.Marks context.scope p) (hq : low.Marks context.scope q)
    (hr : high.Marks context.scope r) :
    Verdict context (.condition (.inRange mark value low high inclusive))
      (inRange context.scope inclusive p q r) := by
  have hfind : ([p, q, r].find? fun e => e.isList || !e.numeric) = none ↔
      value.isNumeric = true ∧ low.isNumeric = true ∧ high.isNumeric = true := by
    have hv := @isList_of_isNumeric value
    have hlo := @isList_of_isNumeric low
    have hhi := @isList_of_isNumeric high
    simp only [List.find?_eq_none, List.forall_mem_cons, hp.isList, hq.isList, hr.isList,
      hp.numeric, hq.numeric, hr.numeric, Bool.not_eq_true, Bool.or_eq_false_iff,
      Bool.not_eq_false', List.not_mem_nil, false_implies, implies_true, and_true]
    tauto
  unfold inRange
  split
  · next e hfound =>
    refine ⟨fun h => ?_, rfl⟩
    have := hfind.mpr (by simpa [Node.numbers] using h.numbers)
    simp [hfound] at this
  · next hfound =>
    obtain ⟨hv, hlo, hhi⟩ := hfind.mp hfound
    refine ⟨⟨⟨rfl, by simp, by simp, ?_, by simp [Node.numbers, hv, hlo, hhi],
      by simp [Node.crossing]⟩, nofun⟩, trivial⟩
    simp [Node.ListsFit, Node.children, isList_of_isNumeric hv, isList_of_isNumeric hlo,
      isList_of_isNumeric hhi]

/-- Every rule reaches the verdict on its node. -/
theorem node_verdict {parts : List Emitted} (hn : n.Admissible)
    (h : List.Forall₂ (Node.Marks context.scope) n.children parts) :
    Verdict context n (node context n parts) := by
  cases n with
  | operand o =>
    cases o with
    | constant value => exact constant_verdict context hn
    | indicator id field offset => exact indicator_verdict context id field offset
    | price field offset =>
      exact ⟨⟨shaped_of_free rfl (by simp) (by simp) (by simp [Node.ListsFit, Node.children]) rfl
        rfl, by simp⟩, columns_marks _ _ _ rfl rfl rfl rfl⟩
    | tradeContext field => exact tradeContext_verdict context field
    | time field zone =>
      refine ⟨⟨shaped_of_free rfl (by simp) (by simp) (by simp [Node.ListsFit, Node.children]) rfl
        rfl, by simp⟩, ?_⟩
      cases hscope : context.scope <;>
        exact ⟨rfl, rfl, rfl, by simp [time, Operand.varies, Operand.anyLeaf]⟩
    | computed operation operands =>
      exact computed_verdict context operation
        (List.forall₂_map_left_iff (f := Node.operand).mp h)
    | external source | custom name =>
      exact ⟨fun htyped => Bool.noConfusion htyped.implemented, rfl⟩
  | condition c =>
    cases c with
    | all _ _ | any _ _ | not _ _ | ifThen _ _ _ | ifThenElse _ _ _ _ =>
      exact ⟨⟨shaped_of_free rfl (by simp) (by simp) (by simp [Node.ListsFit, Node.children]) rfl
        rfl, by simp⟩, trivial⟩
    | compare mark left operator right =>
      obtain ⟨p, q, hp, hq, rfl⟩ := forall₂_pair h
      exact compare_verdict context mark operator hp hq
    | crossover mark a b =>
      obtain ⟨p, q, hp, hq, rfl⟩ := forall₂_pair h
      exact crossing_verdict context mark true hp hq
    | crossunder mark a b =>
      obtain ⟨p, q, hp, hq, rfl⟩ := forall₂_pair h
      exact crossing_verdict context mark false hp hq
    | inRange mark value low high inclusive =>
      obtain ⟨p, q, r, hp, hq, hr, rfl⟩ := forall₂_triple h
      exact inRange_verdict context mark inclusive hp hq hr

/-! ## Whole trees -/

/-- The first offence in a tree: a node that is too deep is blamed before its parts, the parts
from left to right, and the node itself when all parts are in order. -/
inductive FirstOffence (context : EmissionContext) : Nat → Node → Offence → Prop
  | deep {depth : Nat} {n : Node} (h : context.maxDepth < depth) :
      FirstOffence context depth n .tooDeep
  | part {depth : Nat} {n m : Node} {before after : List Node} {offence : Offence}
      (h : (depth : Int) ≤ context.maxDepth) (hparts : n.children = before ++ m :: after)
      (hbefore : ∀ k ∈ before, WellTyped context (depth + 1) k)
      (hm : FirstOffence context (depth + 1) m offence) : FirstOffence context depth n offence
  | own {depth : Nat} {n : Node} (h : (depth : Int) ≤ context.maxDepth)
      (hparts : ∀ k ∈ n.children, WellTyped context (depth + 1) k)
      (hn : ¬ n.Typed context.scope context.binding) : FirstOffence context depth n n.offence

/-- The verdict on a whole tree. -/
def TreeVerdict (context : EmissionContext) (depth : Nat) (n : Node) :
    Except EmissionError Emitted → Prop
  | .ok e => WellTyped context depth n ∧ n.Marks context.scope e
  | .error reason => FirstOffence context depth n reason.offence

private theorem parts_verdict (depth : Nat) (ns : List Node)
    (h : ∀ m ∈ ns, TreeVerdict context depth m (build context depth m)) :
    match ns.mapM (build context depth) with
    | .ok parts => (∀ m ∈ ns, WellTyped context depth m) ∧
        List.Forall₂ (Node.Marks context.scope) ns parts
    | .error reason => ∃ before m after, ns = before ++ m :: after ∧
        (∀ k ∈ before, WellTyped context depth k) ∧
        FirstOffence context depth m reason.offence := by
  induction ns with
  | nil => simp [pure, Except.pure]
  | cons n rest ih =>
    have hn := h n List.mem_cons_self
    have hrest := ih fun m hm => h m (List.mem_cons_of_mem n hm)
    rw [List.mapM_cons]
    cases hbuild : build context depth n with
    | error reason =>
      rw [hbuild] at hn
      exact ⟨[], n, rest, rfl, by simp, hn⟩
    | ok e =>
      rw [hbuild] at hn
      cases hmap : rest.mapM (build context depth) with
      | error reason =>
        rw [hmap] at hrest
        obtain ⟨before, m, after, rfl, hbefore, hm⟩ := hrest
        exact ⟨n :: before, m, after, rfl, by simpa using ⟨hn.1, hbefore⟩, hm⟩
      | ok parts =>
        rw [hmap] at hrest
        exact ⟨by simpa using ⟨hn.1, hrest.1⟩, .cons hn.2 hrest.2⟩

theorem build_verdict (n : Node) (hn : ∀ m ∈ n.preorder, m.Admissible) (depth : Nat) :
    TreeVerdict context depth n (build context depth n) := by
  induction n using Node.induction generalizing depth with
  | step n ih =>
    obtain ⟨hself, hparts⟩ := (Node.forall_mem_preorder n).mp hn
    have hall := parts_verdict context (depth + 1) n.children fun m hm =>
      ih m hm (hparts m hm) (depth + 1)
    rw [build_eq]
    by_cases hdeep : context.maxDepth < depth
    · rw [if_pos hdeep]
      exact .deep hdeep
    · have hdepth : (depth : Int) ≤ context.maxDepth := Int.not_lt.mp hdeep
      rw [if_neg hdeep]
      cases hmap : n.children.mapM (build context (depth + 1)) with
      | error reason =>
        rw [hmap] at hall
        obtain ⟨before, m, after, hsplit, hbefore, hm⟩ := hall
        exact .part hdepth hsplit hbefore hm
      | ok parts =>
        rw [hmap] at hall
        have hverdict := node_verdict context hself hall.2
        simp only [Except.bind]
        cases hnode : node context n parts with
        | ok e =>
          rw [hnode] at hverdict
          exact ⟨(wellTyped_iff ..).mpr ⟨hdepth, hverdict.1, hall.1⟩, hverdict.2⟩
        | error reason =>
          rw [hnode] at hverdict
          have hblame := FirstOffence.own hdepth hall.1 hverdict.1
          rwa [← hverdict.2] at hblame

/-- What makes an emission fail is never the form of an accepted node. -/
theorem FirstOffence.ne_malformed {context : EmissionContext}
    (h : FirstOffence context depth n offence) : offence ≠ .malformed := by
  induction h with
  | deep => simp
  | part _ _ _ _ ih => exact ih
  | own => exact Node.offence_ne_malformed _

/-- A constant that cannot be written is there when the tree is refused for one. -/
theorem FirstOffence.exists_hasLong {context : EmissionContext}
    (h : FirstOffence context depth n offence) (hlong : offence = .unwritten) :
    ∃ value, .operand (.constant value) ∈ n.preorder ∧ value.toValue.hasLong = true := by
  induction h with
  | deep => cases hlong
  | @part _ n m _ _ _ _ hparts _ _ ih =>
    obtain ⟨value, hmem, hvalue⟩ := ih hlong
    exact ⟨value, (Node.mem_preorder n).mpr (.inr ⟨m, by simp [hparts], hmem⟩), hvalue⟩
  | @own _ n _ _ hn =>
    obtain ⟨value, rfl⟩ : ∃ value, n = .operand (.constant value) := by
      revert hlong
      unfold Node.offence
      split <;> simp
    refine ⟨value, (Node.mem_preorder _).mpr (.inl rfl),
      Bool.eq_true_of_not_eq_false fun h => hn ?_⟩
    exact ⟨constant_shaped .., by rintro _ ⟨⟩; exact h⟩

/-- An offence excludes a typing. -/
theorem FirstOffence.not_wellTyped {context : EmissionContext}
    (h : FirstOffence context depth n offence) : ¬ WellTyped context depth n := by
  induction h with
  | deep h => exact fun hw => Int.not_le.mpr h ((wellTyped_iff ..).mp hw).1
  | part _ hparts _ _ ih =>
    exact fun hw => ih (((wellTyped_iff ..).mp hw).2.2 _ (by simp [hparts]))
  | own _ _ hn => exact fun hw => hn ((wellTyped_iff ..).mp hw).2.1

private theorem split_unique {P : Node → Prop} {before before' after after' : List Node}
    {m m' : Node} (h : before ++ m :: after = before' ++ m' :: after')
    (hb : ∀ k ∈ before, P k) (hb' : ∀ k ∈ before', P k) (hm : ¬ P m) (hm' : ¬ P m') : m = m' := by
  induction before generalizing before' with
  | nil =>
    cases before' with
    | nil => exact (List.cons.inj h).1
    | cons k rest =>
      obtain ⟨rfl, -⟩ := List.cons.inj h
      exact absurd (hb' m List.mem_cons_self) hm
  | cons k rest ih =>
    cases before' with
    | nil =>
      obtain ⟨rfl, -⟩ := List.cons.inj h
      exact absurd (hb k List.mem_cons_self) hm'
    | cons k' rest' =>
      exact ih (List.cons.inj h).2 (fun x hx => hb x (List.mem_cons_of_mem k hx))
        fun x hx => hb' x (List.mem_cons_of_mem k' hx)

/-- A tree has at most one first offence. -/
theorem FirstOffence.unique {context : EmissionContext} {offence' : Offence}
    (h : FirstOffence context depth n offence) (h' : FirstOffence context depth n offence') :
    offence = offence' := by
  induction h with
  | deep hd =>
    cases h' with
    | deep => rfl
    | part hd' => exact absurd hd (Int.not_lt.mpr hd')
    | own hd' => exact absurd hd (Int.not_lt.mpr hd')
  | part hd hsplit hb hm ih =>
    cases h' with
    | deep hd' => exact absurd hd' (Int.not_lt.mpr hd)
    | part _ hsplit' hb' hm' =>
      obtain rfl := split_unique (hsplit.symm.trans hsplit') hb hb' hm.not_wellTyped
        hm'.not_wellTyped
      exact ih hm'
    | own _ hparts => exact absurd (hparts _ (by simp [hsplit])) hm.not_wellTyped
  | own hd hparts =>
    cases h' with
    | deep hd' => exact absurd hd' (Int.not_lt.mpr hd)
    | part _ hsplit' _ hm' => exact absurd (hparts _ (by simp [hsplit'])) hm'.not_wellTyped
    | own => rfl

/-- The verdict on a condition as a whole. -/
theorem emitCondition_verdict {c : Condition} (hc : c.Admissible) (tally : Tally) :
    match (emitCondition context (.condition c) tally).1 with
    | .ok _ => WellTyped context 1 (.condition c)
    | .error reason => FirstOffence context 1 (.condition c) reason.offence := by
  have hverdict := build_verdict context (.condition c) hc 1
  rw [emitCondition_fst]
  cases hbuild : build context 1 (.condition c) with
  | ok e =>
    rw [hbuild] at hverdict
    exact hverdict.1
  | error reason =>
    rw [hbuild] at hverdict
    exact hverdict

theorem exists_emitted_iff {c : Condition} (hc : c.Admissible) (tally : Tally) :
    (∃ e, (emitCondition context (.condition c) tally).1 = .ok e) ↔
      WellTyped context 1 (.condition c) := by
  have hverdict := emitCondition_verdict context hc tally
  cases hemit : (emitCondition context (.condition c) tally).1 with
  | ok e =>
    rw [hemit] at hverdict
    exact ⟨fun _ => hverdict, fun _ => ⟨e, rfl⟩⟩
  | error reason =>
    rw [hemit] at hverdict
    exact ⟨nofun, fun h => absurd h hverdict.not_wellTyped⟩

/-- Every tree that the schema accepts is emitted if it is well typed and refused for its first
offence if it is not. -/
theorem emitCondition_iff_wellTyped {raw : Value} {c : Condition}
    (hc : Condition.read raw = .good c) (context : EmissionContext) (tally : Tally) :
    ((∃ e, (emitCondition context (.condition c) tally).1 = .ok e) ↔
      WellTyped context 1 (.condition c)) ∧
    ∀ offence, (∃ reason, (emitCondition context (.condition c) tally).1 = .error reason ∧
      reason.offence = offence) ↔ FirstOffence context 1 (.condition c) offence := by
  have hadm := Condition.read_admissible hc
  refine ⟨exists_emitted_iff context hadm tally, fun offence => ?_⟩
  have hverdict := emitCondition_verdict context hadm tally
  cases hemit : (emitCondition context (.condition c) tally).1 with
  | ok e =>
    rw [hemit] at hverdict
    exact ⟨nofun, fun h => absurd hverdict h.not_wellTyped⟩
  | error reason =>
    rw [hemit] at hverdict
    constructor
    · rintro ⟨_, hreason, rfl⟩
      cases hreason
      exact hverdict
    · intro h
      exact ⟨reason, rfl, hverdict.unique h⟩

/-- A price that crosses a number. -/
def crossedNumberRaw : Value :=
  .object [(.text "type", .text "CROSSOVER"),
    (.text "series1", .object [(.text "type", .text "PRICE"), (.text "field", .text "close")]),
    (.text "series2", .object [(.text "type", .text "CONSTANT"), (.text "value", .int 30)])]

def crossedNumber : Condition :=
  .crossover ⟨none, none⟩ (.price .close 0) (.constant (.scalar (.int 30)))

theorem read_crossedNumberRaw : Condition.read crossedNumberRaw = .good crossedNumber := by
  with_unfolding_all rfl

theorem crossedNumber_illTyped :
    Condition.read crossedNumberRaw = .good crossedNumber ∧
    ¬ WellTyped ⟨.series, Binding.empty, 8⟩ 1 (.condition crossedNumber) ∧
    FirstOffence ⟨.series, Binding.empty, 8⟩ 1 (.condition crossedNumber) .illTyped := by
  have h := emitCondition_iff_wellTyped read_crossedNumberRaw ⟨.series, Binding.empty, 8⟩
    Tally.empty
  have hemit : (match (emitCondition ⟨.series, Binding.empty, 8⟩ (.condition crossedNumber)
      Tally.empty).1 with
    | .ok _ => false
    | .error reason => reason.offence == .illTyped) = true := by decide +kernel
  split at hemit
  · cases hemit
  · next reason hreason =>
    have hoffence : reason.offence = .illTyped := by simpa using hemit
    refine ⟨read_crossedNumberRaw, fun hw => ?_, (h.2 _).mp ⟨reason, hreason, hoffence⟩⟩
    obtain ⟨e, he⟩ := h.1.mpr hw
    rw [hreason] at he
    cases he

/-- A price above the least integer that cannot be written. -/
def aboveOverlong : Condition :=
  .compare ⟨none, none⟩ (.price .close 0) .gt (.constant (.scalar (.int overlong)))

/-- A tree of which every node has its shape is refused for an integer with too many digits. -/
theorem overlong_constant_refused :
    Condition.read aboveOverlong.dump = .good aboveOverlong ∧
    (∀ n d, (Node.condition aboveOverlong).Occurs 1 n d → d ≤ 2 ∧ n.Shaped .series Binding.empty) ∧
    (emitCondition ⟨.series, Binding.empty, 8⟩ (.condition aboveOverlong) Tally.empty).1 =
      .error (.invalidConstant .overlong) := by
  have hlong : (Value.int overlong).literal = .error .overlong := by
    rw [Value.literal, if_pos isLong_overlong]
  refine ⟨(Condition.read_dump_iff _).mpr ?_, fun n d hocc => ?_, ?_⟩
  · intro m hm
    obtain rfl | rfl | rfl : m = .condition aboveOverlong ∨ m = .operand (.price .close 0) ∨
        m = .operand (.constant (.scalar (.int overlong))) := by
      simpa [aboveOverlong, Condition.preorder, Operand.preorder] using hm
    all_goals simp [Node.Admissible, Constant.notFinite?, Scalar.notFinite?]
  · rcases (Node.occurs_iff ..).mp hocc with ⟨rfl, rfl⟩ | ⟨k, hk, hocc⟩
    · exact ⟨by decide, rfl, by simp, by simp, ⟨rfl, by decide⟩, by decide,
        by simp [Node.crossing, aboveOverlong]⟩
    · obtain rfl | rfl : k = .operand (.price .close 0) ∨
          k = .operand (.constant (.scalar (.int overlong))) := by
        simpa [aboveOverlong, Node.children] using hk
      all_goals
        rcases (Node.occurs_iff ..).mp hocc with ⟨rfl, rfl⟩ | ⟨k, hk, -⟩
        · exact ⟨by decide, shaped_of_free rfl (by simp) (by simp)
            (by simp [Node.ListsFit, Node.children]) rfl rfl⟩
        · simp [Node.children] at hk
  · rw [emitCondition_fst]
    simp [build_eq, aboveOverlong, Node.children, node, operand, constant, Constant.toValue,
      Scalar.toValue, hlong, bind, Except.bind, pure, Except.pure, Except.map]

end Emission

end Stratagem
