import Mathlib.Algebra.GroupWithZero.Nat
import Stratagem.Proofs.Failure
import Stratagem.Proofs.Value.Nesting
import Stratagem.Value.Extent

/-! What the size guard measures. The guard visits pending values one by one and keeps running
totals; the extent of a value is defined by recursion on the value. The guard lets a value through
exactly if it is data and its extent is within the ceilings, and reports that extent. Hence neither
the order of the entries of a mapping nor the order of the visits makes a difference. -/

namespace Stratagem

/-! ## The extent of a value -/

namespace Extent

/-- Two values side by side. -/
def beside (a b : Extent) : Extent where
  containers := a.containers + b.containers
  depth := max a.depth b.depth
  stringChars := a.stringChars + b.stringChars
  listItems := a.listItems + b.listItems

/-- A container around values, of some list elements. -/
def enclosed (items : Nat) (e : Extent) : Extent where
  containers := e.containers + 1
  depth := e.depth + 1
  stringChars := e.stringChars
  listItems := e.listItems + items

/-- Some characters by themselves. -/
def ofChars (count : Nat) : Extent := { empty with stringChars := count }

/-- No ceiling is passed. -/
structure Within (limits : Limits) (e : Extent) : Prop where
  containers : e.containers ≤ limits.maxNodes
  depth : e.depth ≤ limits.maxDepth
  stringChars : e.stringChars ≤ limits.maxStringChars
  listItems : e.listItems ≤ limits.maxListItems

theorem beside_empty (a : Extent) : a.beside empty = a := by simp [beside, empty]

theorem empty_beside (a : Extent) : empty.beside a = a := by simp [beside, empty]

theorem beside_comm (a b : Extent) : a.beside b = b.beside a := by
  simp [beside, Nat.add_comm, Nat.max_comm]

theorem beside_assoc (a b c : Extent) : (a.beside b).beside c = a.beside (b.beside c) := by
  simp [beside, Nat.add_assoc, Nat.max_assoc]

theorem beside_left_comm (a b c : Extent) : a.beside (b.beside c) = b.beside (a.beside c) := by
  rw [← beside_assoc, beside_comm a b, beside_assoc]

instance : LeftCommutative beside := ⟨beside_left_comm⟩

theorem Within.of_beside {limits : Limits} {a b : Extent} (h : (a.beside b).Within limits) :
    a.Within limits := by
  obtain ⟨hcontainers, hdepth, hchars, hitems⟩ := h
  simp only [beside] at hcontainers hdepth hchars hitems
  exact ⟨by omega, by omega, by omega, by omega⟩

end Extent

/-- The characters of a key that is a text. -/
def Key.chars : Key → Nat
  | .text s => s.length
  | _ => 0

def Key.isText : Key → Bool
  | .text _ => true
  | _ => false

namespace Value

mutual

/-- Containers, their nesting, the characters of texts and keys, and the elements of lists. -/
def extent : Value → Extent
  | .text s => .ofChars s.length
  | .list items => (extents items).enclosed items.length
  | .tuple items => (extents items).enclosed items.length
  | .object fields => (fieldExtents fields).enclosed 0
  | _ => .empty

def extents : List Value → Extent
  | [] => .empty
  | item :: rest => item.extent.beside (extents rest)

def fieldExtents : Fields → Extent
  | [] => .empty
  | (key, value) :: rest =>
    (Extent.ofChars key.chars).beside (value.extent.beside (fieldExtents rest))

end

mutual

/-- Only texts, numbers, truth values and nulls stand in it, in lists, tuples, and mappings whose
keys are texts. -/
def isData : Value → Bool
  | .null | .bool _ | .int _ | .float _ | .text _ => true
  | .list items => areData items
  | .tuple items => areData items
  | .object fields => fieldsAreData fields
  | .set _ | .bytes _ | .date _ | .moment _ => false

def areData : List Value → Bool
  | [] => true
  | item :: rest => item.isData && areData rest

def fieldsAreData : Fields → Bool
  | [] => true
  | (key, value) :: rest => key.isText && value.isData && fieldsAreData rest

end

mutual

/-- The depth of an extent is that of its value. -/
theorem extent_depth (v : Value) : v.extent.depth = v.depth := by
  cases v with
  | list items | tuple items => simp [extent, depth, Extent.enclosed, extents_depth]
  | object fields => simp [extent, depth, Extent.enclosed, fieldExtents_depth]
  | _ => simp [extent, depth, Extent.ofChars, Extent.empty]

theorem extents_depth (items : List Value) : (extents items).depth = depths items := by
  match items with
  | [] => simp [extents, depths, Extent.empty]
  | item :: rest =>
    simp [extents, depths, Extent.beside, extent_depth item, extents_depth rest]

theorem fieldExtents_depth (fields : Fields) :
    (fieldExtents fields).depth = fieldDepths fields := by
  match fields with
  | [] => simp [fieldExtents, fieldDepths, Extent.empty]
  | (key, value) :: rest =>
    simp [fieldExtents, fieldDepths, Extent.beside, Extent.ofChars, Extent.empty,
      extent_depth value, fieldExtents_depth rest]

end

theorem areData_iff (items : List Value) :
    areData items = true ↔ ∀ v ∈ items, v.isData = true := by
  induction items with
  | nil => simp [areData]
  | cons v rest ih => simp [areData, ih]

theorem fieldsAreData_iff (fields : Fields) : fieldsAreData fields = true ↔
    (∀ key ∈ fields.keys, key.isText = true) ∧ ∀ v ∈ fields.values, v.isData = true := by
  induction fields with
  | nil => simp [fieldsAreData, Fields.keys, Fields.values]
  | cons f rest ih =>
    obtain ⟨key, v⟩ := f
    simp only [Fields.keys, Fields.values] at ih ⊢
    simp only [fieldsAreData, Bool.and_eq_true, ih, List.map_cons, List.forall_mem_cons]
    tauto

/-- The characters of all keys together. -/
def keyChars (fields : Fields) : Nat := (fields.keys.map Key.chars).sum

/-- Keys and values can be counted apart. -/
theorem fieldExtents_eq (fields : Fields) :
    fieldExtents fields = (Extent.ofChars (keyChars fields)).beside (extents fields.values) := by
  induction fields with
  | nil => rfl
  | cons f rest ih =>
    obtain ⟨key, v⟩ := f
    simp only [keyChars, Fields.keys, Fields.values] at ih ⊢
    simp [fieldExtents, extents, ih, Extent.beside, Extent.ofChars, Extent.empty]
    omega

end Value

/-! ## The order of entries -/

namespace Value

theorem extents_eq_foldr (items : List Value) :
    extents items = (items.map extent).foldr Extent.beside .empty := by
  induction items with
  | nil => rfl
  | cons v rest ih => rw [extents, ih, List.map_cons, List.foldr_cons]

theorem fieldExtents_eq_foldr (fields : Fields) : fieldExtents fields =
    (fields.map fun f => (Extent.ofChars f.1.chars).beside f.2.extent).foldr Extent.beside
      .empty := by
  induction fields with
  | nil => rfl
  | cons f rest ih =>
    obtain ⟨key, v⟩ := f
    rw [fieldExtents, ih, List.map_cons, List.foldr_cons, Extent.beside_assoc]

/-- Two values that differ in the order of the entries of their mappings only. -/
inductive Reordered : Value → Value → Prop
  | refl (v : Value) : Reordered v v
  | entries {fields fields' : Fields} (h : fields.Perm fields') :
      Reordered (.object fields) (.object fields')
  | field (above below : Fields) (key : Key) {v w : Value} (h : Reordered v w) :
      Reordered (.object (above ++ (key, v) :: below)) (.object (above ++ (key, w) :: below))
  | item (above below : List Value) {v w : Value} (h : Reordered v w) :
      Reordered (.list (above ++ v :: below)) (.list (above ++ w :: below))
  | element (above below : List Value) {v w : Value} (h : Reordered v w) :
      Reordered (.tuple (above ++ v :: below)) (.tuple (above ++ w :: below))
  | trans {u v w : Value} (h : Reordered u v) (h' : Reordered v w) : Reordered u w

theorem Reordered.extent_eq {v w : Value} (h : v.Reordered w) : v.extent = w.extent := by
  induction h with
  | refl => rfl
  | entries h => simp only [extent, fieldExtents_eq_foldr, (h.map _).foldr_eq]
  | field above below key _ ih => simp [extent, fieldExtents_eq_foldr, ih]
  | item above below _ ih => simp [extent, extents_eq_foldr, ih]
  | element above below _ ih => simp [extent, extents_eq_foldr, ih]
  | trans _ _ ih ih' => exact ih.trans ih'

theorem Reordered.isData_eq {v w : Value} (h : v.Reordered w) : v.isData = w.isData := by
  rw [Bool.eq_iff_iff]
  induction h with
  | refl => rfl
  | entries h =>
    simp only [isData, fieldsAreData_iff, Fields.keys, Fields.values, (h.map _).mem_iff]
  | field above below key _ ih =>
    simp [isData, fieldsAreData_iff, Fields.keys, Fields.values, ih, or_imp, forall_and]
  | item above below _ ih | element above below _ ih =>
    simp [isData, areData_iff, ih, or_imp, forall_and]
  | trans _ _ ih ih' => exact ih.trans ih'

end Value

/-! ## One visit -/

/-- The extent of a value that lies at some depth; a value outside of containers has depth 1. -/
def Extent.lowered (depth : Nat) (e : Extent) : Extent :=
  { e with depth := if e.depth = 0 then 0 else depth + e.depth - 1 }

theorem Extent.lowered_one (e : Extent) : e.lowered 1 = e := by
  obtain ⟨containers, depth, chars, items⟩ := e
  simp only [lowered]
  split <;> simp_all

/-- A container that lies at some depth, and the values in it one level below. -/
theorem Extent.lowered_enclosed (depth items : Nat) (e : Extent) :
    (e.enclosed items).lowered depth = (mk 1 depth 0 items).beside (e.lowered (depth + 1)) := by
  simp only [lowered, enclosed, beside, mk.injEq]
  grind

theorem Extent.lowered_beside (depth : Nat) (a b : Extent) :
    (a.beside b).lowered depth = (a.lowered depth).beside (b.lowered depth) := by
  simp only [lowered, beside, mk.injEq, true_and, and_true]
  grind

namespace Pending

def extent (p : Pending) : Extent := p.value.extent.lowered p.depth

/-- What a visit adds to the totals: the value itself, without its children. -/
def own (p : Pending) : Extent :=
  match p.value with
  | .text s => .ofChars s.length
  | .list items => ⟨1, p.depth, 0, items.length⟩
  | .tuple items => ⟨1, p.depth, 0, items.length⟩
  | .object fields => ⟨1, p.depth, Value.keyChars fields, 0⟩
  | _ => .empty

/-- What a visit leaves to be visited, the last child first. -/
def children (p : Pending) : List Pending :=
  match p.value with
  | .list items => push (p.depth + 1) items []
  | .tuple items => push (p.depth + 1) items []
  | .object fields => push (p.depth + 1) (Fields.values fields) []
  | _ => []

/-- The value itself is data, whatever its children are. -/
def isData (p : Pending) : Bool :=
  match p.value with
  | .object fields => (Fields.keys fields).all Key.isText
  | .set _ | .bytes _ | .date _ | .moment _ => false
  | _ => true

end Pending

def pendingExtent (pending : List Pending) : Extent :=
  pending.foldr (fun p e => p.extent.beside e) .empty

theorem pendingExtent_append (xs ys : List Pending) :
    pendingExtent (xs ++ ys) = (pendingExtent xs).beside (pendingExtent ys) := by
  induction xs with
  | nil => exact (Extent.empty_beside _).symm
  | cons p xs ih => exact (congrArg p.extent.beside ih).trans (Extent.beside_assoc _ _ _).symm

theorem pendingExtent_perm {xs ys : List Pending} (h : xs.Perm ys) :
    pendingExtent xs = pendingExtent ys := by
  have hcomm : LeftCommutative fun (p : Pending) e => p.extent.beside e :=
    ⟨fun p q => Extent.beside_left_comm p.extent q.extent⟩
  exact h.foldr_eq _

theorem push_eq (depth : Nat) (children : List Value) (pending : List Pending) :
    push depth children pending = (children.map (Pending.mk · depth)).reverse ++ pending := by
  induction children generalizing pending with
  | nil => rfl
  | cons v rest ih =>
    rw [push, List.foldl_cons, ← push, ih]
    simp

theorem pendingExtent_push (depth : Nat) (items : List Value) :
    pendingExtent (push depth items []) = (Value.extents items).lowered depth := by
  rw [push_eq, List.append_nil, pendingExtent_perm (List.reverse_perm _)]
  induction items with
  | nil => rfl
  | cons v rest ih => rw [Value.extents, Extent.lowered_beside, ← ih]; rfl

theorem forall_push {P : Value → Prop} (depth : Nat) (items : List Value) :
    (∀ p ∈ push depth items [], P p.value) ↔ ∀ v ∈ items, P v := by
  simp [push_eq]

namespace Pending

theorem isData_iff (p : Pending) :
    p.value.isData = true ↔ p.isData = true ∧ ∀ c ∈ p.children, c.value.isData = true := by
  obtain ⟨v, depth⟩ := p
  cases v with
  | list items | tuple items =>
    simp [isData, children, Value.isData, Value.areData_iff, forall_push (P := (·.isData = true))]
  | object fields =>
    simp [isData, children, Value.isData, Value.fieldsAreData_iff,
      forall_push (P := (·.isData = true))]
  | _ => simp [isData, children, Value.isData]

theorem extent_eq (p : Pending) : p.extent = p.own.beside (pendingExtent p.children) := by
  obtain ⟨v, depth⟩ := p
  cases v with
  | list items | tuple items =>
    simp only [own, children, pendingExtent_push, extent, Value.extent, Extent.lowered_enclosed]
  | object fields =>
    simp only [own, children, pendingExtent_push, extent, Value.extent, Value.fieldExtents_eq,
      Extent.lowered_enclosed, Extent.lowered_beside, ← Extent.beside_assoc]
    simp [Extent.beside, Extent.lowered, Extent.ofChars, Extent.empty]
  | _ => rfl

end Pending

/-! ## Visits in any order -/

namespace Extent

variable {e out : Extent} {limits : Limits} {p : Pending}

/-- Add a value to the totals. -/
def count (limits : Limits) (p : Pending) (e : Extent) : Except SizeError Extent :=
  match p.value with
  | .text s => e.addText limits s
  | .null | .bool _ | .int _ | .float _ => .ok e
  | .object fields => do (← e.enter limits p.depth).addKeys fields
  | .list items | .tuple items => do (← e.enter limits p.depth).addItems limits items.length
  | v => .error (.unsupported v.kind)

theorem addKeys_eq_ok_iff {fields : Fields} :
    e.addKeys fields = .ok out ↔ (Fields.keys fields).all Key.isText = true ∧
      out = e.beside (.ofChars (Value.keyChars fields)) := by
  induction fields generalizing e with
  | nil => simp [addKeys, Fields.keys, Value.keyChars, beside, ofChars, empty, eq_comm]
  | cons f rest ih =>
    obtain ⟨key, v⟩ := f
    cases key with
    | text k =>
      rw [addKeys, ih]
      simp [Fields.keys, Value.keyChars, Key.isText, Key.chars, beside, ofChars, empty,
        Nat.add_assoc]
    | other | overlong => simp [addKeys, Fields.keys, Key.isText]

theorem enter_eq_ok_iff {depth : Nat} :
    e.enter limits depth = .ok out ↔ e.containers + 1 ≤ limits.maxNodes ∧
      depth ≤ limits.maxDepth ∧ out = e.beside ⟨1, depth, 0, 0⟩ := by
  unfold enter
  split
  · simp only [reduceCtorEq, false_iff]
    omega
  · split
    · simp only [reduceCtorEq, false_iff]
      omega
    · have hwithin : e.containers + 1 ≤ limits.maxNodes ∧ depth ≤ limits.maxDepth := by omega
      simp [hwithin, beside, eq_comm]

theorem addText_eq_ok_iff {s : String} :
    e.addText limits s = .ok out ↔ e.stringChars + s.length ≤ limits.maxStringChars ∧
      out = e.beside (.ofChars s.length) := by
  simp only [addText]
  split
  · simp only [reduceCtorEq, false_iff]
    omega
  · have hwithin : e.stringChars + s.length ≤ limits.maxStringChars := by omega
    simp [hwithin, beside, ofChars, empty, eq_comm]

theorem addItems_eq_ok_iff {n : Nat} :
    e.addItems limits n = .ok out ↔ e.listItems + n ≤ limits.maxListItems ∧
      out = e.beside ⟨0, 0, 0, n⟩ := by
  simp only [addItems]
  split
  · simp only [reduceCtorEq, false_iff]
    omega
  · have hwithin : e.listItems + n ≤ limits.maxListItems := by omega
    simp [hwithin, beside, eq_comm]

/-- The ceilings that a visit looks at, given the totals after it. -/
def Judges (limits : Limits) (p : Pending) (out : Extent) : Prop :=
  match p.value with
  | .text _ => out.stringChars ≤ limits.maxStringChars
  | .object _ => out.containers ≤ limits.maxNodes ∧ p.depth ≤ limits.maxDepth
  | .list _ | .tuple _ => out.containers ≤ limits.maxNodes ∧ p.depth ≤ limits.maxDepth ∧
      out.listItems ≤ limits.maxListItems
  | _ => True

theorem addElements_eq_ok_iff {depth n : Nat} :
    (do (← e.enter limits depth).addItems limits n) = .ok out ↔
      out = e.beside ⟨1, depth, 0, n⟩ ∧ out.containers ≤ limits.maxNodes ∧
        depth ≤ limits.maxDepth ∧ out.listItems ≤ limits.maxListItems := by
  simp only [bind_eq_ok_iff, enter_eq_ok_iff, addItems_eq_ok_iff]
  constructor
  · rintro ⟨_, ⟨hcontainers, hdepth, rfl⟩, hitems, rfl⟩
    exact ⟨by simp [beside], hcontainers, hdepth, hitems⟩
  · rintro ⟨rfl, hcontainers, hdepth, hitems⟩
    refine ⟨_, ⟨hcontainers, hdepth, rfl⟩, hitems, ?_⟩
    simp [beside]

theorem count_eq_ok_iff :
    e.count limits p = .ok out ↔
      p.isData = true ∧ out = e.beside p.own ∧ Judges limits p out := by
  obtain ⟨v, depth⟩ := p
  cases v with
  | text s =>
    simp only [count, addText_eq_ok_iff, Pending.isData, Pending.own, Judges, true_and]
    constructor
    · rintro ⟨h, rfl⟩
      exact ⟨rfl, h⟩
    · rintro ⟨rfl, h⟩
      exact ⟨h, rfl⟩
  | list items | tuple items => exact addElements_eq_ok_iff.trans ⟨fun h => ⟨rfl, h⟩, And.right⟩
  | object fields =>
    simp only [count, bind_eq_ok_iff, enter_eq_ok_iff, addKeys_eq_ok_iff, Pending.isData,
      Pending.own, Judges]
    constructor
    · rintro ⟨_, ⟨hcontainers, hdepth, rfl⟩, hkeys, rfl⟩
      refine ⟨hkeys, ?_, hcontainers, hdepth⟩
      simp [beside, ofChars, empty]
    · rintro ⟨hkeys, rfl, hcontainers, hdepth⟩
      refine ⟨_, ⟨hcontainers, hdepth, rfl⟩, hkeys, ?_⟩
      simp [beside, ofChars, empty]
  | _ => simp [count, Pending.isData, Pending.own, Judges, beside_empty, eq_comm]

/-- The ceilings that are judged on the way: all but that of the characters, since the characters of
keys are judged later. -/
structure Judged (limits : Limits) (e : Extent) : Prop where
  containers : e.containers ≤ limits.maxNodes
  depth : e.depth ≤ limits.maxDepth
  listItems : e.listItems ≤ limits.maxListItems

theorem Judged.beside_own (he : e.Judged limits) (h : Judges limits p (e.beside p.own)) :
    (e.beside p.own).Judged limits := by
  obtain ⟨hcontainers, hdepth, hitems⟩ := he
  obtain ⟨v, depth⟩ := p
  cases v <;>
    simp only [Judges, Pending.own, beside, ofChars, empty] at h ⊢ <;>
    constructor <;> simp only <;> omega

theorem Within.judges (h : (e.beside p.own).Within limits) : Judges limits p (e.beside p.own) := by
  obtain ⟨hcontainers, hdepth, hchars, hitems⟩ := h
  obtain ⟨v, depth⟩ := p
  cases v <;>
    simp only [Judges, Pending.own, beside, ofChars, empty]
      at hcontainers hdepth hchars hitems ⊢ <;>
    omega

end Extent

theorem pendingWeight_append (xs ys : List Pending) :
    pendingWeight (xs ++ ys) = pendingWeight xs + pendingWeight ys := by
  induction xs with
  | nil => simp [pendingWeight]
  | cons p xs ih => simp only [List.cons_append, pendingWeight, ih, Nat.add_assoc]

theorem pendingWeight_perm {xs ys : List Pending} (h : xs.Perm ys) :
    pendingWeight xs = pendingWeight ys := by
  induction h with
  | nil => rfl
  | cons p _ ih => simp only [pendingWeight, ih]
  | swap p q _ => simp only [pendingWeight]; omega
  | trans _ _ ih ih' => exact ih.trans ih'

theorem Pending.weight_children (p : Pending) : pendingWeight p.children < p.value.weight := by
  obtain ⟨v, depth⟩ := p
  cases v <;>
    simp [children, Value.weight, pendingWeight, pendingWeight_push, Value.weights_values]

/-- An order of visits: before each visit the pending values may be rearranged, and the first of
them is visited. The number of visits made so far is known, so any choice can be described. -/
structure VisitOrder where
  arrange : Nat → List Pending → List Pending
  perm : ∀ visits pending, (arrange visits pending).Perm pending

/-- The last child of the last container first. -/
def VisitOrder.lastFirst : VisitOrder := ⟨fun _ => id, fun _ _ => .refl _⟩

namespace Extent

/-- Visit the pending values in some order. -/
def walkBy (order : VisitOrder) (limits : Limits) (visits : Nat) (pending : List Pending)
    (e : Extent) : Except SizeError Extent :=
  match _next : order.arrange visits pending with
  | [] => .ok e
  | p :: rest => do walkBy order limits (visits + 1) (p.children ++ rest) (← e.count limits p)
termination_by pendingWeight pending
decreasing_by
  have hperm := pendingWeight_perm (order.perm visits pending)
  have hchildren := p.weight_children
  rw [_next, pendingWeight] at hperm
  rw [pendingWeight_append]
  omega

/-- The guard, with its visits in some order. -/
def checkBy (order : VisitOrder) (limits : Limits) (document : Value) :
    Except SizeError Extent := do
  let e ← walkBy order limits 0 [⟨document, 1⟩] empty
  if limits.maxStringChars < e.stringChars then .error (.tooManyChars limits.maxStringChars)
  else return e

/-- One step of the walk, whatever the value is. -/
theorem walk_cons (limits : Limits) (p : Pending) (rest : List Pending) (e : Extent) :
    walk limits (p :: rest) e =
      e.count limits p >>= fun out => walk limits (p.children ++ rest) out := by
  obtain ⟨v, depth⟩ := p
  have hpush (items : List Value) :
      push (depth + 1) items [] ++ rest = push (depth + 1) items rest := by
    rw [push_eq, push_eq _ _ rest, List.append_nil]
  cases v with
  | list items | tuple items | object fields =>
    simp only [walk, count, Pending.children, hpush, bind_assoc]
  | text s => simp only [walk, count, Pending.children, List.nil_append]
  | _ => simp [walk, count, Pending.children, bind, Except.bind]

theorem walk_eq_walkBy (limits : Limits) (visits : Nat) (pending : List Pending) (e : Extent) :
    walk limits pending e = walkBy .lastFirst limits visits pending e := by
  fun_induction walkBy VisitOrder.lastFirst limits visits pending e with
  | case1 visits pending e hnone =>
    cases hnone
    rw [walk]
  | case2 visits pending e p rest hnext ih =>
    cases hnext
    rw [walk_cons]
    exact bind_congr ih

/-- **A walk in any order judges and counts what is pending.** The induction is on the visits: what
is counted and what is pending together stay the same. -/
theorem walkBy_eq_ok_iff {order : VisitOrder} {limits : Limits} {visits : Nat}
    {pending : List Pending} {e out : Extent} (he : e.Judged limits) :
    walkBy order limits visits pending e = .ok out ∧ out.stringChars ≤ limits.maxStringChars ↔
      (∀ p ∈ pending, p.value.isData = true) ∧
        (e.beside (pendingExtent pending)).Within limits ∧
        out = e.beside (pendingExtent pending) := by
  fun_induction walkBy order limits visits pending e with
  | case1 visits pending e hnone =>
    have hperm := order.perm visits pending
    rw [hnone] at hperm
    obtain rfl : pending = [] := hperm.nil_eq.symm
    simp only [pendingExtent, List.foldr_nil, beside_empty, List.not_mem_nil, Except.ok.injEq,
      false_implies, implies_true, true_and]
    constructor
    · rintro ⟨rfl, hchars⟩
      exact ⟨⟨he.containers, he.depth, hchars, he.listItems⟩, rfl⟩
    · rintro ⟨hwithin, rfl⟩
      exact ⟨rfl, hwithin.stringChars⟩
  | case2 visits pending e p rest hnext ih =>
    have hperm : (p :: rest).Perm pending := hnext ▸ order.perm visits pending
    have htotal : e.beside (pendingExtent pending) =
        (e.beside p.own).beside (pendingExtent (p.children ++ rest)) := by
      rw [← pendingExtent_perm hperm, pendingExtent_append, beside_assoc, ← beside_assoc p.own,
        ← p.extent_eq]
      rfl
    have hdata : (∀ q ∈ pending, q.value.isData = true) ↔
        p.isData = true ∧ ∀ q ∈ p.children ++ rest, q.value.isData = true := by
      simp only [← hperm.mem_iff, List.forall_mem_cons, List.forall_mem_append, p.isData_iff,
        and_assoc]
    rw [htotal, hdata, bind_eq_ok_iff]
    constructor
    · rintro ⟨⟨mid, hcount, hwalk⟩, hchars⟩
      obtain ⟨hp, rfl, hjudges⟩ := count_eq_ok_iff.mp hcount
      obtain ⟨hrest, hwithin, hout⟩ := (ih _ (he.beside_own hjudges)).mp ⟨hwalk, hchars⟩
      exact ⟨⟨hp, hrest⟩, hwithin, hout⟩
    · rintro ⟨⟨hp, hrest⟩, hwithin, hout⟩
      have hjudges := hwithin.of_beside.judges
      obtain ⟨hwalk, hchars⟩ := (ih _ (he.beside_own hjudges)).mpr ⟨hrest, hwithin, hout⟩
      exact ⟨⟨_, count_eq_ok_iff.mpr ⟨hp, rfl, hjudges⟩, hwalk⟩, hchars⟩

theorem checkBy_eq_ok_iff {order : VisitOrder} {limits : Limits} {v : Value} {e : Extent} :
    checkBy order limits v = .ok e ↔
      v.isData = true ∧ v.extent.Within limits ∧ e = v.extent := by
  have hempty : empty.Judged limits := ⟨Nat.zero_le _, Nat.zero_le _, Nat.zero_le _⟩
  have htotal : empty.beside (pendingExtent [⟨v, 1⟩]) = v.extent := by
    rw [empty_beside]
    exact (beside_empty _).trans (lowered_one _)
  have hwalk := @walkBy_eq_ok_iff order limits 0 [⟨v, 1⟩] empty e hempty
  rw [htotal, List.forall_mem_singleton] at hwalk
  rw [← hwalk, checkBy, bind_eq_ok_iff]
  constructor
  · rintro ⟨out, hout, hjudge⟩
    split at hjudge
    · cases hjudge
    · cases hjudge
      exact ⟨hout, by omega⟩
  · rintro ⟨hout, hchars⟩
    exact ⟨e, hout, by rw [if_neg (by omega)]; rfl⟩

theorem check_eq_checkBy (limits : Limits) (v : Value) :
    check limits v = checkBy .lastFirst limits v := by
  rw [check, checkBy, walk_eq_walkBy limits 0]

/-- The guard bounds the nesting of what it lets through. -/
theorem depth_le_of_check {limits : Limits} {v : Value} {e : Extent}
    (h : check limits v = .ok e) : v.depth ≤ limits.maxDepth := by
  rw [check_eq_checkBy, checkBy_eq_ok_iff] at h
  exact v.extent_depth ▸ h.2.1.depth

/-- **The size guard is exact.** It lets a value through if and only if the value is data and its
extent is within the ceilings, and then reports that extent. The entries of mappings may stand in
another order, and the values may be visited in another order. -/
theorem check_measures_exactly (limits : Limits) (v : Value) :
    (∀ e, check limits v = .ok e ↔ v.isData = true ∧ v.extent.Within limits ∧ e = v.extent) ∧
    (∀ w, v.Reordered w → ∀ e, check limits w = .ok e ↔ check limits v = .ok e) ∧
    ∀ order e, checkBy order limits v = .ok e ↔ check limits v = .ok e := by
  simp only [check_eq_checkBy, checkBy_eq_ok_iff, implies_true, true_and, and_true]
  intro w hw
  rw [hw.extent_eq, hw.isData_eq]
  exact fun _ => .rfl

/-- A value that meets all four ceilings exactly, with its entries the other way round. -/
theorem check_measures_exactly_reversed :
    let inner : Value := .list [.int 1, .object [(.text "bc", .text "xyz")]]
    let v : Value := .object [(.text "a", inner), (.text "d", .null)]
    let w : Value := .object [(.text "d", .null), (.text "a", inner)]
    let limits : Limits :=
      { maxNodes := 3, maxDepth := 3, maxListItems := 2, maxStringChars := 7 }
    v.Reordered w ∧ check limits w = .ok ⟨3, 3, 7, 2⟩ ∧
      ∀ order, checkBy order limits v = .ok ⟨3, 3, 7, 2⟩ := by
  intro inner v w limits
  obtain ⟨hexact, hreordered, hordered⟩ := check_measures_exactly limits v
  have hswap : v.Reordered w := .entries (.swap _ _ _)
  have hv : check limits v = .ok ⟨3, 3, 7, 2⟩ :=
    (hexact _).mpr ⟨rfl, by constructor <;> decide, rfl⟩
  exact ⟨hswap, (hreordered w hswap _).mpr hv, fun order => (hordered order _).mpr hv⟩

end Extent

end Stratagem
