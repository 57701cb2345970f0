import Stratagem.Limits
import Stratagem.Value.Written

/-!
The extent of a value (containers, depth, characters, list items) and the guard that keeps it
within the ceilings. The guard walks a list of pending values, the last child of a container
first, so no value is too deep for it; the first ceiling that is passed on that walk is reported.
-/

namespace Stratagem

inductive SizeError where
  | tooManyChars (limit : Nat)
  | tooManyNodes (limit : Nat)
  | tooDeep (limit : Nat)
  | tooManyItems (limit : Nat)
  | unsupported (kind : String)
  | keyNotText (key : Key)
  deriving DecidableEq

def SizeError.message : SizeError → String
  | .tooManyChars n => s!"document strings exceed {n} characters"
  | .tooManyNodes n => s!"document exceeds {n} nodes"
  | .tooDeep n => s!"document nesting exceeds depth {n}"
  | .tooManyItems n => s!"document arrays exceed {n} items in total"
  | .unsupported kind => "unsupported value of type " ++ kind
  | .keyNotText key =>
    (key.shown?.map ("object keys must be strings, got " ++ ·)).getD unwrittenText

structure Extent where
  containers : Nat
  depth : Nat
  stringChars : Nat
  listItems : Nat
  deriving DecidableEq, Repr

/-- A value that is still to be visited, and the depth it lies at. -/
structure Pending where
  value : Value
  depth : Nat

/-! ## Weight: the number of visits a value takes -/

namespace Value

mutual

def weight : Value → Nat
  | .list items => weights items + 1
  | .tuple items => weights items + 1
  | .object fields => fieldWeights fields + 1
  | _ => 1

def weights : List Value → Nat
  | [] => 0
  | item :: rest => weight item + weights rest

def fieldWeights : Fields → Nat
  | [] => 0
  | (_, value) :: rest => weight value + fieldWeights rest

end

theorem weights_values (fields : Fields) : weights fields.values = fieldWeights fields := by
  induction fields with
  | nil => rfl
  | cons f rest ih =>
    obtain ⟨k, v⟩ := f
    simp only [Fields.values] at ih
    simp [Fields.values, weights, fieldWeights, ih]

end Value

def pendingWeight : List Pending → Nat
  | [] => 0
  | p :: rest => p.value.weight + pendingWeight rest

/-- Put the children of a container on top, the last one topmost. -/
def push (depth : Nat) (children : List Value) (pending : List Pending) : List Pending :=
  children.foldl (fun stack value => ⟨value, depth⟩ :: stack) pending

theorem pendingWeight_push (depth : Nat) (children : List Value) (pending : List Pending) :
    pendingWeight (push depth children pending)
      = Value.weights children + pendingWeight pending := by
  induction children generalizing pending with
  | nil => simp [push, Value.weights]
  | cons c rest ih =>
    have h := ih (⟨c, depth⟩ :: pending)
    simp only [push, List.foldl_cons] at h ⊢
    rw [h]
    simp only [Value.weights, pendingWeight]
    omega

/-! ## The guard -/

namespace Extent

def empty : Extent := ⟨0, 0, 0, 0⟩

/-- Count one container. -/
def enter (limits : Limits) (depth : Nat) (e : Extent) : Except SizeError Extent :=
  if limits.maxNodes < e.containers + 1 then .error (.tooManyNodes limits.maxNodes)
  else if limits.maxDepth < depth then .error (.tooDeep limits.maxDepth)
  else .ok { e with containers := e.containers + 1, depth := max e.depth depth }

/-- Count the characters of the keys; a key that is not a text ends the walk. -/
def addKeys (e : Extent) : Fields → Except SizeError Extent
  | [] => .ok e
  | (.text k, _) :: rest => addKeys { e with stringChars := e.stringChars + k.length } rest
  | (key, _) :: _ => .error (.keyNotText key)

/-- Count the characters of a text. -/
def addText (limits : Limits) (s : String) (e : Extent) : Except SizeError Extent :=
  let chars := e.stringChars + s.length
  if limits.maxStringChars < chars then .error (.tooManyChars limits.maxStringChars)
  else .ok { e with stringChars := chars }

/-- Count the elements of a list. -/
def addItems (limits : Limits) (count : Nat) (e : Extent) : Except SizeError Extent :=
  let items := e.listItems + count
  if limits.maxListItems < items then .error (.tooManyItems limits.maxListItems)
  else .ok { e with listItems := items }

/-- Visit the pending values, topmost first. -/
def walk (limits : Limits) (pending : List Pending) (e : Extent) : Except SizeError Extent :=
  match pending with
  | [] => .ok e
  | ⟨.text s, _⟩ :: rest => do walk limits rest (← e.addText limits s)
  | ⟨.null, _⟩ :: rest | ⟨.bool _, _⟩ :: rest | ⟨.int _, _⟩ :: rest | ⟨.float _, _⟩ :: rest =>
    walk limits rest e
  | ⟨.object fields, depth⟩ :: rest => do
    let e ← e.enter limits depth
    let e ← e.addKeys fields
    walk limits (push (depth + 1) (Fields.values fields) rest) e
  | ⟨.list items, depth⟩ :: rest | ⟨.tuple items, depth⟩ :: rest => do
    let e ← e.enter limits depth
    let e ← e.addItems limits items.length
    walk limits (push (depth + 1) items rest) e
  | ⟨v, _⟩ :: _ => .error (.unsupported v.kind)
termination_by pendingWeight pending
decreasing_by
  all_goals
    simp only [pendingWeight, pendingWeight_push, Value.weights_values, Value.weight]
    omega

/-- The extent of a document, if it is within the ceilings. Keys are counted when their mapping is
entered but only judged at the next text and at the end. -/
def check (limits : Limits) (document : Value) : Except SizeError Extent := do
  let e ← walk limits [⟨document, 1⟩] empty
  if limits.maxStringChars < e.stringChars then .error (.tooManyChars limits.maxStringChars)
  else return e

end Extent

end Stratagem
