import Stratagem.Schema.Checked

/-!
Fields of a mapping. A field may go by several names; the first name that is present counts, even
with a null value, and faults are placed at that name. Readings of fields receive a proof that the
value is smaller than the mapping, so readers of trees end.
-/

namespace Stratagem.Schema

theorem sizeOf_get? {fields : Fields} {key : Key} {v : Value}
    (h : Fields.get? fields key = some v) : sizeOf v < sizeOf fields := by
  induction fields with
  | nil => simp [Fields.get?] at h
  | cons f rest ih =>
    obtain ⟨k, w⟩ := f
    rw [Fields.get?, List.lookup_cons] at h
    split at h
    · simp only [Option.some.injEq] at h
      subst h
      simp only [List.cons.sizeOf_spec, Prod.mk.sizeOf_spec]
      omega
    · have := ih h
      simp only [List.cons.sizeOf_spec]
      omega

/-- An entry of a mapping. -/
structure Picked (fields : Fields) where
  name : String
  value : Value
  smaller : sizeOf value < sizeOf fields

/-- The entry under the first name that is present. -/
def pick? (fields : Fields) : List String → Option (Picked fields)
  | [] => none
  | name :: rest =>
    match h : Fields.get? fields (.text name) with
    | some v => some ⟨name, v, sizeOf_get? h⟩
    | none => pick? fields rest

/-- A field that has to be there. -/
def required {α : Type} (fields : Fields) (names : List String)
    (read : (v : Value) → sizeOf v < sizeOf fields → Checked α) : Checked α :=
  match pick? fields names with
  | some p => (read p.value p.smaller).below (.key p.name)
  | none => .bad [⟨[.key (names.headD "")], .missing⟩]

/-- A field with a default, which is taken as it stands. -/
def optional {α : Type} (fields : Fields) (names : List String) (default : α)
    (read : (v : Value) → sizeOf v < sizeOf fields → Checked α) : Checked α :=
  match pick? fields names with
  | some p => (read p.value p.smaller).below (.key p.name)
  | none => .good default

/-- A field that may be absent or null. -/
def nullable {α : Type} (fields : Fields) (names : List String)
    (read : (v : Value) → sizeOf v < sizeOf fields → Checked α) : Checked (Option α) :=
  optional fields names none fun v h =>
    match v with
    | .null => .good none
    | v => some <$> read v (by assumption)

/-- Read the elements of a list, each at its position. -/
def readItems {α : Type} (start : Nat) :
    (items : List Value) → ((v : Value) → v ∈ items → Checked α) → Checked (List α)
  | [], _ => .good []
  | v :: rest, read =>
    List.cons <$> (read v List.mem_cons_self).below (.index start) <*>
      readItems (start + 1) rest fun w h => read w (List.mem_cons_of_mem v h)

/-- A list or tuple of things. -/
def tuple {α : Type} (v : Value) (read : (w : Value) → sizeOf w < sizeOf v → Checked α) :
    Checked (List α) :=
  match v with
  | .list items => readItems 0 items fun w h =>
      read w (by have := List.sizeOf_lt_of_mem h; simp only [Value.list.sizeOf_spec]; omega)
  | .tuple items => readItems 0 items fun w h =>
      read w (by have := List.sizeOf_lt_of_mem h; simp only [Value.tuple.sizeOf_spec]; omega)
  | _ => .fault .notTuple

/-- The fields of a value that has to be a mapping. -/
def model {α : Type} (name : String) (v : Value) (read : Fields → Checked α) : Checked α :=
  match v with
  | .object fields => read fields
  | _ => .fault (.notModel name)

end Stratagem.Schema
