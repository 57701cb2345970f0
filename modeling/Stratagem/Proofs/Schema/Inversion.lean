import Stratagem.Schema.Scalar

/-! What a good reading says about the readings it was made of. -/

namespace Stratagem.Schema

variable {fields : Fields} {names : List String} {α : Type}

namespace Checked

variable {α β : Type}

theorem map_eq_good {f : α → β} {x : Checked α} {b : β} (h : f <$> x = .good b) :
    ∃ a, x = .good a ∧ f a = b := by
  cases x with
  | good a => exact ⟨a, rfl, Checked.good.inj h⟩
  | bad faults => cases h

theorem seq_eq_good {f : Checked (α → β)} {x : Checked α} {b : β} (h : f <*> x = .good b) :
    ∃ g a, f = .good g ∧ x = .good a ∧ g a = b := by
  cases f with
  | good g =>
    cases x with
    | good a => exact ⟨g, a, rfl, rfl, Checked.good.inj h⟩
    | bad faults => cases h
  | bad faults => cases x <;> cases h

/-- Two readings that are combined by a function. -/
theorem map_seq_eq_good {γ : Type} {f : α → β → γ} {x : Checked α} {y : Checked β} {c : γ}
    (h : f <$> x <*> y = .good c) : ∃ a b, x = .good a ∧ y = .good b ∧ f a b = c := by
  obtain ⟨g, b, hg, hy, hc⟩ := seq_eq_good h
  obtain ⟨a, hx, rfl⟩ := map_eq_good hg
  exact ⟨a, b, hx, hy, hc⟩

theorem andThen_eq_good {x : Checked α} {check : α → Checked β} {b : β}
    (h : x.andThen check = .good b) : ∃ a, x = .good a ∧ check a = .good b := by
  cases x with
  | good a => exact ⟨a, rfl, h⟩
  | bad faults => cases h

theorem below_eq_good {step : Step} {x : Checked α} {a : α} (h : x.below step = .good a) :
    x = .good a := by
  cases x with
  | good b => exact h
  | bad faults => cases h

end Checked

open Checked

theorem pick?_eq_some {p : Picked fields} (h : pick? fields names = some p) :
    p.name ∈ names ∧ Fields.get? fields (.text p.name) = some p.value := by
  induction names with
  | nil => cases h
  | cons name rest ih =>
    unfold pick? at h
    split at h
    · next v hv =>
      cases h
      exact ⟨List.mem_cons_self, hv⟩
    · obtain ⟨hmem, hv⟩ := ih h
      exact ⟨List.mem_cons_of_mem name hmem, hv⟩

theorem pick?_eq_none (h : pick? fields names = none) :
    ∀ name ∈ names, Fields.get? fields (.text name) = none := by
  induction names with
  | nil => simp
  | cons name rest ih =>
    unfold pick? at h
    split at h
    · cases h
    · next hv => exact List.forall_mem_cons.mpr ⟨hv, ih h⟩

theorem required_eq_good {read : (v : Value) → sizeOf v < sizeOf fields → Checked α} {a : α}
    (h : required fields names read = .good a) :
    ∃ name ∈ names, ∃ v hv, Fields.get? fields (.text name) = some v ∧ read v hv = .good a := by
  unfold required at h
  split at h
  · next p hp =>
    obtain ⟨hmem, hv⟩ := pick?_eq_some hp
    exact ⟨p.name, hmem, p.value, p.smaller, hv, below_eq_good h⟩
  · cases h

theorem optional_eq_good {default : α} {read : (v : Value) → sizeOf v < sizeOf fields → Checked α}
    {a : α} (h : optional fields names default read = .good a) :
    a = default ∨
      ∃ name ∈ names, ∃ v hv, Fields.get? fields (.text name) = some v ∧ read v hv = .good a := by
  unfold optional at h
  split at h
  · next p hp =>
    obtain ⟨hmem, hv⟩ := pick?_eq_some hp
    exact .inr ⟨p.name, hmem, p.value, p.smaller, hv, below_eq_good h⟩
  · exact .inl (Checked.good.inj h).symm

theorem nullable_eq_good {read : (v : Value) → sizeOf v < sizeOf fields → Checked α} {a : α}
    (h : nullable fields names read = .good (some a)) :
    ∃ name ∈ names, ∃ v hv, Fields.get? fields (.text name) = some v ∧ read v hv = .good a := by
  rcases optional_eq_good h with hnone | ⟨name, hmem, v, hv, hkey, hread⟩
  · cases hnone
  · split at hread
    · cases hread
    · obtain ⟨b, hb, hab⟩ := map_eq_good hread
      obtain rfl : b = a := Option.some.inj hab
      exact ⟨name, hmem, _, hv, hkey, hb⟩

/-- A field with one name only: the default says that it is absent. -/
theorem optional_singleton_eq_good {name : String} {default : α}
    {read : (v : Value) → sizeOf v < sizeOf fields → Checked α} {a : α}
    (h : optional fields [name] default read = .good a) :
    Fields.get? fields (.text name) = none ∧ a = default ∨
      ∃ v hv, Fields.get? fields (.text name) = some v ∧ read v hv = .good a := by
  unfold optional at h
  split at h
  · next p hp =>
    obtain ⟨hmem, hv⟩ := pick?_eq_some hp
    rw [List.mem_singleton.mp hmem] at hv
    exact .inr ⟨p.value, p.smaller, hv, below_eq_good h⟩
  · next hp =>
    exact .inl ⟨pick?_eq_none hp name (List.mem_singleton_self name), (Checked.good.inj h).symm⟩

/-- The same for a field that may be null. -/
theorem nullable_singleton_eq_good {name : String}
    {read : (v : Value) → sizeOf v < sizeOf fields → Checked α} {found : Option α}
    (h : nullable fields [name] read = .good found) :
    Fields.present? fields (.text name) = none ∧ found = none ∨
      ∃ v hv a, Fields.present? fields (.text name) = some v ∧ read v hv = .good a ∧
        found = some a := by
  unfold Fields.present?
  rcases optional_singleton_eq_good h with ⟨hnone, rfl⟩ | ⟨v, hv, hkey, hread⟩
  · exact .inl ⟨by rw [hnone], rfl⟩
  · rw [hkey]
    split at hread
    · exact .inl ⟨rfl, (Checked.good.inj hread).symm⟩
    · next hnull =>
      obtain ⟨a, ha, rfl⟩ := map_eq_good hread
      refine .inr ⟨v, hv, a, ?_, ha, rfl⟩
      split
      · next hv' =>
        cases hv'
        exact (hnull hv rfl HEq.rfl).elim
      · rfl

theorem readItems_eq_good {start : Nat} {items : List Value}
    {read : (v : Value) → v ∈ items → Checked α} {as : List α}
    (h : readItems start items read = .good as) : ∀ a ∈ as, ∃ v hv, read v hv = .good a := by
  induction items generalizing start as with
  | nil =>
    intro a ha
    obtain rfl : [] = as := Checked.good.inj h
    simp at ha
  | cons v rest ih =>
    intro a ha
    obtain ⟨b, bs, hb, hbs, rfl⟩ := map_seq_eq_good h
    rcases List.mem_cons.mp ha with rfl | ha
    · exact ⟨v, _, below_eq_good hb⟩
    · obtain ⟨w, hw, hread⟩ := ih hbs a ha
      exact ⟨w, _, hread⟩

theorem tuple_eq_good {v : Value} {read : (w : Value) → sizeOf w < sizeOf v → Checked α}
    {as : List α} (h : tuple v read = .good as) :
    ∃ items, v.items? = some items ∧ ∀ a ∈ as, ∃ w ∈ items, ∃ hw, read w hw = .good a := by
  unfold tuple at h
  split at h
  · refine ⟨_, rfl, fun a ha => ?_⟩
    obtain ⟨w, hw, hread⟩ := readItems_eq_good h a ha
    exact ⟨w, hw, _, hread⟩
  · refine ⟨_, rfl, fun a ha => ?_⟩
    obtain ⟨w, hw, hread⟩ := readItems_eq_good h a ha
    exact ⟨w, hw, _, hread⟩
  · cases h

theorem variant_eq_good {τ : Type} [Named τ] {read : τ → Checked α} {a : α}
    (h : variant fields read = .good a) : ∃ t, read t = .good a := by
  unfold variant at h
  split at h
  · cases h
  · simp only at h
    split at h
    · split at h
      · next t _ => exact ⟨t, below_eq_good h⟩
      · cases h
    · cases h

/-! ## Where things were read from -/

/-- A value stands in a mapping: under a key, or in the list under a key. -/
inductive Holds (fields : Fields) : Value → Prop
  | field {key : Key} {v : Value} (h : Fields.get? fields key = some v) : Holds fields v
  | item {key : Key} {v w : Value} {items : List Value} (h : Fields.get? fields key = some v)
      (hitems : v.items? = some items) (hw : w ∈ items) : Holds fields w

section Sources

variable {α : Type} {fields : Fields} {names : List String} {read : Value → Checked α}

theorem required_source {a : α} (h : (required fields names fun w _ => read w) = .good a) :
    ∃ w, Holds fields w ∧ read w = .good a := by
  obtain ⟨_, _, w, _, hkey, hw⟩ := required_eq_good h
  exact ⟨w, .field hkey, hw⟩

theorem nullable_source {a : α}
    (h : (nullable fields names fun w _ => read w) = .good (some a)) :
    ∃ w, Holds fields w ∧ read w = .good a := by
  obtain ⟨_, _, w, _, hkey, hw⟩ := nullable_eq_good h
  exact ⟨w, .field hkey, hw⟩

theorem tuple_source {as : List α}
    (h : (optional fields names [] fun w _ => tuple w fun x _ => read x) = .good as) :
    ∀ a ∈ as, ∃ w, Holds fields w ∧ read w = .good a := by
  intro a ha
  rcases optional_eq_good h with rfl | ⟨_, _, v, _, hkey, hv⟩
  · cases ha
  · obtain ⟨items, hitems, hall⟩ := tuple_eq_good hv
    obtain ⟨w, hmem, _, hw⟩ := hall a ha
    exact ⟨w, .item hkey hitems hmem, hw⟩

end Sources

end Stratagem.Schema
