import Stratagem.Schema.Scalar

/-! Readings of fields whose values are known. Each lemma asks for the value of a field and for what
it is read as, and says that the field is read well. -/

namespace Stratagem.Schema

variable {α : Type} {fields : Fields} {name : String} {names : List String} {v : Value} {a : α}
  {read : (v : Value) → sizeOf v < sizeOf fields → Checked α}

theorem pick?_of_get? (h : Fields.get? fields (.text name) = some v) :
    pick? fields (name :: names) = some ⟨name, v, sizeOf_get? h⟩ := by
  unfold pick?
  split
  · next w hw =>
    obtain rfl : w = v := Option.some.inj (hw.symm.trans h)
    rfl
  · next hnone =>
    rw [h] at hnone
    cases hnone

theorem required_good (h : Fields.get? fields (.text name) = some v)
    (hread : ∀ hv, read v hv = .good a) : required fields (name :: names) read = .good a := by
  unfold required
  rw [pick?_of_get? h]
  simp only [hread, Checked.below]

theorem optional_good {default : α} (h : Fields.get? fields (.text name) = some v)
    (hread : ∀ hv, read v hv = .good a) :
    optional fields (name :: names) default read = .good a := by
  unfold optional
  rw [pick?_of_get? h]
  simp only [hread, Checked.below]

theorem nullable_null (h : Fields.get? fields (.text name) = some .null) :
    nullable fields (name :: names) read = .good none :=
  optional_good h fun _ => rfl

theorem nullable_good (h : Fields.get? fields (.text name) = some v) (hv : v.isNull = false)
    (hread : ∀ hv, read v hv = .good a) :
    nullable fields (name :: names) read = .good (some a) := by
  refine optional_good h fun hsize => ?_
  cases v with
  | null => cases hv
  | _ => simp only [hread]; rfl

theorem readItems_good {start : Nat} {dump : α → Value} {as : List α}
    {read : (v : Value) → v ∈ as.map dump → Checked α}
    (h : ∀ a ∈ as, ∀ hv, read (dump a) hv = .good a) :
    readItems start (as.map dump) read = .good as := by
  induction as generalizing start with
  | nil => rfl
  | cons a rest ih =>
    obtain ⟨ha, hrest⟩ := List.forall_mem_cons.mp h
    have hothers : readItems (start + 1) (rest.map dump)
        (fun w hw => read w (List.mem_cons_of_mem (dump a) hw)) = .good rest :=
      ih fun b hb _ => hrest b hb _
    change List.cons <$> (read (dump a) List.mem_cons_self).below (.index start) <*>
      readItems (start + 1) (rest.map dump)
        (fun w hw => read w (List.mem_cons_of_mem (dump a) hw)) = .good (a :: rest)
    rw [ha, hothers]
    rfl

theorem tuple_good {dump : α → Value} {as : List α}
    {read : (v : Value) → sizeOf v < sizeOf (Value.list (as.map dump)) → Checked α}
    (h : ∀ a ∈ as, ∀ hv, read (dump a) hv = .good a) :
    tuple (.list (as.map dump)) read = .good as :=
  readItems_good fun a ha _ => h a ha _

/-! ## Names -/

/-- Each member of a closed set is found by its name. -/
class LawfulNamed (α : Type) [Named α] : Prop where
  ofName?_name : ∀ a : α, Named.ofName? α (Named.name a) = some a

theorem readNamed_name [Named α] [LawfulNamed α] (a : α) :
    readNamed α (.text (Named.name a)) = .good a := by
  simp only [readNamed, LawfulNamed.ofName?_name]

theorem variant_good {τ : Type} [Named τ] [LawfulNamed τ] {read : τ → Checked α} (tag : τ)
    (h : Fields.get? fields (.text "type") = some (.text (Named.name tag)))
    (hread : read tag = .good a) : variant fields read = .good a := by
  simp only [variant, h, LawfulNamed.ofName?_name, hread, Checked.below]

end Stratagem.Schema
