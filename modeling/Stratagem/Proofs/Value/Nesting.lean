import Stratagem.Proofs.Schema.Inversion
import Stratagem.Proofs.Value.Fields

/-! How deep containers nest in a value: what stands in a mapping nests less deep than the
mapping. -/

namespace Stratagem

namespace Value

mutual

/-- The greatest number of containers around a place in a value. -/
def depth : Value → Nat
  | .list items => depths items + 1
  | .tuple items => depths items + 1
  | .object fields => fieldDepths fields + 1
  | _ => 0

def depths : List Value → Nat
  | [] => 0
  | item :: rest => max item.depth (depths rest)

def fieldDepths : Fields → Nat
  | [] => 0
  | (_, value) :: rest => max value.depth (fieldDepths rest)

end

theorem depths_le_iff (items : List Value) (k : Nat) :
    depths items ≤ k ↔ ∀ v ∈ items, v.depth ≤ k := by
  induction items with
  | nil => simp [depths]
  | cons v rest ih => rw [depths, Nat.max_le, ih, List.forall_mem_cons]

theorem depths_values (fields : Fields) : depths fields.values = fieldDepths fields := by
  induction fields with
  | nil => rfl
  | cons f rest ih =>
    simp only [Fields.values] at ih
    simp [Fields.values, depths, fieldDepths, ih]

theorem depth_lt_of_items {v w : Value} {items : List Value} (h : v.items? = some items)
    (hw : w ∈ items) : w.depth < v.depth := by
  have hle := (depths_le_iff items _).mp (Nat.le_refl _) w hw
  unfold items? at h
  split at h
  · cases h
    rw [depth]
    omega
  · cases h
    rw [depth]
    omega
  · cases h

theorem depth_lt_of_get? {fields : Fields} {key : Key} {v : Value}
    (h : Fields.get? fields key = some v) : v.depth < (Value.object fields).depth := by
  have hmem : v ∈ fields.values := by
    induction fields with
    | nil => cases h
    | cons f rest ih =>
      obtain ⟨k, w⟩ := f
      rw [Fields.get?_cons] at h
      split at h
      · cases h
        exact List.mem_cons_self
      · exact List.mem_cons_of_mem w (ih h)
  have hle := (depths_le_iff fields.values _).mp (Nat.le_refl _) v hmem
  rw [depths_values] at hle
  rw [depth]
  omega

theorem depth_lt_of_holds {fields : Fields} {v : Value} (h : Schema.Holds fields v) :
    v.depth < (Value.object fields).depth := by
  cases h with
  | field hv => exact depth_lt_of_get? hv
  | item hv hitems hmem => exact Nat.lt_trans (depth_lt_of_items hitems hmem) (depth_lt_of_get? hv)

end Value

end Stratagem
