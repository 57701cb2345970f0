import Mathlib.Logic.Basic
import Stratagem.Value.Basic

/-! Looking up the fields of a mapping after other fields have been set or dropped. All of it
holds for lists of entries in which a key stands more than once: the first entry counts. -/

namespace Stratagem.Fields

variable {fields : Fields} {key : Key}

@[simp] theorem get?_nil (key : Key) : get? [] key = none := rfl

theorem get?_cons (k key : Key) (v : Value) (rest : Fields) :
    get? ((k, v) :: rest) key = if key = k then some v else get? rest key := by
  unfold get?
  rw [List.lookup_cons]
  by_cases h : key = k
  · simp [h]
  · have hne : (key == k) = false := beq_eq_false_iff_ne.mpr h
    simp [hne, h]

theorem get?_set (fields : Fields) (k key : Key) (v : Value) :
    get? (set fields k v) key = if key = k then some v else get? fields key := by
  induction fields with
  | nil => rw [set, get?_cons]
  | cons f rest ih =>
    obtain ⟨l, w⟩ := f
    rw [set]
    by_cases hl : l = k
    · subst hl
      rw [if_pos rfl, get?_cons, get?_cons]
      split
      · rfl
      · rfl
    · rw [if_neg hl, get?_cons, get?_cons, ih]
      by_cases hkey : key = l
      · subst hkey
        rw [if_pos rfl, if_pos rfl, if_neg hl]
      · rw [if_neg hkey, if_neg hkey]

/-- Dropping entries by their keys. -/
theorem get?_filter (keep : Key → Bool) (fields : Fields) (key : Key) :
    get? (fields.filter fun f => keep f.1) key = if keep key then get? fields key else none := by
  induction fields with
  | nil => simp
  | cons f rest ih =>
    obtain ⟨k, v⟩ := f
    rw [List.filter_cons]
    by_cases hk : key = k
    · subst hk
      cases hkeep : keep key with
      | true => simp [get?_cons]
      | false => simpa [hkeep] using ih
    · cases hkeep : keep k with
      | true => simp [get?_cons, hk, ih]
      | false => simpa [get?_cons, hk] using ih

theorem get?_of_present? {v : Value} (h : present? fields key = some v) :
    get? fields key = some v := by
  unfold present? at h
  split at h
  · cases h
  · exact h

theorem present?_eq_some_iff {v : Value} :
    present? fields key = some v ↔ get? fields key = some v ∧ v ≠ .null := by
  unfold present?
  split
  · next hnull => simp +contextual [hnull, eq_comm]
  · next hnull =>
    refine ⟨fun h => ⟨h, ?_⟩, And.left⟩
    rintro rfl
    exact hnull h

/-! ## Keys -/

theorem keys_set (fields : Fields) (key : Key) (v : Value) :
    keys (set fields key v) = if key ∈ keys fields then keys fields else keys fields ++ [key] := by
  induction fields with
  | nil => simp [set, keys]
  | cons f rest ih =>
    obtain ⟨k, w⟩ := f
    rw [set]
    by_cases hk : k = key
    · simp [keys, hk]
    · have hcons : ∀ (l : Key) (x : Value) (fs : Fields), keys ((l, x) :: fs) = l :: keys fs :=
        fun _ _ _ => rfl
      rw [if_neg hk, hcons, hcons, ih]
      by_cases hmem : key ∈ keys rest
      · rw [if_pos hmem, if_pos (List.mem_cons_of_mem k hmem)]
      · have hmem' : key ∉ k :: keys rest := by simp [Ne.symm hk, hmem]
        rw [if_neg hmem, if_neg hmem', List.cons_append]

theorem get?_eq_none_iff : get? fields key = none ↔ key ∉ keys fields := by
  unfold get? keys
  rw [List.lookup_eq_none_iff, List.mem_map]
  grind

/-- A mapping that holds each key once is known by its keys, in order, and what they hold. -/
theorem ext_get? {a b : Fields} (hnodup : (keys a).Nodup) (hkeys : keys a = keys b)
    (hget : ∀ key, get? a key = get? b key) : a = b := by
  induction a generalizing b with
  | nil => exact (List.map_eq_nil_iff.mp hkeys.symm).symm
  | cons e rest ih =>
    obtain ⟨k, v⟩ := e
    cases b with
    | nil => cases hkeys
    | cons e' rest' =>
      obtain ⟨l, w⟩ := e'
      obtain ⟨rfl, htail⟩ : k = l ∧ keys rest = keys rest' := List.cons_eq_cons.mp hkeys
      obtain ⟨hk, hrest⟩ : k ∉ keys rest ∧ (keys rest).Nodup := List.nodup_cons.mp hnodup
      have hvalue := hget k
      rw [get?_cons, get?_cons, if_pos rfl, if_pos rfl] at hvalue
      have hothers : rest = rest' := by
        refine ih hrest htail fun key => ?_
        by_cases hkey : key = k
        · subst hkey
          rw [get?_eq_none_iff.mpr hk, get?_eq_none_iff.mpr (htail ▸ hk)]
        · have hother := hget key
          rwa [get?_cons, get?_cons, if_neg hkey, if_neg hkey] at hother
      rw [Option.some.inj hvalue, hothers]

theorem keys_filter (keep : Key → Bool) (fields : Fields) :
    keys (fields.filter fun f => keep f.1) = (keys fields).filter keep := by
  unfold keys
  rw [List.filter_map]
  rfl

/-- Setting several keys keeps those that are there in their places and puts the others behind. -/
theorem keys_foldl_set (entries : Fields) (h : (keys entries).Nodup) (fields : Fields) :
    keys (entries.foldl (fun fs e => set fs e.1 e.2) fields) =
      keys fields ++ (keys entries).filter (· ∉ keys fields) := by
  induction entries generalizing fields with
  | nil => simp [keys]
  | cons e rest ih =>
    obtain ⟨k, v⟩ := e
    obtain ⟨hk, hrest⟩ : k ∉ keys rest ∧ (keys rest).Nodup := List.nodup_cons.mp h
    have hcons : keys ((k, v) :: rest) = k :: keys rest := rfl
    rw [List.foldl_cons, ih hrest, keys_set, hcons, List.filter_cons]
    by_cases hmem : k ∈ keys fields
    · simp [hmem]
    · have hsame : (keys rest).filter (· ∉ keys fields ++ [k]) =
          (keys rest).filter (· ∉ keys fields) := by
        apply List.filter_congr
        intro l hl
        have hne : l ≠ k := by
          rintro rfl
          exact hk hl
        simp [hne]
      simp only [hmem, if_false, hsame]
      simp

end Stratagem.Fields
