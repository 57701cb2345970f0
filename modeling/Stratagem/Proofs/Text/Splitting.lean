import Stratagem.Text.Blank

/-! Cutting a list at its elements of some kind: the parts are those of the list without these
elements. -/

namespace Stratagem.Text

variable {α : Type}

theorem splitWhere_eq_splitOnP (p : α → Bool) (xs : List α) :
    splitWhere p xs = xs.splitOnP p := by
  induction xs with
  | nil => rfl
  | cons x xs ih =>
    rw [splitWhere, List.foldr_cons, List.splitOnP_cons_eq_if_modifyHead, ← ih]
    cases p x with
    | true => rfl
    | false =>
      -- There is a first part for the element to go into.
      have hparts : splitWhere p xs ≠ [] := ih ▸ List.splitOnP_ne_nil p xs
      obtain ⟨part, rest, hsplit⟩ := List.exists_cons_of_ne_nil hparts
      rw [hsplit]
      rw [splitWhere] at hsplit
      rw [hsplit]
      rfl

theorem of_mem_splitOnP {p : α → Bool} {xs part : List α} (h : part ∈ xs.splitOnP p) :
    ∀ x ∈ part, x ∈ xs ∧ p x = false := by
  induction xs generalizing part with
  | nil =>
    obtain rfl : part = [] := by simpa using h
    simp
  | cons y ys ih =>
    rw [List.splitOnP_cons_eq_if_modifyHead] at h
    have hparts : ∀ part ∈ ys.splitOnP p, ∀ x ∈ part, x ∈ y :: ys ∧ p x = false :=
      fun part hpart x hx => ⟨List.mem_cons_of_mem y (ih hpart x hx).1, (ih hpart x hx).2⟩
    split at h
    · rcases List.mem_cons.mp h with rfl | h
      · simp
      · exact hparts part h
    · next hy =>
      obtain ⟨first, rest, hsplit⟩ := List.exists_cons_of_ne_nil (List.splitOnP_ne_nil p ys)
      rw [hsplit] at h hparts
      rcases List.mem_cons.mp h with rfl | h
      · exact List.forall_mem_cons.mpr
          ⟨⟨List.mem_cons_self, by simpa using hy⟩, hparts first List.mem_cons_self⟩
      · exact hparts part (List.mem_cons_of_mem first h)

theorem splitOnP_congr {p q : α → Bool} {xs : List α} (h : ∀ x ∈ xs, p x = q x) :
    xs.splitOnP p = xs.splitOnP q := by
  induction xs with
  | nil => rfl
  | cons x xs ih =>
    obtain ⟨hx, hxs⟩ := List.forall_mem_cons.mp h
    rw [List.splitOnP_cons_eq_if_modifyHead, List.splitOnP_cons_eq_if_modifyHead, hx, ih hxs]

end Stratagem.Text
