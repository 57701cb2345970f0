import Mathlib.Data.List.Forall2
import Mathlib.Data.List.Perm.Basic
import Mathlib.Data.List.TakeWhile

/-! Lists: lists that are related element by element, the run that a list starts with, pieces and
entries of lists, and greatest elements. -/

namespace Stratagem

variable {α β γ : Type}

/-! ## Lists related element by element -/

section

variable {R : α → β → Prop} {Q : β → Prop} {xs : List α} {ys : List β}

theorem exists_forall₂ (h : ∀ x ∈ xs, ∃ y, R x y) : ∃ ys, List.Forall₂ R xs ys := by
  induction xs with
  | nil => exact ⟨[], .nil⟩
  | cons x rest ih =>
    obtain ⟨⟨y, hy⟩, hrest⟩ := List.forall_mem_cons.mp h
    obtain ⟨ys, hys⟩ := ih hrest
    exact ⟨y :: ys, .cons hy hys⟩

theorem exists_of_forall₂ (h : List.Forall₂ R xs ys) {x : α} (hx : x ∈ xs) : ∃ y ∈ ys, R x y := by
  induction h with
  | nil => cases hx
  | cons hxy _ ih =>
    rcases List.mem_cons.mp hx with rfl | hx
    · exact ⟨_, List.mem_cons_self, hxy⟩
    · obtain ⟨y, hy, hr⟩ := ih hx
      exact ⟨y, List.mem_cons_of_mem _ hy, hr⟩

theorem forall_of_forall₂ (h : List.Forall₂ R xs ys) (himp : ∀ x y, R x y → Q y) :
    ∀ y ∈ ys, Q y := by
  induction h with
  | nil => simp
  | cons hxy _ ih => simpa using ⟨himp _ _ hxy, ih⟩

theorem forall₂_and_right (h : List.Forall₂ R xs ys) (hq : ∀ y ∈ ys, Q y) :
    List.Forall₂ (fun x y => R x y ∧ Q y) xs ys := by
  induction h with
  | nil => exact .nil
  | cons hxy _ ih =>
    rw [List.forall_mem_cons] at hq
    exact .cons ⟨hxy, hq.1⟩ (ih hq.2)

theorem forall₂_pair {x y : α} (h : List.Forall₂ R [x, y] ys) :
    ∃ p q, R x p ∧ R y q ∧ ys = [p, q] := by
  simpa [List.forall₂_cons_left_iff] using h

theorem forall₂_triple {x y z : α} (h : List.Forall₂ R [x, y, z] ys) :
    ∃ p q r, R x p ∧ R y q ∧ R z r ∧ ys = [p, q, r] := by
  obtain ⟨p, rest, hp, hrest, rfl⟩ := List.forall₂_cons_left_iff.mp h
  obtain ⟨q, r, hq, hr, rfl⟩ := forall₂_pair hrest
  exact ⟨p, q, r, hp, hq, hr, rfl⟩

theorem map_eq_of_forall₂ {f : α → γ} {g : β → γ} (h : List.Forall₂ (fun x y => g y = f x) xs ys) :
    ys.map g = xs.map f := by
  induction h with
  | nil => rfl
  | cons hxy _ ih => rw [List.map_cons, List.map_cons, hxy, ih]

/-- The first elements that pass tests are related when the tests agree on related elements. -/
theorem find?_rel {p : α → Bool} {p' : β → Bool} (h : List.Forall₂ R xs ys)
    (hp : ∀ x y, R x y → p x = p' y) : Option.Rel R (xs.find? p) (ys.find? p') := by
  induction h with
  | nil => exact .none
  | @cons x y xs ys hxy _ ih =>
    rw [List.find?_cons, List.find?_cons, ← hp x y hxy]
    cases p x with
    | true => exact .some hxy
    | false => exact ih

end

/-! ## The run that a list starts with -/

section

variable {p : α → Bool} {xs ys : List α}

theorem takeWhile_ne_nil (h : xs.head?.any p = true) : xs.takeWhile p ≠ [] := by
  cases xs with
  | nil => simp at h
  | cons x rest =>
    have hx : p x = true := by simpa using h
    simp [hx]

/-- What a run is followed by does not go on with it. -/
theorem head?_dropWhile_any (p : α → Bool) (xs : List α) :
    (xs.dropWhile p).head?.any p = false := by
  have h := List.head?_dropWhile_not p xs
  cases hhead : (xs.dropWhile p).head? with
  | none => rfl
  | some x => simpa [hhead] using h

theorem takeWhile_append_of_head? (hx : ∀ x ∈ xs, p x = true) (hy : ys.head?.any p = false) :
    (xs ++ ys).takeWhile p = xs ∧ (xs ++ ys).dropWhile p = ys := by
  rw [List.takeWhile_append_of_pos hx, List.dropWhile_append_of_pos hx]
  cases ys with
  | nil => simp
  | cons y rest =>
    have hy : p y = false := by simpa using hy
    simp [hy]

end

/-! ## Pieces, entries and greatest elements -/

/-- A word does not reach across what it does not hold. -/
theorem infix_of_infix_append_cons {word xs ys : List α} {b : α} (h : word <:+: xs ++ b :: ys)
    (hb : b ∉ word) : word <:+: xs ∨ word <:+: ys := by
  have hstart {w : List α} (hw : w <+: b :: ys) (hbw : b ∉ w) : w = [] := by
    rcases List.prefix_cons_iff.mp hw with rfl | ⟨t, rfl, -⟩
    · rfl
    · exact absurd List.mem_cons_self hbw
  rcases List.infix_append_iff.mp h with h | h | ⟨s, t, rfl, hs, ht⟩
  · exact .inl h
  · rcases List.infix_cons_iff.mp h with h | h
    · rw [hstart h hb]
      exact .inl List.nil_infix
    · exact .inr h
  · rw [hstart ht fun hmem => hb (List.mem_append_right _ hmem), List.append_nil]
    exact .inl hs.isInfix

theorem mem_of_lookup {entries : List (String × α)} {key : String} {a : α}
    (h : entries.lookup key = some a) : (key, a) ∈ entries := by
  obtain ⟨before, after, hsplit, -⟩ := List.lookup_eq_some_iff.mp h
  simp [hsplit]

theorem eraseDups_of_nodup {xs : List String} (h : xs.Nodup) : xs.eraseDups = xs := by
  induction xs with
  | nil => rfl
  | cons x rest ih =>
    obtain ⟨hnew, hrest⟩ := List.nodup_cons.mp h
    have hkept : rest.filter (fun y => !y == x) = rest := by
      rw [List.filter_eq_self]
      intro y hy
      have hne : y ≠ x := fun heq => hnew (heq ▸ hy)
      simp [hne]
    rw [List.eraseDups_cons, hkept, ih hrest]

theorem max?_perm {xs ys : List Int} (h : xs.Perm ys) : xs.max? = ys.max? := by
  ext m
  rw [List.max?_eq_some_iff, List.max?_eq_some_iff, h.mem_iff]
  simp only [h.mem_iff]

theorem le_foldl_max {xs : List Int} {w x : Int} (h : x = w ∨ x ∈ xs) : x ≤ xs.foldl max w := by
  induction xs generalizing w x with
  | nil => exact Int.le_of_eq (h.resolve_right (by simp))
  | cons y rest ih =>
    rw [List.foldl_cons]
    have hstart : max w y ≤ rest.foldl max (max w y) := ih (.inl rfl)
    rcases h with rfl | h
    · exact Int.le_trans (Int.le_max_left x y) hstart
    · rcases List.mem_cons.mp h with rfl | h
      · exact Int.le_trans (Int.le_max_right w x) hstart
      · exact ih (.inr h)

end Stratagem
