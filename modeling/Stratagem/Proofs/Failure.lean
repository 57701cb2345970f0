import Stratagem.Proofs.Lists

/-! Results that may fail: what a success says of the steps before it, which reasons a failure can
have, and on which condition the success of some steps hinges. -/

namespace Stratagem

variable {ε ε' α β : Type} {x : Except ε α} {f : α → Except ε β} {b : β}

theorem exists_of_bind_ok (h : (x >>= f) = .ok b) : ∃ a, x = .ok a ∧ f a = .ok b := by
  cases x with
  | error reason => cases h
  | ok a => exact ⟨a, rfl, h⟩

theorem bind_eq_ok_iff : (x >>= f) = .ok b ↔ ∃ a, x = .ok a ∧ f a = .ok b := by
  refine ⟨exists_of_bind_ok, ?_⟩
  rintro ⟨a, rfl, h⟩
  exact h

theorem bind_eq_error {reason : ε} (h : (x >>= f) = .error reason) :
    x = .error reason ∨ ∃ a, x = .ok a ∧ f a = .error reason := by
  cases x with
  | error reason' =>
    cases h
    exact .inl rfl
  | ok a => exact .inr ⟨a, rfl, h⟩

theorem map_eq_ok {f : α → β} (h : x.map f = .ok b) : ∃ a, x = .ok a ∧ f a = b := by
  cases x with
  | error reason => cases h
  | ok a => exact ⟨a, rfl, Except.ok.inj h⟩

theorem mapError_eq_error {f : ε → ε'} {reason' : ε'} (h : x.mapError f = .error reason') :
    ∃ reason, x = .error reason ∧ f reason = reason' := by
  cases x with
  | error reason =>
    cases h
    exact ⟨reason, rfl, rfl⟩
  | ok a => cases h

theorem ok_of_mapError_ok {f : ε → ε'} {a : α} (h : x.mapError f = .ok a) : x = .ok a := by
  cases x with
  | error reason => cases h
  | ok b =>
    cases h
    rfl

theorem toOption_eq_some {a : α} (h : x.toOption = some a) : x = .ok a := by
  cases x with
  | error reason => cases h
  | ok b => rw [Option.some.inj h]

theorem mapM_eq_ok_iff (f : α → Except ε β) (xs : List α) (ys : List β) :
    xs.mapM f = .ok ys ↔ List.Forall₂ (fun x y => f x = .ok y) xs ys := by
  induction xs generalizing ys with
  | nil => cases ys <;> simp [pure, Except.pure]
  | cons x xs ih =>
    rw [List.mapM_cons]
    cases hx : f x with
    | error reason => cases ys <;> simp [bind, Except.bind, hx]
    | ok y =>
      cases hxs : xs.mapM f with
      | error reason =>
        have hno := fun zs => (ih zs).not.mp (by simp [hxs])
        cases ys <;> simp [bind, Except.bind, hx, hno]
      | ok zs =>
        have hzs := ih
        simp only [hxs, Except.ok.injEq] at hzs
        cases ys <;> simp [bind, Except.bind, pure, Except.pure, hx, ← hzs]

theorem mapM_ok {g : α → β} {xs : List α} (h : ∀ x ∈ xs, f x = .ok (g x)) :
    xs.mapM f = .ok (xs.map g) :=
  (mapM_eq_ok_iff f xs _).mpr (List.forall₂_map_right_iff.mpr (List.forall₂_same.mpr h))

theorem mapM_eq_error {xs : List α} {reason : ε} (h : xs.mapM f = .error reason) :
    ∃ x ∈ xs, f x = .error reason := by
  induction xs with
  | nil => cases h
  | cons x xs ih =>
    rw [List.mapM_cons] at h
    rcases bind_eq_error h with hx | ⟨y, -, h⟩
    · exact ⟨x, List.mem_cons_self, hx⟩
    · rcases bind_eq_error h with hxs | ⟨ys, -, h⟩
      · obtain ⟨x', hx', hreason⟩ := ih hxs
        exact ⟨x', List.mem_cons_of_mem _ hx', hreason⟩
      · cases h

/-- All reasons for which a result may fail have a property. -/
def FailsOnly (P : ε → Prop) (x : Except ε α) : Prop := ∀ reason, x = .error reason → P reason

namespace FailsOnly

variable {P : ε → Prop} {x : Except ε α}

theorem ok (a : α) : FailsOnly P (.ok a : Except ε α) := by
  intro reason h
  cases h

theorem error {reason : ε} (h : P reason) : FailsOnly P (.error reason : Except ε α) := by
  intro reason' heq
  cases heq
  exact h

theorem imp {Q : ε → Prop} (hx : FailsOnly P x) (h : ∀ reason, P reason → Q reason) :
    FailsOnly Q x := fun reason hreason => h reason (hx reason hreason)

/-- A step may use that the one before has succeeded. -/
theorem bind {f : α → Except ε β} (hx : FailsOnly P x)
    (hf : ∀ a, x = .ok a → FailsOnly P (f a)) : FailsOnly P (x >>= f) := by
  cases x with
  | error reason => exact .error (hx reason rfl)
  | ok a => exact hf a rfl

theorem map {f : α → β} (hx : FailsOnly P x) : FailsOnly P (x.map f) := by
  cases x with
  | error reason => exact .error (hx reason rfl)
  | ok a => exact .ok (f a)

theorem mapError {Q : ε' → Prop} {f : ε → ε'} (hx : FailsOnly (fun reason => Q (f reason)) x) :
    FailsOnly Q (x.mapError f) := by
  cases x with
  | error reason => exact .error (hx reason rfl)
  | ok a => exact .ok a

end FailsOnly

/-- A result hinges on a condition: it is there only if that holds, and if it holds no failure is to
be blamed on it. -/
structure HingesOn (Blames : ε → Prop) (C : Prop) (x : Except ε α) : Prop where
  needed : ∀ a, x = .ok a → C
  enough : C → FailsOnly (fun reason => ¬ Blames reason) x

namespace HingesOn

variable {Blames : ε → Prop} {C D : Prop} {x : Except ε α}

theorem ok (a : α) : HingesOn Blames True (.ok a : Except ε α) :=
  ⟨fun _ _ => trivial, fun _ => .ok a⟩

theorem of_failsOnly (h : FailsOnly (fun reason => ¬ Blames reason) x) : HingesOn Blames True x :=
  ⟨fun _ _ => trivial, fun _ => h⟩

theorem congr (hx : HingesOn Blames C x) (h : C ↔ D) : HingesOn Blames D x :=
  ⟨fun a ha => h.mp (hx.needed a ha), fun hd => hx.enough (h.mpr hd)⟩

/-- Steps that hinge on conditions hinge on all of them together. -/
theorem bind {f : α → Except ε β} (hx : HingesOn Blames C x)
    (hf : ∀ a, x = .ok a → HingesOn Blames D (f a)) : HingesOn Blames (C ∧ D) (x >>= f) := by
  refine ⟨fun b hb => ?_, fun ⟨hc, hd⟩ => (hx.enough hc).bind fun a ha => (hf a ha).enough hd⟩
  obtain ⟨a, ha, hb⟩ := exists_of_bind_ok hb
  exact ⟨hx.needed a ha, (hf a ha).needed b hb⟩

theorem map {f : α → β} (hx : HingesOn Blames C x) : HingesOn Blames C (x.map f) := by
  refine ⟨fun b hb => ?_, fun hc => (hx.enough hc).map⟩
  cases x with
  | error reason => cases hb
  | ok a => exact hx.needed a rfl

theorem mapError {f : ε' → ε} {y : Except ε' α}
    (hy : HingesOn (fun reason => Blames (f reason)) C y) : HingesOn Blames C (y.mapError f) :=
  ⟨fun a ha => hy.needed a (ok_of_mapError_ok ha),
    fun hc => .mapError (Q := fun reason => ¬ Blames reason) (hy.enough hc)⟩

theorem mapM {f : α → Except ε β} {C : α → Prop} {as : List α}
    (h : ∀ a ∈ as, HingesOn Blames (C a) (f a)) :
    HingesOn Blames (∀ a ∈ as, C a) (as.mapM f) := by
  induction as with
  | nil => exact (ok []).congr (by simp)
  | cons a rest ih =>
    obtain ⟨ha, hrest⟩ := List.forall_mem_cons.mp h
    rw [List.mapM_cons]
    refine (ha.bind fun _ _ => (ih hrest).bind fun _ _ => ok _).congr ?_
    simp

end HingesOn

end Stratagem
