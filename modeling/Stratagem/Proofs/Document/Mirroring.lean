import Stratagem.Mirror

/-! The mirror policy of a document. It replaces one side by the mirror of the other and touches
nothing else; as the source stays, a second application derives the same side again. -/

namespace Stratagem

namespace Document

/-! ## Replacing a side -/

@[simp] theorem signal_withSignal (d : Document) (direction : Direction) (s : SignalConfig) :
    (d.withSignal direction s).signal direction = some s := by
  cases direction <;> rfl

@[simp] theorem signal_withSignal_opposite (d : Document) (direction : Direction)
    (s : SignalConfig) :
    (d.withSignal direction.opposite s).signal direction = d.signal direction := by
  cases direction <;> rfl

@[simp] theorem mirror_withSignal (d : Document) (direction : Direction) (s : SignalConfig) :
    (d.withSignal direction s).mirror = d.mirror := by
  cases direction <;> rfl

@[simp] theorem withSignal_withSignal (d : Document) (direction : Direction) (s t : SignalConfig) :
    (d.withSignal direction s).withSignal direction t = d.withSignal direction t := by
  cases direction <;> rfl

/-- Besides the two sides nothing changes. -/
theorem withSignal_frame (d : Document) (direction : Direction) (s : SignalConfig) :
    d.withSignal direction s =
      { d with
        long := (d.withSignal direction s).long
        short := (d.withSignal direction s).short } := by
  cases direction <;> rfl

/-- Documents that differ in their sides at most are the same if these are. -/
theorem ext_signal {d e : Document} (hrest : e = { d with long := e.long, short := e.short })
    (direction : Direction) (hside : e.signal direction = d.signal direction)
    (hother : e.signal direction.opposite = d.signal direction.opposite) : e = d := by
  obtain ⟨_, _, _, _, _, _, _, _, _⟩ := d
  obtain ⟨_, _, _, _, _, _, _, _, _⟩ := e
  cases hrest
  cases direction <;> cases hside <;> cases hother <;> rfl

/-! ## Applying the policy -/

variable {d : Document} {m : MirrorConfig}

theorem applyMirror_of_idle (h : ∀ m, d.mirror = some m → m.enabled = false) :
    d.applyMirror = .ok d := by
  unfold applyMirror
  split
  · rfl
  · next m hm => simp [h m hm]

theorem applyMirror_of_enabled (hm : d.mirror = some m) (hon : m.enabled = true) :
    d.applyMirror = (d.signal m.source).elim (.error ⟨m.source⟩) fun s =>
      .ok (d.withSignal m.source.opposite (s.mirror m.policy)) := by
  simp only [applyMirror, hm, hon, if_true]
  cases d.signal m.source <;> rfl

/-- Either nothing was asked for, or the side opposite to the source is now its mirror. -/
theorem applyMirror_eq_ok {out : Document} (h : d.applyMirror = .ok out) :
    out = d ∨ ∃ m s, d.mirror = some m ∧ m.enabled = true ∧ d.signal m.source = some s ∧
      out = d.withSignal m.source.opposite (s.mirror m.policy) := by
  unfold applyMirror at h
  split at h
  · cases h
    exact .inl rfl
  · next m hm =>
    split at h
    · next hon =>
      split at h
      · cases h
      · next s hs =>
        cases h
        exact .inr ⟨m, s, hm, hon, hs, rfl⟩
    · cases h
      exact .inl rfl

/-- The policy touches the two sides only. -/
theorem applyMirror_frame {out : Document} (h : d.applyMirror = .ok out) :
    out = { d with long := out.long, short := out.short } := by
  rcases applyMirror_eq_ok h with rfl | ⟨m, s, -, -, -, rfl⟩
  · rfl
  · exact withSignal_frame d _ _

/-- What is derived is derived from the untouched source, so it is derived again. -/
theorem applyMirror_applyMirror (d : Document) :
    (d.applyMirror >>= applyMirror) = d.applyMirror := by
  cases h : d.applyMirror with
  | error reason => rfl
  | ok out =>
    show out.applyMirror = .ok out
    rcases applyMirror_eq_ok h with rfl | ⟨m, s, hm, hon, hs, rfl⟩
    · exact h
    · rw [applyMirror_of_enabled (m := m) (by simpa using hm) hon]
      simp [hs]

end Document

end Stratagem
