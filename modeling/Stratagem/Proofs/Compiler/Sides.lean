import Stratagem.Proofs.Compiler.Pipeline
import Stratagem.Proofs.Document.Mirroring

/-! The sides of a document. A compilation reports missing signals only of a side that has none.
Main statement: the mirror policy derives the one side from the other and leaves all else alone, and
since both sides are there afterwards, no signals are missing. -/

namespace Stratagem

variable {settings : Settings} {d : Document}

/-! ## Missing signals -/

theorem compileLeverage_eq_error {binding : Binding} {l : Option LeverageSettings}
    {e : CompileError} (h : compileLeverage settings binding l = .error e) :
    ∃ reason, e = .leverage reason := by
  unfold compileLeverage at h
  split at h
  · cases h
  · split at h
    · obtain ⟨reason, -, rfl⟩ := mapError_eq_error h
      exact ⟨reason, rfl⟩
    · cases h

/-- Only a direction without signals is reported as missing them. -/
theorem compileDocument_eq_signalsMissing {registry : Registry} {className : String}
    {mode : PositionMode} {direction : Direction}
    (h : compileDocument settings registry className d = .error (.signalsMissing mode direction)) :
    d.signal direction = none := by
  rcases compileDocument_eq_error h with hplan | hkind
  · rcases plan_eq_error hplan with ⟨_, hreason⟩ | ⟨binding, hsignals | hleverage⟩
    · cases hreason
    · obtain ⟨_, -, ⟨hnone, hmissing⟩ | ⟨_, -, _, -, _, _, -, hreason⟩⟩ :=
        emitSignals_eq_error hsignals
      · cases hmissing
        exact hnone
      · cases hreason
    · obtain ⟨_, hreason⟩ := compileLeverage_eq_error hleverage
      cases hreason
  · cases hkind

theorem generate_eq_signalsMissing {registry : Registry} {raw : Value} {name : Option String}
    {mode : PositionMode} {direction : Direction} (hd : authored settings.limits raw = .ok d)
    (h : generate settings registry raw name = .error (.signalsMissing mode direction)) :
    ∃ out, d.applyMirror = .ok out ∧ out.signal direction = none := by
  rcases bind_eq_error h with hname | ⟨className, -, h⟩
  · rcases bind_eq_error hname with hcheck | ⟨_, -, hpure⟩
    · obtain ⟨_, -, hreason⟩ := mapError_eq_error hcheck
      cases hreason
    · cases hpure
  have hprepare : prepare settings.limits raw = d.applyMirror.mapError .mirror := by
    rw [prepare, hd]
    rfl
  rw [hprepare] at h
  rcases bind_eq_error h with hmirror | ⟨out, hout, h⟩
  · obtain ⟨_, -, hreason⟩ := mapError_eq_error hmirror
    cases hreason
  · exact ⟨out, ok_of_mapError_ok hout, compileDocument_eq_signalsMissing h⟩

/-! ## The derived side -/

/-- `out` is `d` but for the side opposite to the source, whose trees are the mirrors of those of
the source. -/
structure Document.Derives (m : MirrorConfig) (d out : Document) : Prop where
  rest : out = { d with long := out.long, short := out.short }
  source : out.signal m.source = d.signal m.source
  target : ∃ s t, d.signal m.source = some s ∧ out.signal m.source.opposite = some t ∧
    t.entry = s.entry.mirror ⟨m.invertComparisons, m.invertCrossovers⟩ ∧
    t.exit = s.exit.mirror ⟨m.invertComparisons, m.invertCrossovers⟩

theorem Document.derives_iff {m : MirrorConfig} {out : Document} :
    d.Derives m out ↔ ∃ s, d.signal m.source = some s ∧
      out = d.withSignal m.source.opposite (s.mirror m.policy) := by
  constructor
  · rintro ⟨hrest, hsource, s, ⟨entry, exit⟩, hs, ht, rfl, rfl⟩
    refine ⟨s, hs, Document.ext_signal ?_ m.source ?_ ?_⟩
    · generalize m.source.opposite = direction
      cases direction <;> exact hrest
    · simp [hsource]
    · simp [ht, SignalConfig.mirror, MirrorConfig.policy]
  · rintro ⟨s, hs, rfl⟩
    exact ⟨d.withSignal_frame _ _, by simp, s, _, hs, d.signal_withSignal _ _, rfl, rfl⟩

theorem Direction.eq_or_eq_opposite (a b : Direction) : b = a ∨ b = a.opposite := by
  cases a <;> cases b <;> decide

theorem Document.Derives.isSome_signal {m : MirrorConfig} {out : Document} (h : d.Derives m out)
    (direction : Direction) : (out.signal direction).isSome = true := by
  obtain ⟨-, hsource, s, t, hs, ht, -⟩ := h
  rcases Direction.eq_or_eq_opposite m.source direction with rfl | rfl
  · rw [hsource, hs]
    rfl
  · rw [ht]
    rfl

/-- Without an enabled policy a document stays as it is. With one, the source must have signals, and
that is all that can be wrong; then the opposite side becomes the mirror of the source, whatever
stood there, and nothing else changes. Applying the policy again changes nothing, and with both
sides in place no compilation misses signals. -/
theorem Document.applyMirror_derives (d : Document) :
    ((∀ m, d.mirror = some m → m.enabled = false) → d.applyMirror = .ok d) ∧
    (∀ m, d.mirror = some m → m.enabled = true →
      (∀ e, d.applyMirror = .error e ↔ d.signal m.source = none ∧ e = ⟨m.source⟩) ∧
      (CompileError.mirror ⟨m.source⟩).kind = .schema ∧
      (∀ out, d.applyMirror = .ok out ↔ d.Derives m out) ∧
      (∀ out, d.applyMirror = .ok out →
        (∀ direction, (out.signal direction).isSome = true) ∧
        ∀ settings registry className mode direction,
          compileDocument settings registry className out ≠
            .error (.signalsMissing mode direction)) ∧
      ∀ settings registry raw name mode direction, authored settings.limits raw = .ok d →
        generate settings registry raw name ≠ .error (.signalsMissing mode direction)) ∧
    (d.applyMirror >>= Document.applyMirror) = d.applyMirror := by
  refine ⟨Document.applyMirror_of_idle, fun m hm hon => ?_, d.applyMirror_applyMirror⟩
  have happly := Document.applyMirror_of_enabled hm hon
  have hok : ∀ out, d.applyMirror = .ok out ↔ d.Derives m out := by
    intro out
    rw [happly, Document.derives_iff]
    cases d.signal m.source with
    | none => simp
    | some s => simp [eq_comm]
  have hboth : ∀ out, d.applyMirror = .ok out → ∀ direction, (out.signal direction).isSome = true :=
    fun out hout => ((hok out).mp hout).isSome_signal
  refine ⟨fun e => ?_, rfl, hok, fun out hout => ⟨hboth out hout, ?_⟩, ?_⟩
  · rw [happly]
    cases d.signal m.source with
    | none => simp [eq_comm]
    | some s => simp
  · intro settings registry className mode direction hmissing
    have hsome := hboth out hout direction
    rw [compileDocument_eq_signalsMissing hmissing] at hsome
    cases hsome
  · intro settings registry raw name mode direction hd hmissing
    obtain ⟨out, hout, hnone⟩ := generate_eq_signalsMissing hd hmissing
    have hsome := hboth out hout direction
    rw [hnone] at hsome
    cases hsome

/-- A document that trades both ways and has the short side alone, on which it mirrors. -/
def shortSourceRaw : Value :=
  let close : Value := .object [("type", .text "PRICE"), ("field", .text "close")]
  let open_ : Value := .object [("type", .text "PRICE"), ("field", .text "open")]
  .object [("version", .int 2), ("position_mode", .text "LONG_AND_SHORT"),
    ("short", .object [
      ("entry_conditions", .object [("type", .text "CROSSUNDER"), ("series1", close),
        ("series2", open_)]),
      ("exit_conditions", .object [("type", .text "COMPARE"), ("left", close),
        ("operator", .text "gte"), ("right", open_)])]),
    ("mirror", .object [("enabled", .bool true), ("source", .text "SHORT")])]

theorem authored_shortSourceRaw : ∃ d s, authored {} shortSourceRaw = .ok d ∧
    d.mirror = some ⟨true, .short, true, true⟩ ∧ d.long = none ∧ d.short = some s := by
  exact ⟨_, _, by with_unfolding_all rfl, rfl, rfl, rfl⟩

theorem shortSource_derives : ∃ d m out,
    authored {} shortSourceRaw = .ok d ∧ d.mirror = some m ∧ m.enabled = true ∧ d.long = none ∧
    d.applyMirror = .ok out ∧ d.Derives m out ∧ out.applyMirror = .ok out ∧
    ∀ registry mode direction, generate {} registry shortSourceRaw (some "Short") ≠
      .error (.signalsMissing mode direction) := by
  obtain ⟨d, s, hd, hm, hlong, hshort⟩ := authored_shortSourceRaw
  obtain ⟨-, happlied, hagain⟩ := d.applyMirror_derives
  obtain ⟨-, -, hok, -, hsignals⟩ := happlied _ hm rfl
  have hderives := Document.derives_iff (m := ⟨true, .short, true, true⟩).mpr ⟨s, hshort, rfl⟩
  have hout := (hok _).mpr hderives
  rw [hout] at hagain
  exact ⟨d, _, _, hd, hm, rfl, hlong, hout, hderives, hagain,
    fun registry mode direction => hsignals {} registry _ _ mode direction hd⟩

end Stratagem
