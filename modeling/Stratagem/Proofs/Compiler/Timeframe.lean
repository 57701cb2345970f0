import Stratagem.Proofs.Compiler.Imports
import Stratagem.Proofs.Document.Unwrapping

/-! The time frame of a generated module. It is the first that is given by the builder document, by
the wrapper that this is stored in and by the settings, and nothing else of a wrapper reaches the
module. -/

namespace Stratagem

open Fields

variable {settings : Settings} {registry : Registry}

/-! ## The line -/

def timeframeLine (timeframe : String) : String := "    timeframe = " ++ Text.quoted timeframe

theorem isEmpty_of_isTimeframe {s : String} (h : isTimeframe s = true) : s.isEmpty = false := by
  cases hempty : s.isEmpty with
  | false => rfl
  | true =>
    obtain rfl := String.isEmpty_iff.mp hempty
    cases h

/-- A time frame that was read is not empty, and so it counts. -/
theorem timeframeOf_eq {parameters : Parameters}
    (h : ∀ s ∈ parameters.timeframe, isTimeframe s = true) :
    timeframeOf settings parameters =
      parameters.timeframe.getD settings.output.defaultTimeframe := by
  unfold timeframeOf
  cases htimeframe : parameters.timeframe with
  | none => rfl
  | some s => simp [Option.filter, isEmpty_of_isTimeframe (h s htimeframe)]

theorem assemble_timeframe {className : String} {d : Document} {p : Plan} {m : StrategyModule}
    (h : assemble settings className d p = .ok m) :
    m.timeframe = timeframeOf settings d.parameters := by
  obtain ⟨_, -, h⟩ := exists_of_bind_ok h
  obtain ⟨_, -, h⟩ := exists_of_bind_ok h
  cases h
  rfl

/-- The text of a compilation is that of a module with the time frame of the document, which stands
on its line. -/
theorem timeframeLine_mem {className : String} {d : Document} {g : Generated}
    (h : compileDocument settings registry className d = .ok g) :
    ∃ m : StrategyModule, m.render = .ok g.code ∧ m.timeframe = timeframeOf settings d.parameters ∧
      timeframeLine m.timeframe ∈ Text.lines g.code := by
  obtain ⟨p, m, method, -, hassemble, -, hlines, hcode, -⟩ := compileDocument_text h
  refine ⟨m, ?_, assemble_timeframe hassemble, ?_⟩
  · rw [StrategyModule.render, hlines, hcode]
    rfl
  · have hprintable : Text.Printable (timeframeLine m.timeframe) :=
      .append (Text.printable_literal (by decide)) (Text.printable_quoted _)
    have hmem : timeframeLine m.timeframe ∈ m.attributeTexts :=
      List.mem_append_left _ (List.mem_append_left _ List.mem_cons_self)
    have hall := List.mem_append_right m.header
      (List.mem_append_left method (List.mem_append_left m.tableMethods hmem))
    rw [hcode]
    exact (List.singleton_infix_iff _ _).mp (infix_lines_unlines
      ((List.singleton_infix_iff _ _).mpr hall) (List.forall_mem_singleton.mpr hprintable))

/-! ## Wrappers -/

/-- The first time frame that is not null: of a builder document, of its wrapper, or the default. -/
def firstTimeframe (builder wrapper : Fields) (default : String) : Value :=
  ((ownTimeframe? builder).or (present? wrapper (.text "timeframe"))).getD (.text default)

theorem generate_timeframe {name : Option String} {g : Generated} {w b : Fields}
    (hb : get? w (.text "ui_builder") = some (.object b))
    (h : generate settings registry (.object w) name = .ok g) :
    ∃ m : StrategyModule, m.render = .ok g.code ∧
      .text m.timeframe = firstTimeframe b w settings.output.defaultTimeframe ∧
      timeframeLine m.timeframe ∈ Text.lines g.code := by
  obtain ⟨className, d, -, hprepare, hcompile⟩ := generate_eq_ok_iff.mp h
  obtain ⟨fields, hunwrap, hfields⟩ := prepare_timeframe hprepare
  obtain ⟨m, hrender, htimeframe, hline⟩ := timeframeLine_mem hcompile
  refine ⟨m, hrender, ?_, hline⟩
  rw [firstTimeframe, ← ownTimeframe?_unwrap hb hunwrap hfields.mapping, hfields.own, htimeframe,
    timeframeOf_eq hfields.valid]
  cases d.parameters.timeframe with
  | none => rfl
  | some s => rfl

theorem generate_of_unwrap {raw raw' : Value}
    (hraw : (Extent.check settings.limits raw).isOk = true)
    (hraw' : (Extent.check settings.limits raw').isOk = true) (h : unwrap raw = unwrap raw')
    (name : Option String) :
    generate settings registry raw name = generate settings registry raw' name := by
  rw [generate, generate, prepare_of_unwrap hraw hraw' h]

/-- **A wrapper gives its builder document a time frame and nothing else.** Unwrapping gives back
the builder document. Only where the wrapper has a time frame that is not null, and the document has
a place for one with none in it, does the wrapper's go among the parameters. If both pass the size
guard, the wrapper and the document in it are prepared to the same document or refused for the same
reason. The module that is generated has the first time frame that is not null. Of two wrappers
around a document with the same time frame, both small enough, each gives what the other gives. -/
theorem wrapper_gives_timeframe_only {w b : Fields}
    (hb : get? w (.text "ui_builder") = some (.object b))
    (hplain : get? b (.text "ui_builder") = none) :
    ∃ out, unwrap (.object w) = .ok out ∧
      (∀ timeframe, present? w (.text "timeframe") = some timeframe → OpenTimeframe b →
        Carried timeframe b out) ∧
      (present? w (.text "timeframe") = none ∨ ¬ OpenTimeframe b → out = b) ∧
      (∀ limits, (Extent.check limits (.object w)).isOk = true →
        (Extent.check limits (.object out)).isOk = true →
        prepare limits (.object w) = prepare limits (.object out)) ∧
      (∀ settings registry name g, generate settings registry (.object w) name = .ok g →
        ∃ m : StrategyModule, m.render = .ok g.code ∧
          .text m.timeframe = firstTimeframe b w settings.output.defaultTimeframe ∧
          timeframeLine m.timeframe ∈ Text.lines g.code) ∧
      ∀ w' : Fields, get? w' (.text "ui_builder") = some (.object b) →
        present? w' (.text "timeframe") = present? w (.text "timeframe") →
        ∀ settings : Settings, (Extent.check settings.limits (.object w)).isOk = true →
          (Extent.check settings.limits (.object w')).isOk = true → ∀ registry name,
          generate settings registry (.object w') name =
            generate settings registry (.object w) name := by
  have hunwrap := unwrap_wrapper hb
  generalize hout : (present? w (.text "timeframe")).elim b (carryTimeframe · b) = out at hunwrap
  refine ⟨out, hunwrap, ?_, ?_, ?_, ?_, ?_⟩
  · intro timeframe htimeframe hopen
    rw [htimeframe] at hout
    exact hout ▸ carried_carryTimeframe timeframe hopen
  · intro hkept
    cases htimeframe : present? w (.text "timeframe") with
    | none => exact (htimeframe ▸ hout).symm
    | some timeframe =>
      rw [htimeframe] at hout hkept
      have hclosed := hkept.resolve_left nofun
      exact hout.symm.trans (carryTimeframe_of_not_open hclosed)
  · intro limits hw hdocument
    have hinner : get? out (.text "ui_builder") = none := by
      rw [← hplain, ← hout]
      cases present? w (.text "timeframe") with
      | none => rfl
      | some timeframe => exact get?_carryTimeframe (by decide)
    exact prepare_of_unwrap hw hdocument (hunwrap.trans (unwrap_of_plain hinner).symm)
  · intro settings registry name g h
    exact generate_timeframe hb h
  · intro w' hb' htimeframe settings hw hw' registry name
    refine generate_of_unwrap hw' hw ?_ name
    rw [unwrap_wrapper hb', unwrap_wrapper hb, htimeframe]

/-- A flat document that enters above a price, with some time frame among its parameters. -/
def entersAbove (timeframe : Value) : Fields :=
  let close : Value := .object [("type", .text "PRICE"), ("field", .text "close")]
  let ten : Value := .object [("type", .text "CONSTANT"), ("value", .int 10)]
  [("entry_conditions", .object [("type", .text "COMPARE"), ("left", close),
      ("operator", .text "gt"), ("right", ten)]),
    ("parameters", .object [("timeframe", timeframe), ("trailing_stop", .bool true)])]

/-- A wrapper whose document leaves the time frame open. -/
def hourlyWrapper : Fields :=
  [("exchange", .text "kraken"), ("timeframe", .text "1h"),
    ("ui_builder", .object (entersAbove .null))]

theorem hourly_generates : ∃ g,
    generate unchecked .builtin (.object hourlyWrapper) (some "Sample") = .ok g := by
  have hsample : ((prepare unchecked.limits (.object hourlyWrapper)).toOption.any fun d =>
      (moduleLines unchecked .builtin "Sample" d).isSome) = true := by
    decide +kernel
  obtain ⟨d, hd, hlines⟩ := (Option.any_eq_true _ _).mp hsample
  obtain ⟨lines, hlines⟩ := Option.isSome_iff_exists.mp hlines
  obtain ⟨g, hcompile, -⟩ := compileDocument_of_moduleLines hlines nofun
  exact ⟨g, generate_eq_ok_iff.mpr ⟨"Sample", d, rfl, toOption_eq_some hd, hcompile⟩⟩

/-- The null gives way to the hour of the wrapper, and the exchange is not looked at. -/
theorem hourly_wrapper_gives_timeframe :
    get? hourlyWrapper (.text "ui_builder") = some (.object (entersAbove .null)) ∧
    get? (entersAbove .null) (.text "ui_builder") = none ∧
    unwrap (.object hourlyWrapper) = .ok (entersAbove (.text "1h")) ∧
    Carried (.text "1h") (entersAbove .null) (entersAbove (.text "1h")) ∧
    prepare unchecked.limits (.object hourlyWrapper) =
      prepare unchecked.limits (.object (entersAbove (.text "1h"))) ∧
    ∃ g, generate unchecked .builtin (.object hourlyWrapper) (some "Sample") = .ok g ∧
      timeframeLine "1h" ∈ Text.lines g.code ∧
      generate unchecked .builtin (.object (hourlyWrapper.drop 1)) (some "Sample") = .ok g := by
  obtain ⟨g, hgenerate⟩ := hourly_generates
  obtain ⟨out, hunwrap, hcarried, -, hprepare, hmodule, hothers⟩ :=
    wrapper_gives_timeframe_only (w := hourlyWrapper) (b := entersAbove .null) rfl rfl
  obtain rfl : entersAbove (.text "1h") = out := Except.ok.inj hunwrap
  obtain ⟨m, -, htimeframe, hline⟩ := hmodule _ _ _ _ hgenerate
  have hhour : m.timeframe = "1h" := Value.text.inj htimeframe
  have hopen : OpenTimeframe (entersAbove .null) :=
    ⟨fun v hv => ⟨_, (Option.some.inj hv).symm⟩, rfl⟩
  have hguard : (Extent.check unchecked.limits (.object hourlyWrapper)).isOk = true := by
    decide +kernel
  refine ⟨rfl, rfl, hunwrap, hcarried _ rfl hopen, hprepare _ hguard (by decide +kernel), g,
    hgenerate, hhour ▸ hline, ?_⟩
  rw [← hgenerate]
  exact hothers (hourlyWrapper.drop 1) rfl rfl unchecked hguard (by decide +kernel) _ _

end Stratagem
