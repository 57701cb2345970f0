import Stratagem.Proofs.Compiler.SingleLines

/-! The startup count that a module computes. It is no less than the warm-up of each indicator that
the signals read, than the offset of each price and indicator in their trees, and than the candles
that the leverage routine asks for. It is the greatest of these numbers and not a sum: an indicator
that is read some candles back may need more history than the count gives it. -/

namespace Stratagem

open StrategyModule

variable {p : Plan} {settings : Settings} {registry : Registry} {d : Document} {c : Condition}

theorem Binding.warmup_le {b : Binding} {i : BoundIndicator} (h : i ∈ b.indicators) :
    i.warmup ≤ b.warmup := by
  have hmem : i.warmup ∈ b.indicators.map BoundIndicator.warmup := List.mem_map_of_mem h
  unfold Binding.warmup
  split
  · next hnil =>
    rw [hnil] at hmem
    cases hmem
  · next w rest hcons =>
    rw [hcons] at hmem
    exact le_foldl_max (List.mem_cons.mp hmem)

/-! ## The count -/

theorem Plan.warmup_le_startup (p : Plan) : p.binding.warmup ≤ p.startup :=
  le_trans (le_max_left ..) (le_max_left ..)

theorem Plan.lookback_le_startup (p : Plan) : (p.tally.lookback : Int) ≤ p.startup :=
  le_trans (le_max_right ..) (le_max_left ..)

theorem Plan.minCandles_le_startup {r : Routine} (h : p.routine = some r) :
    (r.minCandles : Int) ≤ p.startup := by
  have hle : (((p.routine.map Routine.minCandles).getD 0 : Nat) : Int) ≤ p.startup :=
    le_max_right ..
  rwa [h] at hle

/-- The offsets in the trees of the signals stay within the count. -/
theorem offset_le_startup (h : plan settings registry d = .ok p) (hc : c ∈ d.tradedTrees) {n : Node}
    (hn : n ∈ c.preorder) {offset : Nat} (hoffset : n.offset? = some offset) :
    (offset : Int) ≤ p.startup := by
  obtain ⟨-, hsignals, -⟩ := plan_eq_ok h
  have hrecords := emitSignals_records hsignals
  have hreach := hrecords.reaches n (List.mem_flatMap.mpr ⟨c, hc, hn⟩) offset hoffset
  exact le_trans (Int.ofNat_le.mpr hreach) p.lookback_le_startup

/-- Every indicator in the trees of the signals is bound, and its warm-up stays within the count. -/
theorem warmup_le_startup (h : plan settings registry d = .ok p) (hc : c ∈ d.tradedTrees)
    {id : String} {field : Option String} {offset : Nat}
    (hn : .operand (.indicator id field offset) ∈ c.preorder) :
    ∃ i, p.binding.find? id = some i ∧ i.warmup ≤ p.startup := by
  obtain ⟨-, hsignals, -⟩ := plan_eq_ok h
  have hrecords := emitSignals_records hsignals
  have hdeclared := hrecords.declared id field offset (List.mem_flatMap.mpr ⟨c, hc, hn⟩)
  obtain ⟨i, hi⟩ := Option.isSome_iff_exists.mp hdeclared
  exact ⟨i, hi, le_trans (Binding.warmup_le (List.mem_of_find?_eq_some hi)) p.warmup_le_startup⟩

/-! ## The line -/

def startupLine (count : Int) : String := "    startup_candle_count = " ++ intText count

/-- A count that the parameters leave open is the one of the plan, and stands on its line. -/
theorem startupLine_mem {className : String} {g : Generated}
    (h : compileDocument settings registry className d = .ok g)
    (hopen : d.parameters.startupCandleCount = none) :
    ∃ p, plan settings registry d = .ok p ∧ startupLine p.startup ∈ Text.lines g.code := by
  obtain ⟨p, m, hplan, hm, hattributes⟩ := compileDocument_attributes h
  have hcount : m.startupCandleCount = p.startup := by
    rw [hm.startupCandleCount, hopen]
    rfl
  have hprintable : Text.Printable (startupLine m.startupCandleCount) :=
    .append (Text.printable_literal (by decide)) (Text.printable_intText _)
  have hmem : startupLine m.startupCandleCount ∈ m.attributeTexts :=
    List.mem_append_right _ (List.mem_append_right _
      (List.mem_cons_of_mem _ (List.mem_cons_of_mem _ List.mem_cons_self)))
  have hinfix := hattributes _ ((List.singleton_infix_iff _ _).mpr hmem)
    (List.forall_mem_singleton.mpr hprintable)
  refine ⟨p, hplan, ?_⟩
  rw [← hcount]
  exact (List.singleton_infix_iff _ _).mp hinfix

/-- **The startup count covers warm-ups, offsets and the leverage routine.** It is at least the
offset of each price in an entry or exit tree of a traded direction, at least the warm-up and the
offset of each indicator there, and at least the candles that the leverage routine asks for. -/
theorem startup_covers {settings : Settings} {registry : Registry} {raw : Value}
    {name : Option String} {g : Generated} {d : Document}
    (h : generate settings registry raw name = .ok g) (hd : prepare settings.limits raw = .ok d)
    (hopen : d.parameters.startupCandleCount = none) :
    ∃ b count, registry.bind d.indicators = .ok b ∧ startupLine count ∈ Text.lines g.code ∧
      (∀ c ∈ d.tradedTrees, ∀ field (offset : Nat),
        .operand (.price field offset) ∈ c.preorder → offset ≤ count) ∧
      (∀ c ∈ d.tradedTrees, ∀ id field (offset : Nat),
        .operand (.indicator id field offset) ∈ c.preorder →
          ∃ i, b.find? id = some i ∧ max i.warmup offset ≤ count) ∧
      ∀ l, d.leverage = some l → l.enabled = true → ∃ r,
        Leverage.compile b settings.leverage settings.limits.maxDepth l = .ok r ∧
          (r.minCandles : Int) ≤ count := by
  obtain ⟨className, d', -, hd', hcompile⟩ := generate_eq_ok_iff.mp h
  obtain rfl : d' = d := Except.ok.inj (hd'.symm.trans hd)
  obtain ⟨p, hplan, hline⟩ := startupLine_mem hcompile hopen
  obtain ⟨hbind, -, hleverage⟩ := plan_eq_ok hplan
  refine ⟨p.binding, p.startup, hbind, hline, ?_, ?_, ?_⟩
  · intro c hc field offset hn
    exact offset_le_startup hplan hc hn rfl
  · intro c hc id field offset hn
    obtain ⟨i, hi, hwarmup⟩ := warmup_le_startup hplan hc hn
    exact ⟨i, hi, max_le hwarmup (offset_le_startup hplan hc hn rfl)⟩
  · intro l hl henabled
    rw [hl] at hleverage
    obtain ⟨r, hr, hcompiled⟩ := compileLeverage_of_enabled henabled hleverage
    exact ⟨r, hcompiled, p.minCandles_le_startup hr⟩

/-! ## A sample -/

/-- Settings that do not check the written module. -/
def unchecked : Settings := { output := { validateSyntax := false } }

/-- A document that enters on a crossing, leaves on an indicator of five candles ago, looks at the
clock of a zone for its leverage and takes its returns after three minutes. -/
def momentumRaw : Value :=
  let strength (offset : Int) : Value :=
    .object [("type", .text "INDICATOR"), ("indicator_id", .text "r"), ("offset", .int offset)]
  let low : Value := .object [("type", .text "PRICE"), ("field", .text "low")]
  let number (n : Int) : Value := .object [("type", .text "CONSTANT"), ("value", .int n)]
  let above (left right : Value) : Value :=
    .object [("type", .text "COMPARE"), ("left", left), ("operator", .text "gt"), ("right", right)]
  let clock : Value :=
    .object [("type", .text "TIME"), ("field", .text "hour"), ("timezone", .text "Europe/Berlin")]
  .object [("version", .int 2),
    ("indicators", .list [
      .object [("id", .text "r"), ("type", .text "RSI"), ("params", .object [])]]),
    ("long", .object [
      ("entry_conditions",
        .object [("type", .text "CROSSOVER"), ("series1", strength 0), ("series2", low)]),
      ("exit_conditions", above (strength 5) (number 70))]),
    ("leverage", .object [("rules", .list [
      .object [("id", .text "x"), ("condition", above clock (number 8)), ("leverage",
        .object [("type", .text "EXPRESSION"), ("operand", number 2), ("max", .int 3)])]])]),
    ("parameters", .object [("minimal_roi", .object [("\u0663", .int 1)])])]

/-- Compares the strength of five candles ago. -/
def comparesDelayed : Condition → Bool
  | .compare _ (.indicator "r" none 5) _ _ => true
  | _ => false

theorem mem_of_comparesDelayed (h : comparesDelayed c = true) :
    .operand (.indicator "r" none 5) ∈ c.preorder := by
  unfold comparesDelayed at h
  split at h
  · simp [Condition.preorder, Operand.preorder]
  · cases h

/-- The sample compiles. Its indicator warms up for 14 candles, and so does the strategy. -/
theorem momentum_generates : ∃ d g p i, prepare unchecked.limits momentumRaw = .ok d ∧
    generate unchecked .builtin momentumRaw (some "Sample") = .ok g ∧
    plan unchecked .builtin d = .ok p ∧ p.binding.find? "r" = some i ∧
    (∃ c ∈ d.tradedTrees, comparesDelayed c = true) ∧
    d.parameters.startupCandleCount = none ∧ i.warmup = 14 ∧ p.startup = 14 ∧
    d.parameters.minimalRoi.map Prod.fst = ["\u0663"] := by
  have hsample : ((prepare unchecked.limits momentumRaw).toOption.any fun d =>
      d.tradedTrees.any comparesDelayed && d.parameters.startupCandleCount == none &&
      d.parameters.minimalRoi.map Prod.fst == ["\u0663"] &&
      (plan unchecked .builtin d).toOption.any fun p => p.startup == 14 &&
        ((p.binding.find? "r").any fun i => i.warmup == 14) &&
        (assemble unchecked "Sample" d p).toOption.any fun m => m.lines.toOption.isSome) =
      true := by decide +kernel
  obtain ⟨d, hd, hsample⟩ := (Option.any_eq_true _ _).mp hsample
  simp only [Bool.and_eq_true, beq_iff_eq, List.any_eq_true] at hsample
  obtain ⟨⟨⟨htree, hopen⟩, hkeys⟩, hplan⟩ := hsample
  obtain ⟨p, hp, hplan⟩ := (Option.any_eq_true _ _).mp hplan
  simp only [Bool.and_eq_true, beq_iff_eq] at hplan
  obtain ⟨⟨hstartup, hfind⟩, hmodule⟩ := hplan
  obtain ⟨i, hi, hwarmup⟩ := (Option.any_eq_true _ _).mp hfind
  obtain ⟨m, hm, hlines⟩ := (Option.any_eq_true _ _).mp hmodule
  obtain ⟨lines, hlines⟩ := Option.isSome_iff_exists.mp hlines
  have hprepare := toOption_eq_some hd
  have hwrite : writeModule unchecked m = .ok (unlines lines) :=
    writeModule_eq_ok_iff.mpr ⟨lines, toOption_eq_some hlines, rfl, nofun⟩
  have hcompile : compileDocument unchecked .builtin "Sample" d =
      .ok ⟨unlines lines, (p.routine.map Routine.warnings).getD []⟩ := by
    simp only [compileDocument, toOption_eq_some hp, toOption_eq_some hm, hwrite, bind, Except.bind,
      pure, Except.pure]
  exact ⟨d, _, p, i, hprepare, generate_eq_ok_iff.mpr ⟨"Sample", d, rfl, hprepare, hcompile⟩,
    toOption_eq_some hp, hi, htree, hopen, by simpa using hwarmup, hstartup, hkeys⟩

theorem momentum_startup_covers : ∃ d g, prepare unchecked.limits momentumRaw = .ok d ∧
    generate unchecked .builtin momentumRaw (some "Sample") = .ok g ∧
    d.parameters.startupCandleCount = none ∧ ∃ b count,
      Registry.builtin.bind d.indicators = .ok b ∧ startupLine count ∈ Text.lines g.code ∧
      ∃ i, b.find? "r" = some i ∧ max i.warmup 5 ≤ count := by
  obtain ⟨d, g, p, i, hprepare, hgenerate, -, -, ⟨c, hc, hdelayed⟩, hopen, -⟩ := momentum_generates
  obtain ⟨b, count, hbind, hline, -, hindicators, -⟩ :=
    startup_covers hgenerate hprepare hopen
  exact ⟨d, g, hprepare, hgenerate, hopen, b, count, hbind, hline,
    hindicators c hc "r" none 5 (mem_of_comparesDelayed hdelayed)⟩

/-- An indicator that is read five candles back: the count is its warm-up alone, and five candles
short of the history that the signal reads. -/
theorem startup_short_of_delayed_indicator : ∃ d g p i,
    prepare unchecked.limits momentumRaw = .ok d ∧
    generate unchecked .builtin momentumRaw (some "Sample") = .ok g ∧
    d.parameters.startupCandleCount = none ∧ plan unchecked .builtin d = .ok p ∧
    (∃ c ∈ d.tradedTrees, .operand (.indicator "r" none 5) ∈ c.preorder) ∧
    p.binding.find? "r" = some i ∧ startupLine p.startup ∈ Text.lines g.code ∧
    p.startup < i.warmup + 5 := by
  obtain ⟨d, g, p, i, hprepare, hgenerate, hplan, hi, ⟨c, hc, hdelayed⟩, hopen, hwarmup, hstartup,
    -⟩ := momentum_generates
  obtain ⟨className, d', -, hd', hcompile⟩ := generate_eq_ok_iff.mp hgenerate
  obtain rfl : d' = d := Except.ok.inj (hd'.symm.trans hprepare)
  obtain ⟨p', hplan', hline⟩ := startupLine_mem hcompile hopen
  obtain rfl : p' = p := Except.ok.inj (hplan'.symm.trans hplan)
  refine ⟨d', g, p', i, hprepare, hgenerate, hopen, hplan,
    ⟨c, hc, mem_of_comparesDelayed hdelayed⟩, hi, hline, ?_⟩
  rw [hstartup, hwarmup]
  decide

end Stratagem
