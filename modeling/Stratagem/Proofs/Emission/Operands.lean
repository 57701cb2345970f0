import Stratagem.Proofs.Emission.Arithmetic
import Stratagem.Proofs.Indicator.Columns

/-! The values of emitted operands. In series scope the code of an operand stands for its value at
every candle, from the candle on that its offsets reach back from; in leverage scope for its value
at the last candle, and the code one candle earlier for the value at the candle before. -/

namespace Stratagem

open Script

variable {o : Operand}

theorem Datum.number?_eq_some_iff (d : Datum) (q : ℚ) :
    d.number? = some q ↔ d.plain = .number q := by
  unfold Datum.number?
  cases d.plain <;> simp

theorem Datum.number?_congr {d d' : Datum} (h : d.plain = d'.plain) : d.number? = d'.number? := by
  rw [Datum.number?, Datum.number?, h]

/-- Operands that read the table or nothing at all. -/
def Operand.isReadable : Operand → Bool
  | .tradeContext _ | .external _ | .custom _ => false
  | _ => true

theorem Operand.hasNumber_computed (operation : Operation) (operands : List Operand) :
    (Operand.computed operation operands).hasNumber = operands.any Operand.hasNumber :=
  Operand.anyLeaf_computed ..

theorem Operand.number?_datum (hn : o.isNumeric = true) (hr : o.isReadable = true) (t : Table)
    (b : Binding) (i : Nat) : (o.datum t b i).number? = some (o.amount t b i) := by
  have hsome : (o.datum t b i).number?.isSome = true := by
    cases o with
    | constant value =>
      rcases value with (_ | _ | n | x | _) | _
      case scalar.int => rfl
      case scalar.float => rfl
      all_goals cases hn
    | time field zone => cases field <;> rfl
    | tradeContext _ | external _ | custom _ => cases hr
    | _ => rfl
  obtain ⟨q, hq⟩ := Option.isSome_iff_exists.mp hsome
  rw [Operand.amount, Datum.amount, hq]
  rfl

/-- Code stands for an operand: for its items if it is a list, and otherwise for its value at the
candle that each index means; a truth value may stand for a number if there are no others inside. -/
structure Operand.Stands (t : Table) (b : Binding) (candle : Nat → Nat) (o : Operand) (code : Code)
    (series : Bool) (first : Nat) : Prop where
  list : o.isList = true → eval t code.script = .ok (.list o.items)
  value : o.isList = false → ∃ f, code.Yields t series first f ∧
    ∀ i, (f i).plain = (o.datum t b (candle i)).plain
  exact : o.isNumeric = true → o.hasNumber = true →
    code.Yields t series first fun i => .number (o.amount t b (candle i))

variable {t : Table} {b : Binding} {candle : Nat → Nat}

theorem Operand.Stands.term {code : Code} {series : Bool} {first : Nat}
    (h : o.Stands t b candle code series first) (hn : o.isNumeric = true)
    (hr : o.isReadable = true) :
    Term.Stands t ⟨code, series, first, fun i => o.amount t b (candle i), o.hasNumber⟩ := by
  cases hexact : o.hasNumber with
  | true => exact (h.exact hn hexact).toNumbers
  | false =>
    obtain ⟨f, hf, hplain⟩ := h.value (Emission.isList_of_isNumeric hn)
    refine hf.numbers fun i => ⟨?_, nofun⟩
    rw [Datum.number?_congr (hplain i), Operand.number?_datum hn hr]

theorem Operand.stands_of_numbers {code : Code} {series : Bool} {first : Nat} {q : Nat → ℚ}
    (h : code.YieldsNumbers t series first q o.hasNumber) (hl : o.isList = false)
    (hq : ∀ i, (o.datum t b (candle i)).plain = .number (q i)) :
    o.Stands t b candle code series first := by
  obtain ⟨v, hv, f, hf, hcounts⟩ := h
  refine ⟨fun hlist => absurd hlist (by simp [hl]), fun _ => ⟨f, ⟨v, hv, hf⟩, fun i => ?_⟩,
    fun _ hexact => ?_⟩
  · rw [hq i, (Datum.number?_eq_some_iff ..).mp (hcounts i).1]
  · have hdata : f = fun i => .number (o.amount t b (candle i)) := by
      funext i
      rw [(hcounts i).2 hexact, Operand.amount, Datum.amount,
        (Datum.number?_eq_some_iff ..).mpr (hq i)]
      rfl
    exact hdata ▸ ⟨v, hv, hf⟩

namespace Emission

/-! ## Computed operands -/

section

variable {code : Emitted → Code} {series : Emitted → Bool} {first : Operand → Nat}
  {operands : List Operand} {parts : List Emitted}

/-- The term that an emitted part is for its operand. -/
def termOf (t : Table) (b : Binding) (candle : Nat → Nat) (code : Emitted → Code)
    (series : Emitted → Bool) (first : Operand → Nat) (o : Operand) (e : Emitted) : Term :=
  ⟨code e, series e, first o, fun i => o.amount t b (candle i), o.hasNumber⟩

theorem termsOf_stand
    (h : List.Forall₂ (fun o e => o.Stands t b candle (code e) (series e) (first o) ∧
      o.isNumeric = true ∧ o.isReadable = true ∧ 1 ≤ (code e).rank) operands parts) :
    ∀ x ∈ List.zipWith (termOf t b candle code series first) operands parts,
      x.Stands t ∧ 1 ≤ x.code.rank ∧ ∃ o e, x = termOf t b candle code series first o e := by
  induction h with
  | nil => simp
  | cons hp _ ih =>
    obtain ⟨hs, hn, hr, hrank⟩ := hp
    rw [List.zipWith_cons_cons, List.forall_mem_cons]
    exact ⟨⟨hs.term hn hr, hrank, _, _, rfl⟩, ih⟩

/-- The terms of all parts, one by one. -/
theorem termsOf_eq (t : Table) (b : Binding) (candle : Nat → Nat) (code : Emitted → Code)
    (series : Emitted → Bool) (first : Operand → Nat) (h : operands.length = parts.length) :
    let terms := List.zipWith (termOf t b candle code series first) operands parts
    terms.map Term.code = parts.map code ∧ terms.any Term.series = parts.any series ∧
      terms.map Term.exact = operands.map Operand.hasNumber ∧
      Term.firsts terms = (operands.map first).foldr max 0 ∧
      ∀ i, terms.map (Term.amount · i) = operands.map fun o => o.amount t b (candle i) := by
  induction operands generalizing parts with
  | nil =>
    obtain rfl : parts = [] := by simpa using h.symm
    exact ⟨rfl, rfl, rfl, rfl, fun _ => rfl⟩
  | cons o rest ih =>
    match parts, h with
    | e :: parts, h =>
      obtain ⟨hcode, hseries, hexact, hfirst, hamount⟩ := ih (Nat.succ.inj h)
      simp only [List.zipWith_cons_cons, List.map_cons, List.any_cons, Term.firsts_cons, hcode,
        hseries, hexact, hfirst, hamount]
      exact ⟨rfl, rfl, rfl, rfl, fun _ => rfl⟩

theorem computed_stands (scope : Scope) (operation : Operation)
    (h : List.Forall₂ (fun o e => o.Stands t b candle (code e) (series e) (first o) ∧
      o.isNumeric = true ∧ o.isReadable = true ∧ 1 ≤ (code e).rank) operands parts)
    (harity : operation.arity.allows operands.length = true)
    (hscope : scope = .leverage → (∀ e, series e = false) ∧ ∀ o, first o = 0)
    (hcounts : parts.any series = true →
      operation.counts (operands.map Operand.hasNumber) = true)
    (hdiv : ∀ x y e e', operation = .div ∨ operation = .percentChange → operands = [x, y] →
      parts = [e, e'] → ∀ i, (series e' = true → i < t.rows) → first y ≤ i →
        y.amount t b (candle i) ≠ 0) :
    (Operand.computed operation operands).Stands t b candle
      (arithmetic scope operation (parts.map code)) (parts.any series)
      ((operands.map first).foldr max 0) := by
  obtain ⟨hcode, hseries, hexact, hfirst, hamount⟩ :=
    termsOf_eq t b candle code series first h.length_eq
  have hall := termsOf_stand h
  have hdivides : Divides t operation
      (List.zipWith (termOf t b candle code series first) operands parts) := by
    rintro x y ho hterms
    have htwo := congrArg List.length hterms
    rw [List.length_zipWith, h.length_eq, Nat.min_self] at htwo
    obtain ⟨e, e', rfl⟩ := List.length_eq_two.mp htwo
    obtain ⟨o, o', rfl⟩ := List.length_eq_two.mp (h.length_eq.trans htwo)
    cases hterms
    exact hdiv o o' e e' ho rfl rfl
  have hsingle : scope = .leverage →
      ∀ x ∈ List.zipWith (termOf t b candle code series first) operands parts,
        x.series = false ∧ x.first = 0 := by
    rintro hl x hx
    obtain ⟨-, -, o, e, rfl⟩ := hall x hx
    exact ⟨(hscope hl).1 e, (hscope hl).2 o⟩
  have hnumbers := arithmetic_numbers scope operation (fun x hx => (hall x hx).1)
    (by simpa [h.length_eq] using harity) (fun x hx => (hall x hx).2.1) hsingle
    (by rwa [hseries, hexact]) hdivides
  have hany : (List.zipWith (termOf t b candle code series first) operands parts).any Term.exact =
      (Operand.computed operation operands).hasNumber := by
    have hany := congrArg (List.any · id) hexact
    simp only [List.any_map] at hany
    exact hany.trans (Operand.hasNumber_computed ..).symm
  rw [hcode, hseries, hfirst, hany] at hnumbers
  refine Operand.stands_of_numbers hnumbers rfl fun i => ?_
  rw [Operand.datum_computed, hamount]
  rfl

end

/-! ## Columns and times -/

theorem columnAt_series {name : String} (h : name ≠ "date") (ago : Nat) :
    (columnAt .series name ago).YieldsNumbers t true ago (fun i => t.column name (i - ago))
      true := by
  have hcolumn := Code.yields_column (t := t) h
  by_cases hago : ago = 0
  · subst hago
    exact hcolumn.toNumbers
  · rw [columnAt, if_neg hago]
    have hshifted := Code.yields_shifted ago hcolumn
    rw [Nat.zero_add] at hshifted
    exact hshifted.toNumbers

theorem columnAt_leverage {name : String} (h : name ≠ "date") {ago : Nat} (ha : ago < t.rows) :
    (columnAt .leverage name ago).YieldsNumbers t false 0
      (fun _ => t.column name (t.rows - 1 - ago)) true :=
  (Code.yields_of_single fun _ => Code.eval_candle h ha).toNumbers

theorem price_numbers {scope : Scope} {ago : Nat} {series : Bool} {first : Nat} {pos : Nat → Nat}
    (h : ∀ name, name ≠ "date" →
      (columnAt scope name ago).YieldsNumbers t series first (fun i => t.column name (pos i)) true)
    (field : PriceField) :
    (columnsAt scope (priceColumns field) ago).YieldsNumbers t series first
      (fun i => field.value t (pos i)) true := by
  let term (name : String) : Term :=
    ⟨columnAt scope name ago, series, first, fun i => t.column name (pos i), true⟩
  have hterms : ∀ name rest, (∀ n ∈ name :: rest, n ≠ "date") →
      ∀ y ∈ term name :: rest.map term, y.Stands t := by
    intro name rest hn y hy
    rw [← List.map_cons] at hy
    obtain ⟨n, hmem, rfl⟩ := List.mem_map.mp hy
    exact h n (hn n hmem)
  cases field with
  | hl2 =>
    have hm := mean_numbers (hterms "high" ["low"] (by decide)) (fun _ => rfl) true
    simpa [columnsAt, priceColumns, term, Term.firsts, Operation.apply, PriceField.value] using hm
  | hlc3 =>
    have hm := mean_numbers (hterms "high" ["low", "close"] (by decide)) (fun _ => rfl) true
    simpa [columnsAt, priceColumns, term, Term.firsts, Operation.apply, PriceField.value,
      add_assoc] using hm
  | ohlc4 =>
    have hm := mean_numbers (hterms "open" ["high", "low", "close"] (by decide)) (fun _ => rfl)
      true
    simpa [columnsAt, priceColumns, term, Term.firsts, Operation.apply, PriceField.value,
      add_assoc] using hm
  | _ => exact h _ (by decide)

theorem yields_seriesPart (zone : Option String) (part : TimePart) :
    (Code.seriesPart (zone.elim (.column "date") (.seriesZone (.column "date"))) part).Yields
      t true 0 fun i => .number (t.clock zone part i) := by
  refine ⟨Script.time t zone part, ?_, ?_⟩
  · cases zone with
    | none => cases part <;> rfl
    | some z =>
      have hzone : eval t (Code.seriesZone (.column "date") z).script = .ok (.times (some z)) := by
        rw [Code.script, eval_method "tz_convert" (v := .timeParts none) rfl (.cons rfl .nil)]
        rfl
      show eval t (.attribute (.attribute (Code.seriesZone (.column "date") z).script "dt")
        part.seriesWord) = _
      rw [eval, eval, hzone]
      cases part <;> rfl
  · simp [Denotes, Script.time, cells, cell_zero]

theorem time_stands (field : TimeField) (zone : Option String) :
    (Operand.time field zone).Stands t b id (time .series field zone).code true 0 := by
  have hpart (part : TimePart) :
      (Code.seriesPart (zone.elim (.column "date") (.seriesZone (.column "date")))
        part).YieldsNumbers t true 0 (fun i => t.clock zone part i) true :=
    (yields_seriesPart zone part).toNumbers
  cases field with
  | isWeekend =>
    obtain ⟨truth, hyields, htruth⟩ := Code.yields_compare .gte
      (yields_seriesPart (t := t) zone .dayOfWeek) (Code.yields_scalar (.int 5))
      fun _ _ => ⟨rfl, rfl⟩
    refine ⟨nofun, fun _ => ⟨_, hyields, fun i => ?_⟩, fun _ hexact => by cases hexact⟩
    have hfive : (5 : ℚ) ≤ t.clock zone .dayOfWeek i ↔ 5 ≤ t.clock zone .dayOfWeek i := by
      exact_mod_cast Iff.rfl
    rw [htruth i (Nat.zero_le i)]
    simp [Relation.holds, Datum.amount, Datum.number?, Datum.plain, Scalar.datum, Operand.datum,
      TimeField.datum, hfive]
  | hour => exact Operand.stands_of_numbers (hpart .hour) rfl fun _ => rfl
  | minute => exact Operand.stands_of_numbers (hpart .minute) rfl fun _ => rfl
  | dayOfWeek => exact Operand.stands_of_numbers (hpart .dayOfWeek) rfl fun _ => rfl
  | dayOfMonth => exact Operand.stands_of_numbers (hpart .dayOfMonth) rfl fun _ => rfl
  | month => exact Operand.stands_of_numbers (hpart .month) rfl fun _ => rfl

/-! ## Series scope -/

theorem constant_stands {value : Constant} {candle : Nat → Nat} :
    (Operand.constant value).Stands t b candle (.literal value) false 0 := by
  cases value with
  | scalar s =>
    refine ⟨nofun, fun _ => ⟨_, Code.yields_scalar s, fun _ => rfl⟩, fun hn _ => ?_⟩
    cases s with
    | int | float => exact Code.yields_scalar _
    | _ => cases hn
  | list items => exact ⟨fun _ => Code.eval_items items, nofun, nofun⟩

theorem reaches_eq (operands : List Operand) :
    (operands.map Operand.reach).foldr max 0 = Operand.reaches operands := by
  induction operands with
  | nil => rfl
  | cons o rest ih => rw [List.map_cons, List.foldr_cons, ih, Operand.reaches]

/-- The columns of bound indicators are apart from the times of the candles. -/
def Dateless (b : Binding) : Prop :=
  ∀ id field name, b.column id field = .ok name → name ≠ "date"

theorem dateless_of_bind {r : Registry} {declarations : List IndicatorDeclaration} {b : Binding}
    (h : r.bind declarations = .ok b) : Dateless b := by
  rintro id field name hname rfl
  exact Binding.column_not_reserved h hname (by decide)

/-- A part of a computed operand in series scope. -/
structure SeriesPart (t : Table) (b : Binding) (o : Operand) (e : Emitted) : Prop where
  marks : o.Marks .series e
  grouped : (Node.operand o).Grouped e
  stands : o.Stands t b id e.code e.series o.reach
  readable : o.isReadable = true

theorem operand_series {context : EmissionContext} (hscope : context.scope = .series)
    (hdate : Dateless context.binding) {o : Operand} {parts : List Emitted} {e : Emitted}
    (hadm : (Node.operand o).Admissible)
    (hcounts : (Node.operand o).Counts) (hzero : (Node.operand o).NoZeroDivisor t context.binding)
    (hparts : ∀ operation operands, o = .computed operation operands →
      List.Forall₂ (SeriesPart t context.binding) operands parts)
    (h : operand context o parts = .ok e) :
    o.Stands t context.binding id e.code e.series o.reach ∧ o.isReadable = true := by
  cases o with
  | constant value =>
    obtain ⟨-, rfl⟩ := constant_eq_ok h
    exact ⟨constant_stands, rfl⟩
  | indicator id field offset =>
    obtain ⟨name, hname, rfl⟩ := indicator_eq_ok h
    refine ⟨?_, rfl⟩
    rw [hscope]
    refine Operand.stands_of_numbers (columnAt_series (hdate _ _ _ hname) offset) rfl fun i => ?_
    simp [Operand.datum, Binding.columnOf, hname, Datum.plain]
  | price field offset =>
    cases h
    refine ⟨?_, rfl⟩
    rw [hscope]
    exact Operand.stands_of_numbers
      (price_numbers (fun name hn => columnAt_series hn offset) field) rfl fun i => rfl
  | tradeContext field =>
    rw [operand, hscope] at h
    cases h
  | time field zone =>
    cases h
    rw [hscope]
    exact ⟨time_stands field zone, rfl⟩
  | computed operation operands =>
    obtain ⟨hnumeric, rfl⟩ := computed_eq_ok h
    have hall := hparts operation operands rfl
    refine ⟨?_, rfl⟩
    rw [Operand.reach, ← reaches_eq]
    refine computed_stands context.scope operation ?_ hadm (by simp [hscope])
      (fun _ => hcounts operation operands ((Node.mem_preorder _).mpr (.inl rfl))) ?_
    · refine (forall₂_and_right hall hnumeric).imp ?_
      rintro o p ⟨hp, hn⟩
      exact ⟨hp.stands, hp.marks.numeric ▸ hn, hp.readable, Nat.le_trans (by decide) hp.grouped.1.2⟩
    · rintro x y p q ho rfl rfl i hi
      obtain ⟨-, hq⟩ : SeriesPart t context.binding x p ∧ SeriesPart t context.binding y q := by
        simpa using hall
      have hself : Node.operand (.computed operation [x, y]) ∈
          (Node.operand (.computed operation [x, y])).preorder :=
        (Node.mem_preorder _).mpr (.inl rfl)
      exact hzero operation x y ho hself i fun hv => hi (by rw [hq.marks.series, hv]; rfl)
  | external source => cases h
  | custom name => cases h

end Emission

end Stratagem
