import Stratagem.Proofs.Indicator.Snippets

/-! Which lists of declarations can be bound: those without collisions. The conditions are said of
the list as a whole and are symmetric in its members, although binding judges each declaration
against those before it. Hence the order of declarations does not matter. In a list that is bound a
column belongs to one output of one declaration. -/

namespace Stratagem

/-! ## Ids -/

/-- A letter of ASCII or an underscore. -/
def OpensId (c : Char) : Prop := 'A' ≤ c ∧ c ≤ 'Z' ∨ 'a' ≤ c ∧ c ≤ 'z' ∨ c = '_'

/-- The pattern of ids: a letter or underscore, up to 63 letters, digits and underscores, and then
the end, or a line feed that is the end. -/
def IdPattern (id : String) : Prop :=
  ∃ (c : Char) (word tail : List Char), id.toList = c :: word ++ tail ∧ OpensId c ∧
    (∀ d ∈ word, OpensId d ∨ '0' ≤ d ∧ d ≤ '9') ∧ word.length ≤ 63 ∧ (tail = [] ∨ tail = ['\n'])

theorem opensId_iff (c : Char) : OpensId c ↔ (c.isAlpha || c = '_') = true := by
  simp only [OpensId, Bool.or_eq_true, Text.isAlpha_iff, Text.isUpper_iff, Text.isLower_iff,
    decide_eq_true_eq, or_assoc]

theorem opensId_or_digit_iff (c : Char) :
    (OpensId c ∨ '0' ≤ c ∧ c ≤ '9') ↔ (c.isAlphanum || c = '_') = true := by
  rw [opensId_iff, Bool.or_eq_true, Bool.or_eq_true, Text.isAlphanum_iff, Text.isDigit_iff]
  tauto

theorem isIdWord_iff (cs : List Char) : isIdWord cs = true ↔
    ∃ c word, cs = c :: word ∧ OpensId c ∧ (∀ d ∈ word, OpensId d ∨ '0' ≤ d ∧ d ≤ '9') ∧
      word.length ≤ 63 := by
  cases cs with
  | nil => simp [isIdWord]
  | cons c word =>
    simp only [isIdWord, maxIdLength, Bool.and_eq_true, List.all_eq_true, ← opensId_iff,
      ← opensId_or_digit_iff, decide_eq_true_eq, Nat.lt_succ_iff, and_assoc]
    constructor
    · exact fun h => ⟨c, word, rfl, h⟩
    · rintro ⟨_, _, ⟨rfl, rfl⟩, h⟩
      exact h

theorem chomp_append_newline (cs : List Char) : Text.chomp (cs ++ ['\n']) = cs := by
  simp [Text.chomp]

theorem chomp_of_no_feed {cs : List Char} (h : '\n' ∉ cs) : Text.chomp cs = cs := by
  rcases chomp_cases cs with hsame | hended
  · exact hsame.symm
  · rw [hended] at h
    simp at h

/-- A word without line feeds, and at most one behind it. -/
theorem chomp_iff {P : List Char → Prop} (hP : ∀ word, P word → '\n' ∉ word) (cs : List Char) :
    P (Text.chomp cs) ↔
      ∃ word tail, cs = word ++ tail ∧ P word ∧ (tail = [] ∨ tail = ['\n']) := by
  constructor
  · intro h
    rcases chomp_cases cs with hcs | hcs
    · exact ⟨_, [], by rw [List.append_nil, ← hcs], h, .inl rfl⟩
    · exact ⟨_, ['\n'], hcs, h, .inr rfl⟩
  · rintro ⟨word, tail, rfl, hword, rfl | rfl⟩
    · rwa [List.append_nil, chomp_of_no_feed (hP word hword)]
    · rwa [chomp_append_newline]

theorem isIndicatorId_iff (id : String) : isIndicatorId id = true ↔ IdPattern id := by
  have hfeed : ∀ word, isIdWord word = true → '\n' ∉ word := fun word hword hmem =>
    absurd ((nameChar_of_isName (isName_of_isIdWord hword)).2 _ hmem) (by decide)
  rw [isIndicatorId, chomp_iff (P := fun word => isIdWord word = true) hfeed]
  simp only [isIdWord_iff]
  constructor
  · rintro ⟨_, tail, hid, ⟨c, word, rfl, hc, hall, hlength⟩, htail⟩
    exact ⟨c, word, tail, hid, hc, hall, hlength, htail⟩
  · rintro ⟨c, word, tail, hid, hc, hall, hlength, htail⟩
    exact ⟨_, tail, hid, ⟨c, word, rfl, hc, hall, hlength⟩, htail⟩

/-! ## Columns -/

theorem columnName_inj (id : String) {output output' : String}
    (h : columnName id output = columnName id output') : output = output' := by
  have hlong (o : String) : id ++ "_" ++ o ≠ id := by
    intro heq
    have hlength := congrArg String.length heq
    have hone : "_".length = 1 := rfl
    rw [String.length_append, String.length_append] at hlength
    omega
  unfold columnName at h
  split at h
  · next hempty =>
    split at h
    · next hempty' => rw [String.isEmpty_iff.mp hempty, String.isEmpty_iff.mp hempty']
    · exact absurd h.symm (hlong output')
  · split at h
    · exact absurd h (hlong output)
    · exact (String.append_right_inj _).mp h

namespace Registry

variable {r : Registry}

/-- No type lists an output twice. -/
def OutputsDistinct (r : Registry) : Prop := ∀ e ∈ r.specs, e.2.outputs.Nodup

theorem builtin_outputsDistinct : builtin.OutputsDistinct := by
  have hspecs : ∀ spec ∈ Builtin.specs, spec.outputs.Nodup := by decide
  exact List.forall_mem_map.mpr hspecs

/-- The columns of a declaration, one for each output of its type. -/
def columnsOf (r : Registry) (d : IndicatorDeclaration) : List String :=
  match r.find? d.type with
  | none => []
  | some spec => spec.outputs.map (columnName d.id)

theorem Settles.columnsOf_eq (hr : r.OutputsDistinct) {d : IndicatorDeclaration}
    {i : BoundIndicator} (h : r.Settles d i) : r.columnsOf d = i.columnNames := by
  have houtputs : i.spec.outputs.Nodup := hr _ (mem_of_lookup h.spec)
  simp [columnsOf, h.spec, BoundIndicator.columnNames, BoundIndicator.columns,
    eraseDups_of_nodup houtputs, h.id]

/-! ## Lists without collisions -/

/-- A list of declarations that is free of collisions. -/
structure Bindable (r : Registry) (ds : List IndicatorDeclaration) : Prop where
  ids : ∀ d ∈ ds, IdPattern d.id
  types : ∀ d ∈ ds, ∃ spec, r.find? d.type = some spec
  params : ∀ d ∈ ds, ∀ spec, r.find? d.type = some spec → ∃ params, spec.validate d = .ok params
  distinctIds : (ds.map IndicatorDeclaration.id).Nodup
  distinctColumns : (ds.flatMap r.columnsOf).Nodup
  unreserved : ∀ d ∈ ds, ∀ column ∈ r.columnsOf d, Text.lower column ∉ reservedColumns

/-- The conditions do not depend on the order. -/
theorem Bindable.perm {ds ds' : List IndicatorDeclaration} (h : r.Bindable ds)
    (hperm : ds.Perm ds') :
    r.Bindable ds' where
  ids d hd := h.ids d (hperm.mem_iff.mpr hd)
  types d hd := h.types d (hperm.mem_iff.mpr hd)
  params d hd := h.params d (hperm.mem_iff.mpr hd)
  distinctIds := (hperm.map _).nodup_iff.mp h.distinctIds
  distinctColumns := (hperm.flatMap_right _).nodup_iff.mp h.distinctColumns
  unreserved d hd := h.unreserved d (hperm.mem_iff.mpr hd)

section Settled

variable {r : Registry} {ds : List IndicatorDeclaration} {settled : List BoundIndicator}

theorem ids_eq (h : List.Forall₂ r.Settles ds settled) :
    ds.map IndicatorDeclaration.id = settled.map BoundIndicator.id :=
  (map_eq_of_forall₂ (h.imp fun _ _ hsettles => hsettles.id)).symm

theorem columns_eq (hr : r.OutputsDistinct) (h : List.Forall₂ r.Settles ds settled) :
    ds.flatMap r.columnsOf = settled.flatMap BoundIndicator.columnNames := by
  rw [List.flatMap_def, List.flatMap_def,
    ← map_eq_of_forall₂ (h.imp fun _ _ hsettles => (hsettles.columnsOf_eq hr).symm)]

/-- Proper and pairwise apart is free of collisions. -/
theorem bindable_of_settled (hr : r.OutputsDistinct) (h : List.Forall₂ r.Settles ds settled)
    (hproper : ∀ i ∈ settled, i.Proper) (hapart : settled.Pairwise BoundIndicator.Apart) :
    r.Bindable ds where
  ids d hd := by
    obtain ⟨i, hi, hsettles⟩ := exists_of_forall₂ h hd
    rw [← isIndicatorId_iff, ← hsettles.id]
    exact (hproper i hi).id
  types d hd := by
    obtain ⟨i, -, hsettles⟩ := exists_of_forall₂ h hd
    exact ⟨i.spec, hsettles.spec⟩
  params d hd spec hspec := by
    obtain ⟨i, -, hsettles⟩ := exists_of_forall₂ h hd
    obtain rfl : i.spec = spec := Option.some.inj (hsettles.spec.symm.trans hspec)
    exact ⟨i.params, hsettles.params⟩
  distinctIds := by
    rw [ids_eq h, List.Nodup, List.pairwise_map]
    exact hapart.imp BoundIndicator.Apart.id
  distinctColumns := by
    rw [columns_eq hr h, List.nodup_flatMap]
    exact ⟨fun i hi => (hproper i hi).columns, hapart.imp BoundIndicator.Apart.columns⟩
  unreserved d hd := by
    obtain ⟨i, hi, hsettles⟩ := exists_of_forall₂ h hd
    rw [hsettles.columnsOf_eq hr]
    exact (hproper i hi).unreserved

theorem Bindable.proper (hr : r.OutputsDistinct) (hbindable : r.Bindable ds)
    (h : List.Forall₂ r.Settles ds settled) : ∀ i ∈ settled, i.Proper := by
  have hcolumns := hbindable.distinctColumns
  rw [columns_eq hr h, List.nodup_flatMap] at hcolumns
  intro i hi
  obtain ⟨d, hd, hsettles⟩ := exists_of_forall₂ h.flip hi
  refine ⟨?_, hcolumns.1 i hi, ?_⟩
  · rw [hsettles.id, isIndicatorId_iff]
    exact hbindable.ids d hd
  · rw [← hsettles.columnsOf_eq hr]
    exact hbindable.unreserved d hd

theorem Bindable.apart (hr : r.OutputsDistinct) (hbindable : r.Bindable ds)
    (h : List.Forall₂ r.Settles ds settled) : settled.Pairwise BoundIndicator.Apart := by
  have hids := hbindable.distinctIds
  rw [ids_eq h, List.Nodup, List.pairwise_map] at hids
  have hcolumns := hbindable.distinctColumns
  rw [columns_eq hr h, List.nodup_flatMap] at hcolumns
  exact (hids.and hcolumns.2).imp fun h => ⟨h.1, h.2⟩

end Settled

/-- **Binding accepts exactly the lists without collisions.** -/
theorem bind_ok_iff_bindable (hr : r.OutputsDistinct) {ds : List IndicatorDeclaration} :
    (∃ b, r.bind ds = .ok b) ↔ r.Bindable ds := by
  constructor
  · rintro ⟨b, hb⟩
    obtain ⟨hall, hproper, hapart⟩ := bind_eq_ok_iff.mp hb
    exact bindable_of_settled hr hall hproper hapart
  · intro h
    have hsettled : ∀ d ∈ ds, ∃ i, r.Settles d i := by
      intro d hd
      obtain ⟨spec, hspec⟩ := h.types d hd
      obtain ⟨params, hparams⟩ := h.params d hd spec hspec
      exact ⟨⟨d.id, spec, params⟩, rfl, hspec, hparams⟩
    obtain ⟨settled, hall⟩ := exists_forall₂ hsettled
    exact ⟨⟨settled⟩, bind_eq_ok_iff.mpr ⟨hall, h.proper hr hall, h.apart hr hall⟩⟩

end Registry

/-! ## References -/

/-- The output that a field stands for: no field, or an empty one, stands for the default. -/
def IndicatorSpec.effective (spec : IndicatorSpec) (field : Option String) : Option String :=
  if field = none ∨ field = some "" then spec.defaultField else field

theorem BoundIndicator.output_eq_ok_iff {i : BoundIndicator} {field : Option String}
    {output : String} : i.output field = .ok output ↔
      i.spec.effective field = some output ∧ output ∈ i.spec.outputs := by
  have heffective :
      (field.filter (! ·.isEmpty)).or i.spec.defaultField = i.spec.effective field := by
    cases field with
    | none => rfl
    | some f => by_cases hf : f = "" <;> simp [IndicatorSpec.effective, Option.filter, hf]
  unfold BoundIndicator.output
  simp only [heffective]
  split
  · next hnone => simp [hnone]
  · next o hsome =>
    split
    · next hmem =>
      simp only [Except.ok.injEq, hsome, Option.some.injEq]
      grind
    · next hmem =>
      simp only [reduceCtorEq, hsome, Option.some.injEq, false_iff]
      grind

theorem BoundIndicator.column_eq_ok_iff {i : BoundIndicator} {field : Option String}
    {name : String} : i.column field = .ok name ↔ ∃ output, i.spec.effective field = some output ∧
      output ∈ i.spec.outputs ∧ name = columnName i.id output := by
  rw [BoundIndicator.column, bind_eq_ok_iff]
  simp only [output_eq_ok_iff, and_assoc, pure, Except.pure, Except.ok.injEq, eq_comm (b := name)]

namespace Registry

/-- A reference by id and field that stands for an output of a declared indicator. -/
def Refers (r : Registry) (ds : List IndicatorDeclaration) (id : String) (field : Option String)
    (output : String) : Prop :=
  ∃ d ∈ ds, d.id = id ∧ ∃ spec, r.find? d.type = some spec ∧
    spec.effective field = some output ∧ output ∈ spec.outputs

section Bound

variable {r : Registry} {ds : List IndicatorDeclaration} {b : Binding} {id : String}
  {field : Option String}

theorem refers_iff (h : r.bind ds = .ok b) {output : String} :
    r.Refers ds id field output ↔ ∃ i ∈ b.indicators, i.id = id ∧
      i.spec.effective field = some output ∧ output ∈ i.spec.outputs := by
  obtain ⟨hall, -, -⟩ := bind_eq_ok_iff.mp h
  constructor
  · rintro ⟨d, hd, rfl, spec, hspec, houtput⟩
    obtain ⟨i, hi, hsettles⟩ := exists_of_forall₂ hall hd
    obtain rfl : i.spec = spec := Option.some.inj (hsettles.spec.symm.trans hspec)
    exact ⟨i, hi, hsettles.id, houtput⟩
  · rintro ⟨i, hi, rfl, houtput⟩
    obtain ⟨d, hd, hsettles⟩ := exists_of_forall₂ hall.flip hi
    exact ⟨d, hd, hsettles.id.symm, i.spec, hsettles.spec, houtput⟩

/-- An id finds the one indicator that has it. -/
theorem find?_eq_some_iff (h : r.bind ds = .ok b) {i : BoundIndicator} :
    b.find? id = some i ↔ i ∈ b.indicators ∧ i.id = id := by
  have hids : (b.indicators.map BoundIndicator.id).Nodup := by
    rw [List.Nodup, List.pairwise_map]
    exact (bind_distinct h).1
  constructor
  · intro hfind
    exact ⟨List.mem_of_find?_eq_some hfind, by simpa using List.find?_some hfind⟩
  · rintro ⟨hi, rfl⟩
    cases hfind : b.find? i.id with
    | none =>
      have hnone := List.find?_eq_none.mp hfind i hi
      simp at hnone
    | some j =>
      have hid : j.id = i.id := by simpa using List.find?_some hfind
      rw [List.inj_on_of_nodup_map hids (List.mem_of_find?_eq_some hfind) hi hid]

/-- A reference has a column if and only if it stands for an output. -/
theorem column_eq_ok_iff (h : r.bind ds = .ok b) {name : String} :
    b.column id field = .ok name ↔
      ∃ output, r.Refers ds id field output ∧ name = columnName id output := by
  have hcolumn : b.column id field = .ok name ↔
      ∃ i ∈ b.indicators, i.id = id ∧ i.column field = .ok name := by
    simp only [← and_assoc, ← find?_eq_some_iff h]
    unfold Binding.column
    split
    · next hnone => simp [hnone]
    · next i hsome => simp [hsome]
  simp only [hcolumn, refers_iff h, BoundIndicator.column_eq_ok_iff]
  constructor
  · rintro ⟨i, hi, rfl, output, heffective, hmem, rfl⟩
    exact ⟨output, ⟨i, hi, rfl, heffective, hmem⟩, rfl⟩
  · rintro ⟨output, ⟨i, hi, rfl, heffective, hmem⟩, rfl⟩
    exact ⟨i, hi, rfl, output, heffective, hmem, rfl⟩

/-- A column belongs to one output of one indicator. -/
theorem refers_unique (h : r.bind ds = .ok b) {id' output output' : String} {field' : Option String}
    (href : r.Refers ds id field output) (href' : r.Refers ds id' field' output')
    (hsame : columnName id output = columnName id' output') : id = id' ∧ output = output' := by
  obtain ⟨-, -, hapart⟩ := bind_eq_ok_iff.mp h
  obtain ⟨i, hi, rfl, -, houtput⟩ := (refers_iff h).mp href
  obtain ⟨j, hj, rfl, -, houtput'⟩ := (refers_iff h).mp href'
  have hcolumn {k : BoundIndicator} {o : String} (ho : o ∈ k.spec.outputs) :
      columnName k.id o ∈ k.columnNames := by
    rw [BoundIndicator.columnNames, BoundIndicator.columns, List.map_map]
    exact List.mem_map_of_mem (List.mem_eraseDups.mpr ho)
  have hsymm : Std.Symm BoundIndicator.Apart := ⟨fun _ _ h => ⟨h.id.symm, h.columns.symm⟩⟩
  obtain rfl : i = j := by
    by_contra hne
    exact (hapart.forall hi hj hne).columns (hcolumn houtput) (hsame ▸ hcolumn houtput')
  exact ⟨rfl, columnName_inj i.id hsame⟩

end Bound

end Registry

/-! ## The order of declarations -/

/-- All columns of a binding. -/
def Binding.columnNames (b : Binding) : List String :=
  b.indicators.flatMap BoundIndicator.columnNames

theorem Binding.warmup_eq (b : Binding) :
    b.warmup = (b.indicators.map BoundIndicator.warmup).max?.getD 0 := by
  unfold Binding.warmup
  split
  · next hnil => rw [hnil]; rfl
  · next hcons => rw [hcons, List.max?_cons', Option.getD_some]

namespace Registry

theorem Settles.unique {r : Registry} : Relator.RightUnique r.Settles := by
  rintro d ⟨id, spec, params⟩ ⟨id', spec', params'⟩ h h'
  obtain rfl : id = id' := h.id.trans h'.id.symm
  obtain rfl : spec = spec' := Option.some.inj (h.spec.symm.trans h'.spec)
  obtain rfl : params = params' := Except.ok.inj (h.params.symm.trans h'.params)
  rfl

/-- Declarations in another order are bound to the same indicators in another order. -/
theorem bind_perm {r : Registry} {ds ds' : List IndicatorDeclaration} {b b' : Binding}
    (hperm : ds.Perm ds') (h : r.bind ds = .ok b) (h' : r.bind ds' = .ok b') :
    b.indicators.Perm b'.indicators :=
  List.rel_perm_imp Settles.unique (bind_eq_ok_iff.mp h).1 (bind_eq_ok_iff.mp h').1 hperm

/-- **Binding is free of collisions, and symmetric.** The built-in types bind exactly the lists
without collisions. Then a reference has a column exactly if it stands for an output of a declared
indicator, and two references with one column stand for the same output of the same indicator. In
another order the declarations are bound as well, to the same columns, imports and warm-up. -/
theorem builtin_binds_collision_free (ds : List IndicatorDeclaration) :
    ((∃ b, builtin.bind ds = .ok b) ↔ builtin.Bindable ds) ∧
    (∀ b, builtin.bind ds = .ok b →
      (∀ id field name, b.column id field = .ok name ↔
        ∃ output, builtin.Refers ds id field output ∧ name = columnName id output) ∧
      ∀ id field output id' field' output', builtin.Refers ds id field output →
        builtin.Refers ds id' field' output' → columnName id output = columnName id' output' →
        id = id' ∧ output = output') ∧
    ∀ ds', ds.Perm ds' →
      ((∃ b, builtin.bind ds = .ok b) ↔ ∃ b', builtin.bind ds' = .ok b') ∧
      ∀ b b', builtin.bind ds = .ok b → builtin.bind ds' = .ok b' →
        b.columnNames.Perm b'.columnNames ∧ b.imports.Perm b'.imports ∧ b.warmup = b'.warmup := by
  have hexact (ds : List IndicatorDeclaration) :
      (∃ b, builtin.bind ds = .ok b) ↔ builtin.Bindable ds :=
    bind_ok_iff_bindable builtin_outputsDistinct
  refine ⟨hexact ds, fun b hb => ⟨fun _ _ _ => column_eq_ok_iff hb, ?_⟩, fun ds' hperm => ⟨?_, ?_⟩⟩
  · exact fun _ _ _ _ _ _ href href' hsame => refers_unique hb href href' hsame
  · rw [hexact, hexact]
    exact ⟨fun h => h.perm hperm, fun h => h.perm hperm.symm⟩
  · intro b b' hb hb'
    have hsame := bind_perm hperm hb hb'
    refine ⟨hsame.flatMap_right _, hsame.flatMap_right _, ?_⟩
    rw [Binding.warmup_eq, Binding.warmup_eq, max?_perm (hsame.map _)]

/-- Two types with several outputs, one of them with a default that is not the id itself. -/
theorem bands_and_macd_bind_collision_free :
    let macd : IndicatorDeclaration := ⟨"macd", "MACD", [], none⟩
    let bands : IndicatorDeclaration := ⟨"bands", "BB", [(.text "period", .int 30)], none⟩
    ∃ b b', builtin.bind [macd, bands] = .ok b ∧ builtin.bind [bands, macd] = .ok b' ∧
      b.column "bands" none = .ok "bands_middle" ∧ b.columnNames.Perm b'.columnNames ∧
      b.imports.Perm b'.imports ∧ b.warmup = b'.warmup := by
  intro macd bands
  obtain ⟨-, hrefers, hsymmetric⟩ := builtin_binds_collision_free [macd, bands]
  have hsome : (builtin.bind [macd, bands]).toOption.isSome = true := by decide +kernel
  obtain ⟨b, hb⟩ := Option.isSome_iff_exists.mp hsome
  have hb := toOption_eq_some hb
  obtain ⟨hboth, hsame⟩ := hsymmetric [bands, macd] (.swap _ _ _)
  obtain ⟨b', hb'⟩ := hboth.mp ⟨b, hb⟩
  refine ⟨b, b', hb, hb', ?_, hsame b b' hb hb'⟩
  refine ((hrefers b hb).1 _ _ _).mpr ⟨"middle", ⟨bands, by simp, rfl, Builtin.bollinger, ?_⟩, rfl⟩
  exact ⟨rfl, rfl, by decide⟩

end Registry

end Stratagem
