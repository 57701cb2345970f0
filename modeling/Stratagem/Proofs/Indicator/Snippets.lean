import Stratagem.Indicator.Builtin
import Stratagem.Proofs.Emission.Recursion
import Stratagem.Proofs.Indicator.Columns
import Stratagem.Proofs.Module.Scanning
import Stratagem.Proofs.Number.Conversion
import Stratagem.Proofs.Script.Lexing

/-! The code of the built-in indicators. A type is sound if its parameters have defaults that fit
them and its lines read no parameter as what it is not; this is checked for each type by running the
check. The lines of a sound type hold no escapes and no comments, whatever its id and parameters. -/

namespace Stratagem

variable {v : Value} {x : Numeric} {p : ParamSpec} {s : Scalar} {i : BoundIndicator}
  {cs : List Char} {id name text : String}

/-- What the names of helpers end in. -/
def helperSuffixes : List String := ["raw", "mfv", "high", "low", "atr", "hl2"]

/-! ## Values of parameters -/

/-- A value of the kind of a parameter; a text is one of its choices. -/
def ParamSpec.fits (p : ParamSpec) : Scalar → Bool
  | .int _ => p.kind == .int
  | .float x => p.kind == .float && x.isFinite
  | .text s => p.kind == .text && p.choices.contains s
  | _ => false

/-- The values that are turned into a number, and the number of each. -/
theorem ParamSpec.number_cases {kind : ParamKind} (hkind : kind ≠ .text)
    (h : number kind v = .ok x) :
    (∃ n, kind = .int ∧ v = .int n ∧ x = .int n) ∨
      (∃ n y, kind = .float ∧ v = .int n ∧ Binary64.ofInt? n = some y ∧ x = .float y) ∨
      (∃ y n, kind = .int ∧ v = .float y ∧ y.isFinite = true ∧ y.isIntegral = true ∧
        y.truncate? = some n ∧ x = .int n) ∨
      ∃ y, kind = .float ∧ v = .float y ∧ y.isFinite = true ∧ x = .float y := by
  have hfloat : kind ≠ .int → kind = .float := by cases kind <;> simp_all
  cases v with
  | int n =>
    rw [number] at h
    split at h
    · next hint =>
      cases h
      exact .inl ⟨n, hint, rfl, rfl⟩
    · next hint =>
      cases hof : Binary64.ofInt? n with
      | none => simp [hof] at h
      | some y =>
        simp only [hof, Except.ok.injEq] at h
        exact .inr (.inl ⟨n, y, hfloat hint, rfl, hof, h.symm⟩)
  | float y =>
    rw [number] at h
    split at h
    · cases h
    · next hfinite =>
      have hfinite : y.isFinite = true := by simpa using hfinite
      split at h
      · next hint =>
        split at h
        · next n hintegral htruncate =>
          cases h
          exact .inr (.inr (.inl ⟨y, n, hint, rfl, hfinite, hintegral, htruncate, rfl⟩))
        · cases h
      · next hint =>
        cases h
        exact .inr (.inr (.inr ⟨y, hfloat hint, rfl, hfinite, rfl⟩))
  | _ => cases h

theorem ParamSpec.number_fits (hkind : p.kind ≠ .text) (h : number p.kind v = .ok x) :
    p.fits x.toScalar = true := by
  obtain ⟨n, hint, -, rfl⟩ | ⟨n, y, hfloat, -, hof, rfl⟩ | ⟨y, n, hint, -, -, -, -, rfl⟩ |
    ⟨y, hfloat, -, hfinite, rfl⟩ := number_cases hkind h
  · simp [fits, Numeric.toScalar, hint]
  · simp [fits, Numeric.toScalar, hfloat, (Binary64.ofInt?_eq_some hof).2]
  · simp [fits, Numeric.toScalar, hint]
  · simp [fits, Numeric.toScalar, hfloat, hfinite]

theorem ParamSpec.withinBounds_eq_ok {y : Numeric} (h : p.withinBounds x = .ok y) : y = x := by
  unfold withinBounds at h
  split at h <;> cases h
  rfl

theorem ParamSpec.coerce_fits (hchoices : p.kind = .text → p.choices ≠ [])
    (h : p.coerce v = .ok s) :
    p.fits s = true := by
  unfold coerce at h
  split at h
  · next hkind =>
    cases v with
    | text w =>
      have hne : p.choices.isEmpty = false := by simpa using hchoices hkind
      simp only [choice, hne, Bool.false_or, bind, Except.bind] at h
      split at h
      · cases h
      · next hw =>
        split at hw
        · next hmem =>
          cases hw
          cases h
          simp [fits, hkind, List.contains_iff_mem.mp hmem]
        · cases hw
    | _ => cases h
  · next hkind =>
    obtain ⟨x, hnumber, h⟩ := exists_of_bind_ok h
    obtain ⟨y, hbounds, hy⟩ := exists_of_bind_ok h
    obtain rfl := withinBounds_eq_ok hbounds
    cases hy
    exact number_fits (fun htext => hkind htext) hnumber

/-- Every value fits a parameter of its name. -/
def Params.Fit (spec : IndicatorSpec) (params : Params) : Prop :=
  ∀ e ∈ params, ∃ p ∈ spec.params, p.name = e.1 ∧ p.fits e.2 = true

/-- The default fits, and the choices of a text are columns of market data. -/
def ParamSpec.isSound (p : ParamSpec) : Bool :=
  p.fits p.default &&
    (p.kind != .text || !p.choices.isEmpty && p.choices.all fun c => marketColumns.contains c)

theorem ParamSpec.choices_ne_nil (h : p.isSound = true) (hkind : p.kind = .text) :
    p.choices ≠ [] := by
  intro hnil
  simp [isSound, hkind, hnil] at h

namespace IndicatorSpec

variable {spec : IndicatorSpec}

theorem mem_of_param? {name : String} {p : ParamSpec} (h : spec.param? name = some p) :
    p ∈ spec.params :=
  List.mem_reverse.mp (List.mem_of_find?_eq_some h)

theorem resolve_fit (hspec : ∀ p ∈ spec.params, p.isSound = true) {id : String} {resolved : Params}
    {seen : List String} {given : Fields} {params : Params}
    (h : spec.resolve id resolved seen given = .ok params) (hresolved : Params.Fit spec resolved) :
    Params.Fit spec params := by
  induction given generalizing resolved seen with
  | nil =>
    cases h
    exact hresolved
  | cons entry rest ih =>
    obtain ⟨key, value⟩ := entry
    simp only [resolve] at h
    split at h
    · cases h
    · next p hparam =>
      split at h
      · cases h
      · split at h
        · cases h
        · next scalar hcoerce =>
          have hp := mem_of_param? hparam
          refine ih h fun e he => ?_
          obtain ⟨⟨name, old⟩, hold, rfl⟩ := List.mem_map.mp he
          dsimp only
          split
          · next hname =>
            exact ⟨p, hp, hname.symm, p.coerce_fits (p.choices_ne_nil (hspec p hp)) hcoerce⟩
          · exact hresolved _ hold

theorem validate_fit (hspec : ∀ p ∈ spec.params, p.isSound = true) {d : IndicatorDeclaration}
    {params : Params} (h : spec.validate d = .ok params) : Params.Fit spec params := by
  refine resolve_fit hspec h fun e he => ?_
  obtain ⟨p, hp, rfl⟩ := List.mem_map.mp he
  exact ⟨p, hp, rfl, (Bool.and_eq_true_iff.mp (hspec p hp)).1⟩

end IndicatorSpec

/-! ## Sound types -/

/-- The piece stands for something the type has, and a text has no loose quote at its end. -/
def Piece.isSound (spec : IndicatorSpec) : Piece → Bool
  | .text s => Scan.bland s.toList && !s.toList.getLast?.any Scan.isQuote
  | .id => false
  | .column output => spec.outputs.contains output
  | .market name => marketColumns.contains name
  | .helper suffix => helperSuffixes.contains suffix
  | .param name | .literal name => spec.params.all fun p => p.name != name || p.kind != .text
  | .paramColumn name => spec.params.all fun p => p.name != name || p.kind == .text

def Target.isSound (spec : IndicatorSpec) : Target → Bool
  | .column output => spec.outputs.contains output
  | .helper suffix => helperSuffixes.contains suffix

def Line.isSound (spec : IndicatorSpec) : Line → Bool
  | .assign target value => target.isSound spec && value.all (Piece.isSound spec)
  | .free _ => false

def IndicatorSpec.isSound (spec : IndicatorSpec) : Bool :=
  spec.params.all ParamSpec.isSound && spec.outputs.all (fun o => o.toList.all Script.nameChar) &&
    spec.snippet.all (Line.isSound spec)

theorem Builtin.specs_isSound : ∀ spec ∈ specs, spec.isSound = true := by decide +kernel

/-- A sound indicator: a type and parameters that fit it, under an id that is one. -/
structure BoundIndicator.Sound (i : BoundIndicator) : Prop where
  id : isIndicatorId i.id = true
  spec : i.spec.isSound = true
  params : Params.Fit i.spec i.params

theorem Registry.Settles.sound {r : Registry} (hr : ∀ e ∈ r.specs, e.2.isSound = true)
    {d : IndicatorDeclaration} (h : r.Settles d i) (hproper : i.Proper) : i.Sound := by
  have hsound : i.spec.isSound = true := hr _ (mem_of_lookup h.spec)
  have hall : ∀ p ∈ i.spec.params, p.isSound = true := by
    simp only [IndicatorSpec.isSound, Bool.and_eq_true, List.all_eq_true] at hsound
    exact hsound.1.1
  exact ⟨hproper.id, hsound, IndicatorSpec.validate_fit hall h.params⟩

theorem Registry.bind_sound {declarations : List IndicatorDeclaration} {b : Binding}
    (h : Registry.builtin.bind declarations = .ok b) : ∀ i ∈ b.indicators, i.Sound := by
  have hspecs : ∀ e ∈ Registry.builtin.specs, e.2.isSound = true := by
    intro e he
    obtain ⟨spec, hspec, rfl⟩ := List.mem_map.mp he
    exact Builtin.specs_isSound spec hspec
  exact bind_forall (fun _ _ => Settles.sound hspecs) h

/-- What holds of all built-in types holds of the type of each indicator. -/
theorem Registry.bind_specs {P : IndicatorSpec → Prop} (hspecs : ∀ spec ∈ Builtin.specs, P spec)
    {declarations : List IndicatorDeclaration} {b : Binding}
    (h : Registry.builtin.bind declarations = .ok b) : ∀ i ∈ b.indicators, P i.spec := by
  refine bind_forall (fun d i hsettles _ => ?_) h
  obtain ⟨spec, hspec, hsame⟩ := List.mem_map.mp (mem_of_lookup hsettles.spec)
  obtain rfl : spec = i.spec := congrArg Prod.snd hsame
  exact hspecs _ hspec

/-! ## Characters of the code -/

open Scan

/-- A text without escapes and comments that a quote may follow. -/
structure Framed (cs : List Char) : Prop where
  bland : bland cs = true
  ends : cs.getLast?.any isQuote = false

theorem Framed.append {xs ys : List Char} (hx : Framed xs) (hy : Framed ys) :
    Framed (xs ++ ys) := by
  refine ⟨bland_append hx.bland hy.bland (.inl hx.ends), ?_⟩
  rw [List.getLast?_append]
  cases hlast : ys.getLast? with
  | none => exact hx.ends
  | some c => simpa [hlast] using hy.ends

theorem framed_of_quiet (h : ∀ c ∈ cs, isQuiet c = true) : Framed cs := by
  refine ⟨bland_of_quiet h, ?_⟩
  cases hlast : cs.getLast? with
  | none => rfl
  | some c =>
    have hc := h c (List.mem_of_getLast? hlast)
    simp only [isQuiet, Bool.and_eq_true, Bool.not_eq_true'] at hc
    simpa using hc.1.2

theorem framed_flatten {parts : List (List Char)} (h : ∀ cs ∈ parts, Framed cs) :
    Framed parts.flatten := by
  induction parts with
  | nil => exact ⟨rfl, rfl⟩
  | cons cs rest ih =>
    obtain ⟨hcs, hrest⟩ := List.forall_mem_cons.mp h
    exact hcs.append (ih hrest)

/-- A column between its quotes. -/
theorem framed_columnAccess {column : String} (hne : column.toList ≠ [])
    (h : ∀ c ∈ column.toList, isQuiet c = true) : Framed (columnAccess column).toList := by
  have hbland : bland (column.toList ++ "']".toList) = true :=
    bland_append (bland_of_quiet h) (by decide) (.inl (framed_of_quiet h).ends)
  have hhead : (column.toList ++ "']".toList).head?.any isQuote = false := by
    rw [List.head?_append_of_ne_nil _ hne]
    cases hlist : column.toList with
    | nil => rfl
    | cons c cs =>
      have hc := h c (by simp [hlist])
      simp only [isQuiet, Bool.and_eq_true, Bool.not_eq_true'] at hc
      simpa using hc.1.2
  have hall : (columnAccess column).toList =
      "dataframe['".toList ++ (column.toList ++ "']".toList) := by
    simp [columnAccess, tableName]
  refine ⟨?_, ?_⟩
  · rw [hall]
    exact bland_append (by decide) hbland (.inr hhead)
  · rw [columnAccess, String.toList_append, List.getLast?_append_of_ne_nil _ (by simp)]
    rfl

theorem chomp_cases (cs : List Char) :
    cs = Text.chomp cs ∨ cs = Text.chomp cs ++ ['\n'] := by
  unfold Text.chomp
  split
  · next hlast => exact .inr (List.dropLast_append_getLast? _ hlast).symm
  · exact .inl rfl

theorem isQuiet_of_nameChar {c : Char} (h : Script.nameChar c = true) : isQuiet c = true :=
  (Bool.and_eq_true_iff.mp (isPlain_of_wordChar (Script.wordChar_of_nameChar h))).2

theorem isName_of_isIdWord (h : isIdWord cs = true) : Script.isName cs = true := by
  cases cs with
  | nil => cases h
  | cons c rest =>
    simp only [isIdWord, Bool.and_eq_true, Bool.or_eq_true, decide_eq_true_eq,
      List.all_eq_true] at h
    obtain ⟨⟨hfirst, hrest⟩, -⟩ := h
    have hstart : Script.nameStart c = true := by simpa [Script.nameStart] using hfirst
    have hall : ∀ d ∈ rest, Script.nameChar d = true := by
      intro d hd
      simpa [Script.nameChar] using hrest d hd
    simpa [Script.isName, hstart, Script.nameChar_of_nameStart hstart] using hall

theorem nameChar_of_isName (h : Script.isName cs = true) :
    cs ≠ [] ∧ ∀ c ∈ cs, Script.nameChar c = true := by
  simp only [Script.isName, Bool.and_eq_true, List.all_eq_true] at h
  refine ⟨?_, h.2⟩
  rintro rfl
  simp at h

theorem mem_indicatorId (h : isIndicatorId id = true) :
    id.toList ≠ [] ∧ ∀ c ∈ id.toList, Script.nameChar c = true ∨ c = '\n' := by
  obtain ⟨hne, hword⟩ := nameChar_of_isName (isName_of_isIdWord h)
  rcases chomp_cases id.toList with hid | hid
  · rw [hid]
    exact ⟨hne, fun c hc => .inl (hword c hc)⟩
  · rw [hid]
    exact ⟨by simp, List.forall_mem_append.mpr ⟨fun c hc => .inl (hword c hc), by simp⟩⟩

theorem quiet_id (h : isIndicatorId id = true) :
    id.toList ≠ [] ∧ ∀ c ∈ id.toList, isQuiet c = true := by
  obtain ⟨hne, hchars⟩ := mem_indicatorId h
  refine ⟨hne, fun c hc => ?_⟩
  rcases hchars c hc with hc | rfl
  · exact isQuiet_of_nameChar hc
  · decide

theorem quiet_columnName {output : String} (hid : isIndicatorId id = true)
    (houtput : ∀ c ∈ output.toList, Script.nameChar c = true) :
    (columnName id output).toList ≠ [] ∧ ∀ c ∈ (columnName id output).toList, isQuiet c = true := by
  obtain ⟨hne, hquiet⟩ := quiet_id hid
  unfold columnName
  split
  · exact ⟨hne, hquiet⟩
  · rw [String.toList_append, String.toList_append]
    refine ⟨by simp [hne], ?_⟩
    simp only [List.forall_mem_append]
    exact ⟨⟨hquiet, by decide⟩, fun c hc => isQuiet_of_nameChar (houtput c hc)⟩

theorem quiet_helperName {suffix : String} (hid : isIndicatorId id = true)
    (hsuffix : suffix ∈ helperSuffixes) :
    ∀ c ∈ (helperName id suffix).toList, isQuiet c = true := by
  have hall : ∀ s ∈ helperSuffixes, ∀ c ∈ s.toList, isQuiet c = true := by decide
  rw [helperName, String.toList_append, String.toList_append]
  simp only [List.forall_mem_append]
  exact ⟨⟨(quiet_id hid).2, by decide⟩, hall suffix hsuffix⟩

/-- A number that is written is written the same way everywhere, as tokens that are neither names
nor texts. -/
theorem ParamSpec.number_of_fits (h : p.fits s = true) (hkind : p.kind ≠ .text) :
    (∀ text, s.toValue.literal = .ok text → text = s.toValue.plain) ∧
      Script.Spells false s.toValue.plain s.tokens ∧
      ∀ w, Script.Token.text w ∉ s.tokens ∧ Script.Token.name w ∉ s.tokens := by
  have hsign : ∀ (negative : Bool) (w : String),
      Script.Token.text w ∉ Script.signTokens negative ∧
        Script.Token.name w ∉ Script.signTokens negative := by
    intro negative w
    cases negative <;> simp [Script.signTokens]
  cases s with
  | int n =>
    refine ⟨fun text htext => ?_, spells_scalar (.int n) rfl, fun w => ?_⟩
    · rw [Scalar.toValue, Value.literal] at htext
      split at htext <;> cases htext
      rfl
    · simpa [Scalar.tokens] using hsign _ w
  | float x =>
    have hfinite : x.isFinite = true := (Bool.and_eq_true_iff.mp h).2
    refine ⟨fun text htext => ?_, spells_scalar (.float x) hfinite, fun w => ?_⟩
    · rw [Scalar.toValue, Value.literal, if_pos hfinite] at htext
      cases htext
      rfl
    · simpa [Scalar.tokens] using hsign _ w
  | text w => exact absurd (by simpa using (Bool.and_eq_true_iff.mp h).1) hkind
  | null => cases h
  | bool b => cases h

theorem ParamSpec.text_of_fits (hp : p.isSound = true) (h : p.fits s = true)
    (hkind : p.kind = .text) : ∃ w ∈ marketColumns, s = .text w := by
  simp only [isSound, hkind, Bool.and_eq_true, Bool.or_eq_true, List.all_eq_true] at hp
  cases s with
  | text w =>
    have hw : w ∈ p.choices := by simpa [fits, hkind] using h
    refine ⟨w, ?_, rfl⟩
    have hchoices := hp.2
    simp only [bne_self_eq_false, Bool.false_eq_true, false_or] at hchoices
    simpa using hchoices.2 w hw
  | _ => simp [fits, hkind] at h

theorem Params.Fit.lookup {spec : IndicatorSpec} {params : Params} (h : Params.Fit spec params)
    (hs : params.lookup name = some s) :
    ∃ p ∈ spec.params, p.name = name ∧ p.fits s = true := h _ (mem_of_lookup hs)

/-- A parameter that is read as a number is one. -/
theorem BoundIndicator.Sound.fits_number (hi : i.Sound)
    (hname : (i.spec.params.all fun p => p.name != name || p.kind != .text) = true)
    (hs : i.params.lookup name = some s) : ∃ p : ParamSpec, p.fits s = true ∧ p.kind ≠ .text := by
  obtain ⟨p, hp, rfl, hfits⟩ := hi.params.lookup hs
  refine ⟨p, hfits, fun hkind => ?_⟩
  simpa [hkind] using List.all_eq_true.mp hname p hp

theorem BoundIndicator.Sound.number (hi : i.Sound)
    (hname : (i.spec.params.all fun p => p.name != name || p.kind != .text) = true)
    (hs : i.params.lookup name = some s) :
    Script.Spells false s.toValue.plain s.tokens ∧
      ∀ w, Script.Token.text w ∉ s.tokens ∧ Script.Token.name w ∉ s.tokens := by
  obtain ⟨p, hfits, hkind⟩ := hi.fits_number hname hs
  exact (p.number_of_fits hfits hkind).2

/-- A parameter that is read as a column names a column of market data. -/
theorem BoundIndicator.Sound.source (hi : i.Sound)
    (hname : (i.spec.params.all fun p => p.name != name || p.kind == .text) = true)
    (hs : i.params.lookup name = some s) : ∃ w ∈ marketColumns, s = .text w := by
  obtain ⟨p, hp, rfl, hfits⟩ := hi.params.lookup hs
  have hspec := hi.spec
  simp only [IndicatorSpec.isSound, Bool.and_eq_true, List.all_eq_true] at hspec
  exact p.text_of_fits (hspec.1.1 p hp) hfits (by simpa using List.all_eq_true.mp hname p hp)

theorem BoundIndicator.Sound.outputs (hi : i.Sound) {output : String}
    (h : output ∈ i.spec.outputs) :
    ∀ c ∈ output.toList, Script.nameChar c = true := by
  have hspec := hi.spec
  simp only [IndicatorSpec.isSound, Bool.and_eq_true, List.all_eq_true] at hspec
  exact hspec.1.2 output h

theorem framed_of_spells {ts : List Script.Token} (h : Script.Spells false text ts)
    (hts : ∀ w, Script.Token.text w ∉ ts) : Framed text.toList := by
  refine framed_of_quiet fun c hc => ?_
  exact (Bool.and_eq_true_iff.mp (isPlain_of_lex h.alone hts c hc)).2

theorem quiet_market (h : name ∈ marketColumns) :
    name.toList ≠ [] ∧ ∀ c ∈ name.toList, isQuiet c = true := by
  have hall : ∀ w ∈ marketColumns, w.toList ≠ [] ∧ ∀ c ∈ w.toList, isQuiet c = true := by decide
  exact hall name h

/-- What a piece of a sound type is rendered as: its own text, a column of the indicator or of the
market, a helper, or a number. -/
inductive Piece.Renders (i : BoundIndicator) : Piece → String → Prop
  | text (s : String) : Renders i (.text s) s
  | output {output : String} (h : output ∈ i.spec.outputs) :
    Renders i (.column output) (columnAccess (columnName i.id output))
  | market {name : String} (h : name ∈ marketColumns) : Renders i (.market name) (columnAccess name)
  | source {name w : String} (hs : i.params.lookup name = some (.text w)) (h : w ∈ marketColumns) :
    Renders i (.paramColumn name) (columnAccess w)
  | helper {suffix : String} (h : suffix ∈ helperSuffixes) :
    Renders i (.helper suffix) (helperName i.id suffix)
  | number {piece : Piece} {name : String} {s : Scalar} {p : ParamSpec}
    (hpiece : piece = .param name ∨ piece = .literal name) (hs : i.params.lookup name = some s)
    (hfits : p.fits s = true) (hkind : p.kind ≠ .text) : Renders i piece s.toValue.plain

theorem Params.plain_eq_ok {params : Params} (h : params.plain name = .ok text) :
    ∃ s, params.lookup name = some s ∧ text = s.toValue.plain := by
  unfold Params.plain at h
  split at h
  · next s hs =>
    split at h
    · next plain hplain =>
      cases h
      rw [Value.plain?] at hplain
      split at hplain <;> cases hplain
      exact ⟨s, hs, rfl⟩
    · cases h
  · cases h

theorem Piece.renders_of_render (hi : i.Sound) {piece : Piece}
    (hpiece : piece.isSound i.spec = true) (h : piece.render i.id i.params = .ok text) :
    piece.Renders i text := by
  cases piece with
  | text s =>
    cases h
    exact .text _
  | id => cases hpiece
  | column output =>
    cases h
    exact .output (by simpa [Piece.isSound] using hpiece)
  | market name =>
    cases h
    exact .market (by simpa [Piece.isSound] using hpiece)
  | helper suffix =>
    cases h
    exact .helper (by simpa [Piece.isSound] using hpiece)
  | param name =>
    obtain ⟨s, hs, rfl⟩ := Params.plain_eq_ok h
    obtain ⟨p, hfits, hkind⟩ := hi.fits_number hpiece hs
    exact .number (.inl rfl) hs hfits hkind
  | paramColumn name =>
    obtain ⟨plain, hplain, htext⟩ := exists_of_bind_ok h
    cases htext
    obtain ⟨s, hs, rfl⟩ := Params.plain_eq_ok hplain
    obtain ⟨w, hw, rfl⟩ := hi.source hpiece hs
    exact .source hs hw
  | literal name =>
    simp only [Piece.render, Params.literal] at h
    split at h
    · next s hs =>
      obtain ⟨p, hfits, hkind⟩ := hi.fits_number hpiece hs
      obtain rfl := (p.number_of_fits hfits hkind).1 text (ok_of_mapError_ok h)
      exact .number (.inr rfl) hs hfits hkind
    · cases h

theorem Piece.render_framed (hi : i.Sound) {piece : Piece} (hpiece : piece.isSound i.spec = true)
    (h : piece.render i.id i.params = .ok text) : Framed text.toList := by
  cases Piece.renders_of_render hi hpiece h with
  | text s =>
    simp only [Piece.isSound, Bool.and_eq_true, Bool.not_eq_true'] at hpiece
    exact ⟨hpiece.1, hpiece.2⟩
  | output houtput =>
    obtain ⟨hne, hquiet⟩ := quiet_columnName hi.id (hi.outputs houtput)
    exact framed_columnAccess hne hquiet
  | market hname | source _ hname =>
    obtain ⟨hne, hquiet⟩ := quiet_market hname
    exact framed_columnAccess hne hquiet
  | helper hsuffix => exact framed_of_quiet (quiet_helperName hi.id hsuffix)
  | number _ _ hfits hkind =>
    obtain ⟨-, hspells, hts⟩ := ParamSpec.number_of_fits hfits hkind
    exact framed_of_spells hspells fun w => (hts w).1

theorem Target.render_framed (hi : i.Sound) {target : Target}
    (htarget : target.isSound i.spec = true) : Framed (target.render i.id).toList := by
  cases target with
  | column output =>
    have houtput : output ∈ i.spec.outputs := by simpa [Target.isSound] using htarget
    obtain ⟨hne, hquiet⟩ := quiet_columnName hi.id (hi.outputs houtput)
    exact framed_columnAccess hne hquiet
  | helper suffix =>
    exact framed_of_quiet (quiet_helperName hi.id (by simpa [Target.isSound] using htarget))

/-- A line of a sound type is an assignment of pieces that render on their own. -/
theorem Line.render_eq_ok {line : Line} (hline : line.isSound i.spec = true)
    (h : line.render i.id i.params = .ok text) :
    ∃ target value parts, line = .assign target value ∧ target.isSound i.spec = true ∧
      (∀ p ∈ value, p.isSound i.spec = true) ∧
      List.Forall₂ (fun p part => Piece.render i.id i.params p = .ok part) value parts ∧
      text = target.render i.id ++ " = " ++ String.join parts := by
  cases line with
  | free pieces => cases hline
  | assign target value =>
    simp only [Line.isSound, Bool.and_eq_true, List.all_eq_true] at hline
    simp only [Line.render, renderPieces] at h
    obtain ⟨text', htext, h⟩ := exists_of_bind_ok h
    obtain ⟨parts, hparts, htext⟩ := exists_of_bind_ok htext
    cases htext
    cases h
    exact ⟨target, value, parts, rfl, hline.1, hline.2, (mapM_eq_ok_iff _ _ _).mp hparts, rfl⟩

theorem Line.render_framed (hi : i.Sound) {line : Line} (hline : line.isSound i.spec = true)
    (h : line.render i.id i.params = .ok text) : Framed text.toList := by
  obtain ⟨target, value, parts, rfl, htarget, hvalue, hparts, rfl⟩ := Line.render_eq_ok hline h
  have hjoin : Framed (String.join parts).toList := by
    rw [String.toList_join, List.flatMap_def]
    refine framed_flatten fun cs hcs => ?_
    obtain ⟨part, hpart, rfl⟩ := List.mem_map.mp hcs
    obtain ⟨p, hp, hrender⟩ := exists_of_forall₂ hparts.flip hpart
    exact Piece.render_framed hi (hvalue p hp) hrender
  rw [String.toList_append, String.toList_append]
  exact ((Target.render_framed hi htarget).append (framed_of_quiet (by decide))).append hjoin

/-- What the code of an indicator is before it is cut into lines. -/
theorem BoundIndicator.code_eq_ok {lines : List String} (h : i.code = .ok lines) :
    ∃ texts, List.Forall₂ (fun line text => Line.render i.id i.params line = .ok text)
        i.spec.snippet texts ∧
      lines = (Text.lines ("\n".intercalate texts)).filter (! isBlankLine ·) := by
  unfold BoundIndicator.code Snippet.render at h
  obtain ⟨texts, htexts, h⟩ := exists_of_bind_ok h
  cases h
  exact ⟨texts, (mapM_eq_ok_iff _ _ _).mp htexts, rfl⟩

/-! ## Lines of the code -/

/-- A line is a piece of the text, with no break in it. -/
theorem mem_linesFrom {line : List Char} {done : List String} {l : String}
    (hline : ∀ c ∈ line, Text.isLineBreak c = false) (h : l ∈ Text.linesFrom line done cs) :
    l ∈ done ∨ (l.toList <:+: line.reverse ++ cs ∧ ∀ c ∈ l.toList, Text.isLineBreak c = false) := by
  -- A line that ends here is done; the induction is on what is still to be read.
  have hend (tail rest : List Char) {done : List String} {line cs : List Char}
      (hline : ∀ c ∈ line, Text.isLineBreak c = false) (hrest : cs = tail ++ rest)
      (h : l ∈ String.ofList line.reverse :: done ∨
        (l.toList <:+: [] ++ rest ∧ ∀ c ∈ l.toList, Text.isLineBreak c = false)) :
      l ∈ done ∨
        (l.toList <:+: line.reverse ++ cs ∧ ∀ c ∈ l.toList, Text.isLineBreak c = false) := by
    rcases h with h | ⟨hpiece, hbreak⟩
    · rcases List.mem_cons.mp h with rfl | h
      · refine .inr ⟨?_, by simpa using hline⟩
        rw [String.toList_ofList]
        exact (List.prefix_append _ _).isInfix
      · exact .inl h
    · refine .inr ⟨hpiece.trans ?_, hbreak⟩
      rw [hrest, List.nil_append, ← List.append_assoc]
      exact (List.suffix_append _ _).isInfix
  fun_induction Text.linesFrom line done cs with
  | case1 line done =>
    rw [List.mem_reverse] at h
    split at h
    · exact .inl h
    · exact hend [] [] hline rfl (.inl h)
  | case2 line done rest ih => exact hend ['\r', '\n'] rest hline rfl (ih (by simp) h)
  | case3 line done c rest _ _ ih => exact hend [c] rest hline rfl (ih (by simp) h)
  | case4 line done c rest _ hc ih =>
    have hkept : ∀ d ∈ c :: line, Text.isLineBreak d = false :=
      List.forall_mem_cons.mpr ⟨by simpa using hc, hline⟩
    simpa using ih hkept h

theorem mem_lines {s l : String} (h : l ∈ Text.lines s) :
    l.toList <:+: s.toList ∧ ∀ c ∈ l.toList, Text.isLineBreak c = false := by
  simpa using mem_linesFrom (by simp) h

theorem bland_of_piece {xs ys : List Char} (h : xs <:+: ys) (hys : bland ys = true) :
    bland xs = true := by
  obtain ⟨before, after, rfl⟩ := h
  exact (bland_of_append (bland_of_append hys).1).2

/-- What holds of texts, of a line feed and of all that is put together from them, holds of texts
one below the other. -/
theorem of_intercalate {P : List Char → Prop} {texts : List String} (hnil : P []) (hfeed : P ['\n'])
    (happend : ∀ xs ys, P xs → P ys → P (xs ++ ys)) (h : ∀ text ∈ texts, P text.toList) :
    P ("\n".intercalate texts).toList := by
  induction texts with
  | nil => exact hnil
  | cons text rest ih =>
    obtain ⟨htext, hrest⟩ := List.forall_mem_cons.mp h
    cases rest with
    | nil => simpa using htext
    | cons next rest =>
      rw [String.intercalate_cons_cons, String.toList_append, String.toList_append]
      exact happend _ _ (happend _ _ htext hfeed) (ih hrest)

theorem framed_intercalate {texts : List String} (h : ∀ text ∈ texts, Framed text.toList) :
    Framed ("\n".intercalate texts).toList :=
  of_intercalate ⟨rfl, rfl⟩ (framed_of_quiet (by decide)) (fun _ _ => Framed.append) h

/-- **The lines of a sound indicator hold no escapes and no comments.** -/
theorem BoundIndicator.Sound.code_bland (hi : i.Sound) {lines : List String}
    (h : i.code = .ok lines) : ∀ line ∈ lines, bland line.toList = true ∧ '\r' ∉ line.toList := by
  obtain ⟨texts, htexts, rfl⟩ := i.code_eq_ok h
  have hspec := hi.spec
  simp only [IndicatorSpec.isSound, Bool.and_eq_true, List.all_eq_true] at hspec
  have hframed : ∀ text ∈ texts, Framed text.toList := by
    intro text htext
    obtain ⟨line, hline, hrender⟩ := exists_of_forall₂ htexts.flip htext
    exact Line.render_framed hi (hspec.2 line hline) hrender
  intro line hline
  obtain ⟨hpiece, hbreak⟩ := mem_lines (List.mem_filter.mp hline).1
  refine ⟨bland_of_piece hpiece (framed_intercalate hframed).bland, fun hreturn => ?_⟩
  exact absurd (hbreak _ hreturn) (by decide)

end Stratagem
