import Stratagem.Proofs.Indicator.Assignments

/-! Names and columns of the code of one indicator. A type is scoped if each of its lines reads
helpers only below the lines that assign them and each of its outputs is assigned by one line; this
is checked for each built-in type by running the check. What holds of the pieces of a scoped type
holds of the lines as they are written. -/

namespace Stratagem

open Script

variable {known texts : List String} {v : String} {lines : List Line}

/-- What code finds without assigning it: the table and the libraries. -/
def globals : List String := [tableName, "ta", "qtpylib"]

/-! ## Scoped types -/

/-- The piece reads nothing but globals and helpers of the known suffixes. -/
def Piece.isScoped (known : List String) : Piece → Bool
  | .text s => (namesRead ((lex s.toList).getD [])).all (globals.contains ·)
  | .helper suffix => known.contains suffix
  | _ => true

def Target.suffix? : Target → Option String
  | .helper suffix => some suffix
  | .column _ => none

def Line.output? : Line → Option String
  | .assign (.column output) _ => some output
  | _ => none

/-- The lines can be read, and a helper is read only below a line that assigns it; `known` are the
helpers of the lines above. -/
def Line.areScoped (known : List String) : List Line → Bool
  | [] => true
  | .assign target value :: rest =>
    Piece.linked (Piece.merged value) && (Piece.merged value).all (Piece.isScoped known) &&
      areScoped (target.suffix?.toList ++ known) rest
  | .free _ :: _ => false

/-- Helpers are read below their lines, and the columns that are assigned are the outputs. -/
def IndicatorSpec.isScoped (spec : IndicatorSpec) : Bool :=
  Line.areScoped [] spec.snippet && spec.snippet.filterMap Line.output? == spec.outputs &&
    spec.outputs.eraseDups == spec.outputs && !spec.outputs.isEmpty

theorem Builtin.specs_isScoped : ∀ spec ∈ specs, spec.isScoped = true := by decide +kernel

theorem Registry.bind_isScoped {declarations : List IndicatorDeclaration} {b : Binding}
    (h : Registry.builtin.bind declarations = .ok b) :
    ∀ i ∈ b.indicators, i.spec.isScoped = true := bind_specs Builtin.specs_isScoped h

/-- A scoped indicator: a sound one of a scoped type, with a name for its id. -/
structure BoundIndicator.Scoped (i : BoundIndicator) : Prop extends i.Sound where
  inScope : i.spec.isScoped = true
  named : isName i.id.toList = true

variable {i : BoundIndicator}

/-! ## Names -/

theorem Piece.mem_namesRead (hi : i.Sound) {p : Piece}
    (hsound : p.isText = true ∨ p.isSound i.spec = true) (hscoped : p.isScoped known = true)
    (hv : v ∈ namesRead (p.tokens i)) :
    v ∈ globals ∨ ∃ suffix ∈ known, v = helperName i.id suffix := by
  have htable {column : String} (hv : v ∈ namesRead (Code.subscriptTokens tableName column)) :
      v ∈ globals := by
    rw [namesRead_column, List.mem_singleton] at hv
    simp [globals, hv]
  have hnumber {name : String} (hname : (Piece.param name).isSound i.spec = true)
      (hv : v ∈ namesRead (((i.params.lookup name).map Scalar.tokens).getD [])) : v ∈ globals := by
    cases hs : i.params.lookup name with
    | none => simp [hs, namesRead, namesFrom] at hv
    | some s =>
      obtain ⟨-, hnames⟩ := hi.number hname hs
      rw [hs, Option.map_some, Option.getD_some, namesRead_of_no_name fun w => (hnames w).2] at hv
      cases hv
  cases p with
  | text s =>
    have hall := List.all_eq_true.mp hscoped v hv
    exact .inl (by simpa using hall)
  | id => simp [isText, isSound] at hsound
  | column output => exact .inl (htable hv)
  | market name => exact .inl (htable hv)
  | helper suffix =>
    have hname : v = helperName i.id suffix := by simpa [tokens, namesRead, namesFrom] using hv
    exact .inr ⟨suffix, by simpa [isScoped] using hscoped, hname⟩
  | param name | literal name => exact .inl (hnumber (hsound.resolve_left (by simp [isText])) hv)
  | paramColumn name =>
    simp only [tokens] at hv
    split at hv
    · exact .inl (htable hv)
    · cases hv

/-- What a line with known helpers above it reads. -/
theorem Piece.reads_value (hi : i.Sound) {value : List Piece}
    (hsound : ∀ p ∈ value, p.isSound i.spec = true)
    (hscoped : (merged value).all (Piece.isScoped known) = true)
    (hv : v ∈ namesRead (valueTokens i value)) :
    v ∈ globals ∨ ∃ suffix ∈ known, v = helperName i.id suffix := by
  obtain ⟨p, hp, hv⟩ := namesRead_flatMap hv
  exact mem_namesRead hi ((mem_merged hp).imp_right (hsound p))
    (List.all_eq_true.mp hscoped p hp) hv

/-! ## Lines -/

/-- The text of a sound line assigns the target of the line, and its value is that of the line. -/
def BoundIndicator.Writes (i : BoundIndicator) (line : Line) (text : String) : Prop :=
  ∃ target value, line = .assign target value ∧ line.isSound i.spec = true ∧
    assigns text = some (target.place i.id, Piece.valueTokens i value)

theorem BoundIndicator.writes_lines (hi : i.Sound) (hid : isName i.id.toList = true)
    (hsound : ∀ line ∈ lines, line.isSound i.spec = true)
    (hscoped : Line.areScoped known lines = true)
    (h : List.Forall₂ (fun line text => Line.render i.id i.params line = .ok text) lines texts) :
    List.Forall₂ i.Writes lines texts := by
  induction h generalizing known with
  | nil => exact .nil
  | @cons line text rest texts hline _ ih =>
    obtain ⟨hlinesound, hrest⟩ := List.forall_mem_cons.mp hsound
    cases line with
    | free pieces => cases hscoped
    | assign target value =>
      simp only [Line.areScoped, Bool.and_eq_true] at hscoped
      exact .cons ⟨target, value, rfl, hlinesound,
        Line.assigns_eq hi hid hlinesound hscoped.1.1 hline⟩ (ih hrest hscoped.2)

/-- The column that a line of code assigns, if it assigns one. -/
def assignedColumn? (line : String) : Option String :=
  match assigned? line with
  | some (.column c) => some c
  | _ => none

theorem BoundIndicator.columns_of_writes (h : List.Forall₂ i.Writes lines texts) :
    texts.filterMap assignedColumn? = (lines.filterMap Line.output?).map (columnName i.id) := by
  induction h with
  | nil => rfl
  | @cons line text rest texts hline _ ih =>
    obtain ⟨target, value, rfl, -, hassigns⟩ := hline
    have htext : assigned? text = some (target.place i.id) := by simp [assigned?, hassigns]
    cases target with
    | column output =>
      rw [List.filterMap_cons_some (by simp [assignedColumn?, htext, Target.place]; rfl),
        List.filterMap_cons_some (by rfl), List.map_cons, ih]
    | helper suffix =>
      rw [List.filterMap_cons_none (by simp [assignedColumn?, htext, Target.place]),
        List.filterMap_cons_none (by rfl), ih]

/-- A line assigns a column or one of the helpers of its indicator. -/
theorem BoundIndicator.Writes.helper {line : Line} {text : String} (h : i.Writes line text)
    (hv : assigned? text = some (.name v)) :
    ∃ suffix ∈ helperSuffixes, v = helperName i.id suffix := by
  obtain ⟨target, value, rfl, hsound, hassigns⟩ := h
  simp only [assigned?, hassigns, Option.map_some, Option.some.injEq] at hv
  cases target with
  | column output => cases hv
  | helper suffix =>
    cases hv
    simp only [Line.isSound, Target.isSound, Bool.and_eq_true] at hsound
    exact ⟨suffix, by simpa using hsound.1, rfl⟩

/-- **A helper is read below a line that assigns it.** The induction carries the helpers that are
known so far and the lines that assign them. -/
theorem BoundIndicator.reads_above (hi : i.Sound) (h : List.Forall₂ i.Writes lines texts)
    (hscoped : Line.areScoped known lines = true) {earlier : List String}
    (hknown : ∀ suffix ∈ known, suffix ∈ helperSuffixes ∧
      ∃ l ∈ earlier, assigned? l = some (.name (helperName i.id suffix)))
    {above below : List String} {text : String} (htexts : texts = above ++ text :: below) :
    ∃ place value, assigns text = some (place, value) ∧ ∀ v ∈ namesRead value, v ∈ globals ∨
      ∃ suffix ∈ helperSuffixes, v = helperName i.id suffix ∧
        ∃ l ∈ earlier ++ above, assigned? l = some (.name v) := by
  induction h generalizing known earlier above with
  | nil => simp at htexts
  | @cons line first rest texts hline _ ih =>
    obtain ⟨target, value, rfl, hsound, hassigns⟩ := hline
    simp only [Line.isSound, Bool.and_eq_true, List.all_eq_true] at hsound
    obtain ⟨htarget, hvalue⟩ := hsound
    simp only [Line.areScoped, Bool.and_eq_true] at hscoped
    obtain ⟨⟨-, hpieces⟩, hrest⟩ := hscoped
    cases above with
    | nil =>
      obtain ⟨rfl, -⟩ := List.cons.inj htexts
      refine ⟨_, _, hassigns, fun v hv => ?_⟩
      refine (Piece.reads_value hi hvalue hpieces hv).imp_right ?_
      rintro ⟨suffix, hmem, rfl⟩
      obtain ⟨hsuffix, l, hl, hassigned⟩ := hknown suffix hmem
      exact ⟨suffix, hsuffix, rfl, l, by simp [hl], hassigned⟩
    | cons l above =>
      obtain ⟨rfl, hsplit⟩ := List.cons.inj htexts
      have hassigned : assigned? first = some (target.place i.id) := by simp [assigned?, hassigns]
      have hmore : ∀ suffix ∈ target.suffix?.toList ++ known, suffix ∈ helperSuffixes ∧
          ∃ l ∈ earlier ++ [first], assigned? l = some (.name (helperName i.id suffix)) := by
        intro suffix hmem
        rcases List.mem_append.mp hmem with hmem | hmem
        · cases target with
          | column output => cases hmem
          | helper own =>
            obtain rfl : suffix = own := by simpa [Target.suffix?] using hmem
            exact ⟨by simpa [Target.isSound] using htarget, first, by simp, hassigned⟩
        · obtain ⟨hsuffix, l, hl, hassigned⟩ := hknown suffix hmem
          exact ⟨hsuffix, l, by simp [hl], hassigned⟩
      obtain ⟨place, value, hplace, hreads⟩ := ih hrest hmore hsplit
      exact ⟨place, value, hplace, by simpa using hreads⟩

end Stratagem
