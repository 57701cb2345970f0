import Stratagem.Proofs.Indicator.Lines

/-! The libraries that the code of an indicator calls. A call is told by its text: the name of the
library with a point behind it, and nothing before it that would make the name longer. A built-in
type lists a library among its imports exactly if the code of each of its indicators calls it. -/

namespace Stratagem

namespace Text

variable {cs : List Char}

/-- The text calls a function of a library. -/
def Calls (library text : String) : Prop :=
  ∃ before after, text.toList = before ++ library.toList ++ '.' :: after ∧
    ∀ c ∈ before.getLast?, Script.nameChar c = false

/-! ## Texts without calls -/

/-- Something else than a point stands behind the letter, wherever the letter is. -/
def keepsApart (letter : Char) : List Char → Bool
  | [] => true
  | c :: rest => (c != letter || rest.head?.any (· != '.')) && keepsApart letter rest

variable {letter : Char}

theorem keepsApart_append {xs ys : List Char} (hx : keepsApart letter xs = true)
    (hy : keepsApart letter ys = true) : keepsApart letter (xs ++ ys) = true := by
  induction xs with
  | nil => exact hy
  | cons c rest ih =>
    simp only [keepsApart, Bool.and_eq_true, Bool.or_eq_true, List.cons_append] at hx ⊢
    refine ⟨hx.1.imp_right fun hnext => ?_, ih hx.2⟩
    cases rest with
    | nil => cases hnext
    | cons d rest => exact hnext

theorem keepsApart_flatten {parts : List (List Char)}
    (h : ∀ cs ∈ parts, keepsApart letter cs = true) : keepsApart letter parts.flatten = true := by
  induction parts with
  | nil => rfl
  | cons cs rest ih =>
    obtain ⟨hcs, hrest⟩ := List.forall_mem_cons.mp h
    exact keepsApart_append hcs (ih hrest)

theorem keepsApart_of_notMem (h : letter ∉ cs) : keepsApart letter cs = true := by
  induction cs with
  | nil => rfl
  | cons c rest ih =>
    obtain ⟨hc, hrest⟩ := not_or.mp (List.mem_cons.not.mp h)
    simp [keepsApart, ih hrest, Ne.symm hc]

/-- A text without points that ends in something else. -/
theorem keepsApart_of_pointless (h : '.' ∉ cs) {last : Char} (hlast : last ≠ letter)
    (hpoint : last ≠ '.') : keepsApart letter (cs ++ [last]) = true := by
  induction cs with
  | nil => simp [keepsApart, hlast]
  | cons c rest ih =>
    obtain ⟨-, hrest⟩ := not_or.mp (List.mem_cons.not.mp h)
    have hnext : rest.head?.getD last ≠ '.' := by
      cases rest with
      | nil => exact hpoint
      | cons d rest => exact fun hd => hrest (hd ▸ List.mem_cons_self)
    simp [keepsApart, ih hrest, hnext]

theorem not_keepsApart (xs ys : List Char) :
    keepsApart letter (xs ++ letter :: '.' :: ys) = false := by
  induction xs with
  | nil => simp [keepsApart]
  | cons c rest ih => simp [keepsApart, ih]

/-- A part of a text that keeps the last letter of a library apart does not call it. -/
theorem not_calls_of_keepsApart {library : String} (hletter : letter ∈ library.toList.getLast?)
    (h : keepsApart letter cs = true) {text : String} (htext : text.toList <:+: cs) :
    ¬ Calls library text := by
  rintro ⟨before, after, hcall, -⟩
  obtain ⟨first, last, rfl⟩ := htext
  have hsplit : first ++ text.toList ++ last =
      (first ++ before ++ library.toList.dropLast) ++ letter :: '.' :: (after ++ last) := by
    rw [hcall, ← List.dropLast_append_getLast? letter hletter]
    simp
  rw [hsplit, not_keepsApart] at h
  cases h

/-! ## Words of a text -/

/-- A word without line breaks that stands in a text stands in one of its lines. -/
theorem exists_line_of_infix {word : List Char} (hne : word ≠ [])
    (hword : ∀ c ∈ word, isLineBreak c = false) {text : String} (h : word <:+: text.toList) :
    ∃ line ∈ lines text, word <:+: line.toList := by
  have hbreak {c : Char} (hc : isLineBreak c = true) : c ∉ word := by
    intro hmem
    rw [hword c hmem] at hc
    cases hc
  -- A line that ends here holds the word, or else the rest of the text does.
  have hend {line rest : List Char} {done : List String} {c : Char} (hc : isLineBreak c = true)
      (ih : word <:+: [].reverse ++ rest →
        ∃ l ∈ linesFrom [] (String.ofList line.reverse :: done) rest, word <:+: l.toList)
      (h : word <:+: line.reverse ++ c :: rest) :
      ∃ l ∈ linesFrom [] (String.ofList line.reverse :: done) rest, word <:+: l.toList := by
    rcases infix_of_infix_append_cons h (hbreak hc) with h | h
    · have hdone := linesFrom_append [] [] (String.ofList line.reverse :: done) rest
      rw [List.nil_append] at hdone
      exact ⟨String.ofList line.reverse, by simp [hdone], by simpa using h⟩
    · exact ih h
  have hfrom (line : List Char) (done : List String) (cs : List Char)
      (h : word <:+: line.reverse ++ cs) : ∃ l ∈ linesFrom line done cs, word <:+: l.toList := by
    fun_induction linesFrom line done cs with
    | case1 line done =>
      have hline : line ≠ [] := by
        rintro rfl
        exact hne (by simpa using h)
      exact ⟨String.ofList line.reverse, by simp [hline], by simpa using h⟩
    | case2 line done rest ih =>
      refine hend (c := '\n') (by decide) ih ?_
      rcases infix_of_infix_append_cons h (hbreak (by decide)) with h | h
      · exact List.infix_append_of_infix_left h
      · exact List.infix_append_of_infix_right h
    | case3 line done c rest _ hc ih => exact hend hc ih h
    | case4 line done c rest _ _ ih => exact ih (by simpa using h)
  exact hfrom [] [] text.toList h

end Text

/-! ## Types that list what they call -/

/-- The optional libraries: how the imports list them, and the name that code calls them by. -/
def libraries : List (String × String) := [("talib", "ta"), ("qtpylib", "qtpylib")]

/-- The line assigns what a function of the library returns. -/
def Line.opensWith (library : String) : Line → Bool
  | .assign _ (.text s :: _) => (library.toList ++ ['.']).isPrefixOf s.toList
  | _ => false

def Piece.keepsApart (letter : Char) : Piece → Bool
  | .text s => Text.keepsApart letter s.toList
  | _ => true

def Line.keepsApart (letter : Char) : Line → Bool
  | .assign _ value => value.all (Piece.keepsApart letter)
  | .free _ => false

/-- The type lists the library if a line of it starts with a call, and else no line has one. -/
def IndicatorSpec.declares (spec : IndicatorSpec) (library : String × String) : Bool :=
  if spec.imports.contains library.1 then spec.snippet.any (Line.opensWith library.2)
  else spec.snippet.all (Line.keepsApart (library.2.toList.getLastD ' '))

theorem Builtin.specs_declare :
    ∀ spec ∈ specs, ∀ library ∈ libraries, spec.declares library = true := by
  decide +kernel

/-- A built-in type lists no other library. -/
theorem Builtin.specs_imports :
    ∀ spec ∈ specs, ∀ x ∈ spec.imports, x ∈ libraries.map Prod.fst := by
  decide

/-! ## Lines without calls -/

/-- No column, helper, number or mark between them ends in this letter. -/
def isRare (letter : Char) : Bool :=
  !Text.isNumeral letter && !(['\n', ' ', ']'].contains letter) &&
    helperSuffixes.all fun s => s.toList.getLast?.any (· != letter)

theorem libraries_isRare : ∀ library ∈ libraries,
    library.2.toList.getLast? = some (library.2.toList.getLastD ' ') ∧
      isRare (library.2.toList.getLastD ' ') = true := by
  decide

theorem ParamSpec.isNumeral_of_fits {p : ParamSpec} {s : Scalar} (h : p.fits s = true)
    (hkind : p.kind ≠ .text) : ∀ c ∈ s.toValue.plain.toList, Text.isNumeral c = true := by
  cases s with
  | int n => exact Text.isNumeral_intText n
  | float x => exact Text.isNumeral_float (Bool.and_eq_true_iff.mp h).2
  | text w => exact absurd (by simpa using (Bool.and_eq_true_iff.mp h).1) hkind
  | null => cases h
  | bool b => cases h

theorem point_notMem_of_nameChar {cs : List Char} (h : ∀ c ∈ cs, Script.nameChar c = true) :
    '.' ∉ cs := fun hmem => absurd (h '.' hmem) (by decide)

theorem point_notMem_id {id : String} (h : isIndicatorId id = true) : '.' ∉ id.toList := by
  intro hmem
  rcases (mem_indicatorId h).2 '.' hmem with hname | hfeed
  · exact absurd hname (by decide)
  · exact absurd hfeed (by decide)

section

variable {i : BoundIndicator} {letter : Char} {text : String}

theorem keepsApart_mark (hletter : isRare letter = true) {cs : List Char} (h : '.' ∉ cs)
    {last : Char} (hlast : last ∈ ['\n', ' ', ']']) :
    Text.keepsApart letter (cs ++ [last]) = true := by
  refine Text.keepsApart_of_pointless h ?_ ?_
  · rintro rfl
    simp only [isRare, List.contains_iff_mem.mpr hlast] at hletter
    simp at hletter
  · rintro rfl
    exact absurd hlast (by decide)

theorem keepsApart_columnAccess (hletter : isRare letter = true) {column : String}
    (h : '.' ∉ column.toList) : Text.keepsApart letter (columnAccess column).toList = true := by
  have hsplit : (columnAccess column).toList =
      (tableName.toList ++ "['".toList ++ column.toList ++ ['\'']) ++ [']'] := by
    simp [columnAccess]
  rw [hsplit]
  exact keepsApart_mark hletter (by simp [tableName, h]) (by decide)

theorem keepsApart_output (hletter : isRare letter = true) (hi : i.Sound) {output : String}
    (houtput : output ∈ i.spec.outputs) :
    Text.keepsApart letter (columnAccess (columnName i.id output)).toList = true := by
  refine keepsApart_columnAccess hletter ?_
  have hid := point_notMem_id hi.id
  unfold columnName
  split
  · exact hid
  · simp [hid, point_notMem_of_nameChar (hi.outputs houtput)]

theorem keepsApart_helperName (hletter : isRare letter = true) (hi : i.Sound) {suffix : String}
    (hsuffix : suffix ∈ helperSuffixes) :
    Text.keepsApart letter (helperName i.id suffix).toList = true := by
  have hchars : ∀ s ∈ helperSuffixes, '.' ∉ s.toList := by decide
  simp only [isRare, Bool.and_eq_true, List.all_eq_true] at hletter
  obtain ⟨last, hlast, hne⟩ := (Option.any_eq_true _ _).mp (hletter.2 suffix hsuffix)
  have hsplit : (helperName i.id suffix).toList =
      (i.id.toList ++ "_".toList ++ suffix.toList.dropLast) ++ [last] := by
    rw [List.append_assoc, List.dropLast_append_getLast? last hlast]
    simp [helperName]
  rw [hsplit]
  refine Text.keepsApart_of_pointless ?_ (by simpa using hne) ?_
  · have hdrop : '.' ∉ suffix.toList.dropLast :=
      fun hmem => hchars suffix hsuffix (List.mem_of_mem_dropLast hmem)
    simp [point_notMem_id hi.id, hdrop]
  · rintro rfl
    exact hchars suffix hsuffix (List.mem_of_getLast? hlast)

theorem keepsApart_number (hletter : isRare letter = true)
    (h : ∀ c ∈ text.toList, Text.isNumeral c = true) :
    Text.keepsApart letter text.toList = true := by
  refine Text.keepsApart_of_notMem fun hmem => ?_
  simp [isRare, h letter hmem] at hletter

theorem Piece.render_keepsApart (hletter : isRare letter = true) (hi : i.Sound) {p : Piece}
    (hsound : p.isSound i.spec = true) (hp : p.keepsApart letter = true)
    (h : p.render i.id i.params = .ok text) : Text.keepsApart letter text.toList = true := by
  have hmarket : ∀ w ∈ marketColumns, '.' ∉ w.toList := by decide
  cases Piece.renders_of_render hi hsound h with
  | text s => exact hp
  | output houtput => exact keepsApart_output hletter hi houtput
  | market hname | source _ hname => exact keepsApart_columnAccess hletter (hmarket _ hname)
  | helper hsuffix => exact keepsApart_helperName hletter hi hsuffix
  | number _ _ hfits hkind =>
    exact keepsApart_number hletter (ParamSpec.isNumeral_of_fits hfits hkind)

theorem Line.render_keepsApart (hletter : isRare letter = true) (hi : i.Sound) {line : Line}
    (hsound : line.isSound i.spec = true) (hline : line.keepsApart letter = true)
    (h : line.render i.id i.params = .ok text) : Text.keepsApart letter text.toList = true := by
  obtain ⟨target, value, parts, rfl, htarget, hvalue, hparts, rfl⟩ := Line.render_eq_ok hsound h
  have hjoin : Text.keepsApart letter (String.join parts).toList = true := by
    rw [String.toList_join, List.flatMap_def]
    refine Text.keepsApart_flatten fun cs hcs => ?_
    obtain ⟨part, hpart, rfl⟩ := List.mem_map.mp hcs
    obtain ⟨p, hp, hrender⟩ := exists_of_forall₂ hparts.flip hpart
    exact Piece.render_keepsApart hletter hi (hvalue p hp) (List.all_eq_true.mp hline p hp) hrender
  have hrender : Text.keepsApart letter (target.render i.id).toList = true := by
    cases target with
    | column output => exact keepsApart_output hletter hi (by simpa [Target.isSound] using htarget)
    | helper suffix =>
      exact keepsApart_helperName hletter hi (by simpa [Target.isSound] using htarget)
  have hequals : Text.keepsApart letter " = ".toList = true :=
    keepsApart_mark hletter (show '.' ∉ [' ', '='] by decide) (by decide)
  rw [String.toList_append, String.toList_append]
  exact Text.keepsApart_append (Text.keepsApart_append hrender hequals) hjoin

theorem keepsApart_intercalate (hletter : isRare letter = true) {texts : List String}
    (h : ∀ text ∈ texts, Text.keepsApart letter text.toList = true) :
    Text.keepsApart letter ("\n".intercalate texts).toList = true := by
  have hfeed : Text.keepsApart letter ['\n'] = true :=
    keepsApart_mark hletter (show '.' ∉ [] by decide) (by decide)
  exact of_intercalate (P := fun cs => Text.keepsApart letter cs = true) rfl hfeed
    (fun _ _ => Text.keepsApart_append) h

end

/-! ## The code of an indicator -/

theorem Text.infix_intercalate {texts : List String} {text : String} (h : text ∈ texts) :
    text.toList <:+: ("\n".intercalate texts).toList := by
  induction texts with
  | nil => cases h
  | cons t texts ih =>
    cases texts with
    | nil =>
      obtain rfl := List.mem_singleton.mp h
      simp
    | cons next texts =>
      rw [String.intercalate_cons_cons, String.toList_append, String.toList_append]
      rcases List.mem_cons.mp h with rfl | h
      · exact List.infix_append_of_infix_left List.infix_append_left
      · exact List.infix_append_of_infix_right (ih h)

/-- A line that starts with a call is written with a space before the call. -/
theorem Line.render_opensWith {i : BoundIndicator} {library : String} {line : Line}
    (hsound : line.isSound i.spec = true) (hline : line.opensWith library = true) {text : String}
    (h : line.render i.id i.params = .ok text) :
    ' ' :: (library.toList ++ ['.']) <:+: text.toList := by
  obtain ⟨target, value, parts, rfl, -, -, hparts, rfl⟩ := Line.render_eq_ok hsound h
  unfold opensWith at hline
  split at hline
  · next s rest heq =>
    cases heq
    cases hparts with
    | @cons _ part _ parts hpart _ =>
      cases hpart
      obtain ⟨more, hmore⟩ := List.isPrefixOf_iff_prefix.mp hline
      refine ⟨(target.render i.id).toList ++ " =".toList, more ++ (String.join parts).toList, ?_⟩
      simp [← hmore]
  · cases hline

theorem Text.calls_of_infix {library line : String}
    (h : ' ' :: (library.toList ++ ['.']) <:+: line.toList) : Text.Calls library line := by
  obtain ⟨before, after, hline⟩ := h
  refine ⟨before ++ [' '], after, by simp [← hline], ?_⟩
  simp only [List.getLast?_concat, Option.mem_def, Option.some.injEq, forall_eq']
  decide

/-- **A type lists a library exactly if the code of its indicators calls it.** -/
theorem BoundIndicator.calls_iff {i : BoundIndicator} (hi : i.Sound) {library : String × String}
    (hlibrary : library ∈ libraries) (hspec : i.spec.declares library = true) {lines : List String}
    (h : i.code = .ok lines) :
    (∃ line ∈ lines, Text.Calls library.2 line) ↔ library.1 ∈ i.spec.imports := by
  obtain ⟨texts, htexts, rfl⟩ := i.code_eq_ok h
  obtain ⟨hlast, hrare⟩ := libraries_isRare library hlibrary
  have hsound := hi.spec
  simp only [IndicatorSpec.isSound, Bool.and_eq_true, List.all_eq_true] at hsound
  unfold IndicatorSpec.declares at hspec
  split at hspec
  · next himports =>
    refine iff_of_true ?_ (List.contains_iff_mem.mp himports)
    obtain ⟨line, hline, hopens⟩ := List.any_eq_true.mp hspec
    obtain ⟨text, htext, hrender⟩ := exists_of_forall₂ htexts hline
    have hcall := (Line.render_opensWith (hsound.2 line hline) hopens hrender).trans
      (Text.infix_intercalate htext)
    have hword : ∀ l ∈ libraries, ∀ c ∈ ' ' :: (l.2.toList ++ ['.']),
        Text.isLineBreak c = false := by decide
    obtain ⟨l, hl, hinfix⟩ :=
      Text.exists_line_of_infix (List.cons_ne_nil _ _) (hword library hlibrary) hcall
    have hpoint : '.' ∈ l.toList := hinfix.subset (by simp)
    refine ⟨l, List.mem_filter.mpr ⟨hl, ?_⟩, Text.calls_of_infix hinfix⟩
    simp [isBlankLine_of_mem hpoint (by decide)]
  · next himports =>
    refine iff_of_false ?_ fun hmem => himports (List.contains_iff_mem.mpr hmem)
    rintro ⟨l, hl, hcalls⟩
    have hapart := keepsApart_intercalate hrare fun text htext => by
      obtain ⟨line, hline, hrender⟩ := exists_of_forall₂ htexts.flip htext
      exact Line.render_keepsApart hrare hi (hsound.2 line hline)
        (List.all_eq_true.mp hspec line hline) hrender
    exact Text.not_calls_of_keepsApart hlast hapart (mem_lines (List.mem_filter.mp hl).1).1 hcalls

end Stratagem
