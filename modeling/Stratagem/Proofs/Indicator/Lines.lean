import Stratagem.Proofs.Indicator.Scopes

/-! The code of an indicator line by line. Where the id is a name, the lines of the code are those
of the snippet. Where it ends in a line feed, a line stops within the quotes of a column, and the
scanner finds a fault there. -/

namespace Stratagem

namespace Text

/-! ## Texts of several lines -/

/-- Lines that are done stay done. -/
theorem linesFrom_append (line : List Char) (done earlier : List String) (cs : List Char) :
    linesFrom line (done ++ earlier) cs = earlier.reverse ++ linesFrom line done cs := by
  fun_induction linesFrom line done cs with
  | case1 line done => cases line <;> simp [linesFrom]
  | case2 line done rest ih =>
    rw [linesFrom.eq_2]
    exact ih
  | case3 line done c rest hpair hc ih =>
    rw [linesFrom.eq_3 _ _ _ _ hpair, if_pos hc]
    exact ih
  | case4 line done c rest hpair hc ih =>
    rw [linesFrom.eq_3 _ _ _ _ hpair, if_neg hc]
    exact ih

/-- A line feed ends what is before it, whatever that is. -/
theorem linesFrom_feed (line : List Char) (done : List String) (xs ys : List Char) :
    linesFrom line done (xs ++ '\n' :: ys) =
      linesFrom line done (xs ++ ['\n']) ++ linesFrom [] [] ys := by
  have hend (done : List String) :
      linesFrom [] done ys = linesFrom [] done [] ++ linesFrom [] [] ys := by
    simpa [linesFrom] using linesFrom_append [] [] done ys
  -- A carriage return right before the line feed is the one case in which the two are one break.
  have hpairs {c : Char} {rest : List Char}
      (hpair : ∀ more, c = '\r' → rest = '\n' :: more → False) (hlast : ¬ (c = '\r' ∧ rest = []))
      (zs : List Char) : ∀ more, c = '\r' → rest ++ '\n' :: zs = '\n' :: more → False := by
    rintro more rfl hmore
    cases rest with
    | nil => exact hlast ⟨rfl, rfl⟩
    | cons d rest => exact hpair rest rfl (by rw [(List.cons.inj hmore).1])
  fun_induction linesFrom line done xs with
  | case1 line done =>
    rw [List.nil_append, List.nil_append, linesFrom.eq_3 _ _ _ _ (by simp),
      linesFrom.eq_3 _ _ _ _ (by simp), if_pos (by decide), if_pos (by decide)]
    exact hend _
  | case2 line done rest ih =>
    simp only [List.cons_append, linesFrom.eq_2]
    exact ih
  | case3 line done c rest hpair hc ih =>
    by_cases hlast : c = '\r' ∧ rest = []
    · obtain ⟨rfl, rfl⟩ := hlast
      exact hend _
    · rw [List.cons_append, List.cons_append, linesFrom.eq_3 _ _ _ _ (hpairs hpair hlast _),
        linesFrom.eq_3 _ _ _ _ (hpairs hpair hlast _), if_pos hc, if_pos hc]
      exact ih
  | case4 line done c rest hpair hc ih =>
    have hlast : ¬ (c = '\r' ∧ rest = []) := by
      rintro ⟨rfl, -⟩
      exact hc (by decide)
    rw [List.cons_append, List.cons_append, linesFrom.eq_3 _ _ _ _ (hpairs hpair hlast _),
      linesFrom.eq_3 _ _ _ _ (hpairs hpair hlast _), if_neg hc, if_neg hc]
    exact ih

theorem lines_feed (a b : String) : lines (a ++ "\n" ++ b) = lines (a ++ "\n") ++ lines b := by
  simpa [lines] using linesFrom_feed [] [] a.toList b.toList

theorem linesFrom_inline {xs : List Char} (h : ∀ c ∈ xs, Script.isInline c = true)
    (line : List Char) (done : List String) (ys : List Char) :
    linesFrom line done (xs ++ ys) = linesFrom (xs.reverse ++ line) done ys := by
  induction xs generalizing line with
  | nil => rfl
  | cons c xs ih =>
    obtain ⟨hc, hxs⟩ := List.forall_mem_cons.mp h
    have hne : c ≠ '\r' := by rintro rfl; exact absurd hc (by decide)
    have hbreak : ¬ isLineBreak c = true := by simpa [Script.isInline] using hc
    rw [List.cons_append, linesFrom.eq_3 _ _ _ _ (fun _ hc => absurd hc hne), if_neg hbreak, ih hxs]
    simp

theorem lines_inline_feed {t : String} (h : ∀ c ∈ t.toList, Script.isInline c = true) :
    lines (t ++ "\n") = [t] := by
  rw [lines, String.toList_append, linesFrom_inline h]
  simp [linesFrom, isLineBreak, inRanges, lineBreaks]

theorem lines_inline {t : String} (hne : t ≠ "") (h : ∀ c ∈ t.toList, Script.isInline c = true) :
    lines t = [t] := by
  have hlist := linesFrom_inline h [] [] []
  have hnil : t.toList ≠ [] := by simpa using hne
  rw [List.append_nil, List.append_nil] at hlist
  rw [lines, hlist]
  simp [linesFrom, hnil]

/-- Texts of one line each are the lines of their text. -/
theorem lines_intercalate {texts : List String}
    (h : ∀ t ∈ texts, t ≠ "" ∧ ∀ c ∈ t.toList, Script.isInline c = true) :
    lines ("\n".intercalate texts) = texts := by
  induction texts with
  | nil => rfl
  | cons t rest ih =>
    obtain ⟨⟨hne, hinline⟩, hrest⟩ := List.forall_mem_cons.mp h
    cases rest with
    | nil => simpa using lines_inline hne hinline
    | cons next rest =>
      rw [String.intercalate_cons_cons, lines_feed, lines_inline_feed hinline, ih hrest]
      rfl

/-- What a text holds before a line feed of its own is a line. -/
theorem mem_lines_intercalate {texts : List String} {word tail : String}
    (hword : ∀ c ∈ word.toList, Script.isInline c = true) (h : word ++ "\n" ++ tail ∈ texts) :
    word ∈ lines ("\n".intercalate texts) := by
  have hfirst (rest : String) : word ∈ lines (word ++ "\n" ++ rest) := by
    rw [lines_feed, lines_inline_feed hword]
    simp
  induction texts with
  | nil => cases h
  | cons t texts ih =>
    cases texts with
    | nil =>
      obtain rfl := List.mem_singleton.mp h
      simpa using hfirst tail
    | cons next texts =>
      rw [String.intercalate_cons_cons]
      rcases List.mem_cons.mp h with rfl | h
      · have hline := hfirst (tail ++ "\n" ++ "\n".intercalate (next :: texts))
        simpa only [String.append_assoc] using hline
      · rw [lines_feed]
        exact List.mem_append_right _ (ih h)

end Text

/-! ## Lines of the code -/

open Script

variable {i : BoundIndicator}

theorem isBlankLine_of_mem {line : String} {c : Char} (hc : c ∈ line.toList)
    (hblank : Text.isBlank c = false) : isBlankLine line = false := by
  rw [isBlankLine, Bool.eq_false_iff]
  intro hall
  rw [List.all_eq_true.mp hall c hc] at hblank
  cases hblank

/-- The lines of the snippet. -/
def BoundIndicator.texts (i : BoundIndicator) : Except SnippetError (List String) :=
  i.spec.snippet.mapM (Line.render i.id i.params)

/-- **The lines of a scoped indicator are those of its snippet.** -/
theorem BoundIndicator.Scoped.code_eq (hi : i.Scoped) {texts : List String}
    (h : i.texts = .ok texts) :
    i.code = .ok texts ∧ List.Forall₂ i.Writes i.spec.snippet texts := by
  unfold BoundIndicator.texts at h
  have htexts := (mapM_eq_ok_iff _ _ _).mp h
  have hspec := hi.spec
  have hscope := hi.inScope
  simp only [IndicatorSpec.isSound, IndicatorSpec.isScoped, Bool.and_eq_true,
    List.all_eq_true] at hspec hscope
  have hwrites := i.writes_lines hi.toSound hi.named hspec.2 hscope.1.1.1 htexts
  have hlines : ∀ text ∈ texts, isBlankLine text = false ∧ text ≠ "" ∧
      ∀ c ∈ text.toList, isInline c = true := by
    intro text htext
    obtain ⟨line, hline, hrender⟩ := exists_of_forall₂ htexts.flip htext
    obtain ⟨target, value, parts, rfl, -, -, -, rfl⟩ :=
      Line.render_eq_ok (hspec.2 line hline) hrender
    obtain ⟨_, -, _, _, -, -, hassigns⟩ := exists_of_forall₂ hwrites.flip htext
    obtain ⟨ts, hts⟩ := lexes_of_assigns hassigns
    have hequals : '=' ∈ (target.render i.id ++ " = " ++ String.join parts).toList := by simp
    refine ⟨isBlankLine_of_mem hequals (by decide), ?_, isInline_of_lex hts⟩
    intro hempty
    rw [hempty] at hequals
    cases hequals
  refine ⟨?_, hwrites⟩
  simp only [code, Snippet.render, h, bind, Except.bind, pure, Except.pure]
  rw [Text.lines_intercalate fun text htext => (hlines text htext).2,
    List.filter_eq_self.mpr fun text htext => by simp [(hlines text htext).1]]

theorem BoundIndicator.Scoped.writes (hi : i.Scoped) {block : List String}
    (h : i.code = .ok block) : List.Forall₂ i.Writes i.spec.snippet block := by
  obtain ⟨texts, htexts, -⟩ := i.code_eq_ok h
  obtain ⟨hcode, hwrites⟩ := hi.code_eq ((mapM_eq_ok_iff _ _ _).mpr htexts)
  cases h.symm.trans hcode
  exact hwrites

def Binding.texts (b : Binding) : Except SnippetError (List String) := do
  return (← b.indicators.mapM BoundIndicator.texts).flatten

theorem Binding.code_eq {b : Binding} (hb : ∀ i ∈ b.indicators, i.Scoped) {lines : List String}
    (h : b.texts = .ok lines) : b.code = .ok lines := by
  obtain ⟨blocks, hblocks, h⟩ := exists_of_bind_ok h
  have hcodes := (List.forall₂_and_left _ _).mpr ⟨hb, (mapM_eq_ok_iff _ _ _).mp hblocks⟩
  have hcode := (mapM_eq_ok_iff BoundIndicator.code _ _).mpr
    (hcodes.imp fun i block hi => (hi.1.code_eq hi.2).1)
  exact bind_eq_ok_iff.mpr ⟨blocks, hcode, h⟩

/-- A line that stops within the quotes of a column. -/
def openAccess (word : String) : String := tableName ++ "['" ++ word

theorem isInline_openAccess {word : String} (h : ∀ c ∈ word.toList, nameChar c = true) :
    ∀ c ∈ (openAccess word).toList, isInline c = true := by
  simp only [openAccess, String.toList_append, List.forall_mem_append]
  exact ⟨by decide, fun c hc => isInline_of_wordChar (wordChar_of_nameChar (h c hc))⟩

theorem columnAccess_feed (word output : String) :
    ∃ tail, columnAccess (columnName (word ++ "\n") output) = openAccess word ++ "\n" ++ tail := by
  unfold columnAccess openAccess columnName
  split
  · exact ⟨"']", by simp only [String.append_assoc]⟩
  · exact ⟨"_" ++ output ++ "']", by simp only [String.append_assoc]⟩

theorem IndicatorSpec.exists_column {spec : IndicatorSpec} (h : spec.isScoped = true) :
    ∃ output value, Line.assign (.column output) value ∈ spec.snippet := by
  simp only [isScoped, Bool.and_eq_true, beq_iff_eq, Bool.not_eq_true'] at h
  obtain ⟨⟨⟨-, houtputs⟩, -⟩, hne⟩ := h
  obtain ⟨output, hmem⟩ := List.exists_mem_of_ne_nil spec.outputs (by simpa using hne)
  rw [← houtputs] at hmem
  obtain ⟨line, hline, houtput⟩ := List.mem_filterMap.mp hmem
  cases line with
  | free pieces => cases houtput
  | assign target value =>
    cases target with
    | helper suffix => cases houtput
    | column own => exact ⟨own, value, hline⟩

/-- A line feed at the end of an id ends a line within the quotes of a column. -/
theorem BoundIndicator.Sound.open_of_feed (hi : i.Sound) (hscoped : i.spec.isScoped = true)
    {word : String} (hfeed : i.id = word ++ "\n") {block : List String} (h : i.code = .ok block) :
    (∀ c ∈ word.toList, nameChar c = true) ∧ openAccess word ∈ block := by
  have hid := hi.id
  have hfeed' : i.id.toList = word.toList ++ ['\n'] := by simp [hfeed]
  have hword : Text.chomp i.id.toList = word.toList := by simp [hfeed', Text.chomp]
  rw [isIndicatorId, hword] at hid
  have hchars := (nameChar_of_isName (isName_of_isIdWord hid)).2
  refine ⟨hchars, ?_⟩
  -- Every type assigns a column, and the first line feed of that line is the one of the id.
  obtain ⟨texts, htexts, rfl⟩ := i.code_eq_ok h
  obtain ⟨output, value, hline⟩ := IndicatorSpec.exists_column hscoped
  have hspec := hi.spec
  simp only [IndicatorSpec.isSound, Bool.and_eq_true, List.all_eq_true] at hspec
  obtain ⟨text, htext, hrender⟩ := exists_of_forall₂ htexts hline
  obtain ⟨target, _, parts, hassign, -, -, -, rfl⟩ :=
    Line.render_eq_ok (hspec.2 _ hline) hrender
  cases hassign
  obtain ⟨tail, htail⟩ := columnAccess_feed word output
  rw [Target.render, hfeed, htail, String.append_assoc, String.append_assoc] at htext
  refine List.mem_filter.mpr
    ⟨Text.mem_lines_intercalate (isInline_openAccess hchars) htext, ?_⟩
  have hletter : 'd' ∈ (openAccess word).toList := by simp [openAccess, tableName]
  simp [isBlankLine_of_mem hletter (by decide)]

/-- **An id that is no name leaves a text open.** -/
theorem BoundIndicator.Sound.name_or_open (hi : i.Sound) (hscoped : i.spec.isScoped = true)
    {block : List String} (h : i.code = .ok block) : isName i.id.toList = true ∨
      ∃ word, (∀ c ∈ word.toList, nameChar c = true) ∧ openAccess word ∈ block := by
  rcases chomp_cases i.id.toList with hid | hid
  · rw [hid]
    exact .inl (isName_of_isIdWord hi.id)
  · have hfeed : i.id = String.ofList (Text.chomp i.id.toList) ++ "\n" :=
      String.toList_inj.mp (by simpa using hid)
    exact .inr ⟨_, hi.open_of_feed hscoped hfeed h⟩

end Stratagem
