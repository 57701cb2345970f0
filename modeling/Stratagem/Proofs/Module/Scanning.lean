import Stratagem.Module.Scan
import Stratagem.Proofs.Script.Lexemes

/-! The scanner on lines of code. It leaves every line in the mode it entered it in, or finds a
fault in it, and that does not depend on the lines behind. Hence the text of a comment on a line of
its own does not change what the scanner finds. -/

namespace Stratagem.Scan

variable {s : State} {quote c : Char} {xs ys text cs inside rest before : List Char}
  {ts : List Script.Token} {above : List String}

/-! ## One character, by the mode it is read in -/

theorem scan_in_code (hs : s.mode = .code) (c : Char) (rest : List Char) :
    scan s (c :: rest) =
      if c = '\n' then scan s.newline rest
      else if c = '#' then scan { s with mode := .comment } rest
      else if isQuote c then
        match rest with
        | d :: e :: rest' =>
          if d = c ∧ e = c then scan { s.keep c with mode := .tripleQuoted c } rest'
          else scan { s.keep c with mode := .quoted c } (d :: e :: rest')
        | rest => scan { s.keep c with mode := .quoted c } rest
      else if isOpening c then
        if maxBrackets ≤ s.depth then .error (.tooManyBrackets s.line)
        else scan { s.keep c with depth := s.depth + 1 } rest
      else if isClosing c then scan { s.keep c with depth := s.depth - 1 } rest
      else if c = '\\' then
        match rest with
        | '\n' :: rest => scan { s.keep ' ' with line := s.line + 1 } rest
        | rest => scan (s.keep c) rest
      else scan (s.keep c) rest := by
  cases s
  cases hs
  exact scan.eq_def _ (c :: rest)

theorem scan_in_comment (hs : s.mode = .comment) (c : Char) (rest : List Char) :
    scan s (c :: rest) = if c = '\n' then scan s.newline rest else scan s rest := by
  cases s
  cases hs
  exact scan.eq_def _ (c :: rest)

theorem scan_in_text (hs : s.mode = .quoted quote) (c : Char) (rest : List Char) :
    scan s (c :: rest) =
      if c = '\n' then .error (.unterminated s.line)
      else if c = '\\' then
        match rest with
        | d :: rest => scan { s with line := if d = '\n' then s.line + 1 else s.line } rest
        | [] => .error (.unterminated s.line)
      else if c = quote then scan { s.keep c with mode := .code } rest
      else scan s rest := by
  cases s
  cases hs
  exact scan.eq_def _ (c :: rest)

/-- A text brings the scanner into code or to a fault, whatever comes behind it as far as that is
allowed. -/
def Settles (behind : List Char → Prop) (s : State) (text : List Char) : Prop :=
  (∃ t : State, t.mode = .code ∧ ∀ rest, behind rest → scan s (text ++ rest) = scan t rest) ∨
    ∃ fault, ∀ rest, behind rest → scan s (text ++ rest) = .error fault

/-- A text that starts in code settles. -/
def Passes (behind : List Char → Prop) (text : List Char) : Prop :=
  ∀ s : State, s.mode = .code → Settles behind s text

def anything : List Char → Prop := fun _ => True

/-- No quote comes first. -/
def unquoted (rest : List Char) : Prop := rest.head?.any isQuote = false

theorem passes_nil (behind : List Char → Prop) : Passes behind [] :=
  fun s hs => .inl ⟨s, hs, fun _ _ => rfl⟩

theorem Passes.append {behind other : List Char → Prop} (hx : Passes behind xs)
    (hy : Passes other ys) (hbehind : ∀ rest, other rest → behind (ys ++ rest)) :
    Passes other (xs ++ ys) := by
  intro s hs
  rcases hx s hs with ⟨t, ht, hscan⟩ | ⟨fault, hfault⟩
  · have hstep : ∀ rest, other rest → scan s (xs ++ ys ++ rest) = scan t (ys ++ rest) := by
      intro rest hrest
      rw [List.append_assoc, hscan _ (hbehind rest hrest)]
    rcases hy t ht with ⟨u, hu, hscan'⟩ | ⟨fault, hfault⟩
    · exact .inl ⟨u, hu, fun rest hrest => by rw [hstep rest hrest, hscan' rest hrest]⟩
    · exact .inr ⟨fault, fun rest hrest => by rw [hstep rest hrest, hfault rest hrest]⟩
  · refine .inr ⟨fault, fun rest hrest => ?_⟩
    rw [List.append_assoc, hfault _ (hbehind rest hrest)]

/-! ## Characters of code -/

/-- A character that opens no comment, text or escape. -/
def isQuiet (c : Char) : Bool := c != '#' && !isQuote c && c != '\\'

/-- A character that is no more than itself in code. -/
def isPlain (c : Char) : Bool := c != '\n' && isQuiet c

/-- A plain character opens a bracket, closes one, or is kept. -/
theorem scan_plain (hs : s.mode = .code) (hc : isPlain c = true) (rest : List Char) :
    scan s (c :: rest) =
      if isOpening c then
        if maxBrackets ≤ s.depth then .error (.tooManyBrackets s.line)
        else scan { s.keep c with depth := s.depth + 1 } rest
      else if isClosing c then scan { s.keep c with depth := s.depth - 1 } rest
      else scan (s.keep c) rest := by
  simp only [isPlain, isQuiet, Bool.and_eq_true, bne_iff_ne, ne_eq, Bool.not_eq_true'] at hc
  obtain ⟨hbreak, ⟨hcomment, hquote⟩, hescape⟩ := hc
  rw [scan_in_code hs]
  simp [hbreak, hcomment, hquote, hescape]

theorem passes_char (hc : isPlain c = true) : Passes anything [c] := by
  intro s hs
  have hscan (rest : List Char) := scan_plain hs hc rest
  by_cases hopen : isOpening c = true
  · by_cases hdepth : maxBrackets ≤ s.depth
    · refine .inr ⟨.tooManyBrackets s.line, fun rest _ => ?_⟩
      rw [List.singleton_append, hscan, if_pos hopen, if_pos hdepth]
    · refine .inl ⟨{ s.keep c with depth := s.depth + 1 }, hs, fun rest _ => ?_⟩
      rw [List.singleton_append, hscan, if_pos hopen, if_neg hdepth]
  · by_cases hclose : isClosing c = true
    · refine .inl ⟨{ s.keep c with depth := s.depth - 1 }, hs, fun rest _ => ?_⟩
      rw [List.singleton_append, hscan, if_neg hopen, if_pos hclose]
    · refine .inl ⟨s.keep c, hs, fun rest _ => ?_⟩
      rw [List.singleton_append, hscan, if_neg hopen, if_neg hclose]

theorem passes_plain (h : ∀ c ∈ text, isPlain c = true) : Passes anything text := by
  induction text with
  | nil => exact passes_nil _
  | cons c rest ih =>
    obtain ⟨hc, hrest⟩ := List.forall_mem_cons.mp h
    exact (passes_char hc).append (ih hrest) fun _ _ => trivial

theorem State.newline_mode (s : State) : s.newline.mode = .code := by
  unfold State.newline
  split <;> rfl

theorem passes_newline : Passes anything ['\n'] := by
  intro s hs
  refine .inl ⟨s.newline, s.newline_mode, fun rest _ => ?_⟩
  rw [List.singleton_append, scan_in_code hs, if_pos rfl]

/-! ## Comments -/

theorem scan_comment (hs : s.mode = .comment) (htext : '\n' ∉ text) (rest : List Char) :
    scan s (text ++ '\n' :: rest) = scan s.newline rest := by
  induction text with
  | nil =>
    rw [List.nil_append, scan_in_comment hs, if_pos rfl]
  | cons c text ih =>
    simp only [List.mem_cons, not_or] at htext
    rw [List.cons_append, scan_in_comment hs, if_neg (Ne.symm htext.1)]
    exact ih htext.2

/-- What a comment says does not matter. -/
theorem scan_comment_line (hs : s.mode = .code) (htext : '\n' ∉ text) (rest : List Char) :
    scan s ('#' :: (text ++ '\n' :: rest)) = scan { s with mode := .comment }.newline rest := by
  rw [scan_in_code hs, if_neg (by decide), if_pos rfl]
  exact scan_comment rfl htext rest

theorem passes_comment (htext : '\n' ∉ text) : Passes anything ('#' :: (text ++ ['\n'])) := by
  intro s hs
  refine .inl ⟨{ s with mode := .comment }.newline, State.newline_mode _, fun rest _ => ?_⟩
  rw [← scan_comment_line hs htext rest]
  simp

/-! ## Texts -/

/-- A quote opens a text unless two more of its kind follow. -/
theorem scan_quote (hs : s.mode = .code) (hc : isQuote c = true)
    (hcs : ∀ tail, cs ≠ c :: c :: tail) :
    scan s (c :: cs) = scan { s.keep c with mode := .quoted c } cs := by
  have hne : c ≠ '\n' ∧ c ≠ '#' := by
    constructor <;> rintro rfl <;> exact absurd hc (by decide)
  rw [scan_in_code hs, if_neg hne.1, if_neg hne.2, if_pos hc]
  split
  · next d e tail =>
    rw [if_neg]
    rintro ⟨rfl, rfl⟩
    exact hcs tail rfl
  · rfl

theorem scan_sealed (hs : s.mode = .quoted quote) (h : Script.Sealed quote inside)
    (rest : List Char) : scan s (inside ++ rest) = scan s rest := by
  induction h with
  | nil => rfl
  | @escape c cs hc _ ih =>
    have hne : c ≠ '\n' := by rintro rfl; exact absurd hc (by decide)
    rw [List.cons_append, List.cons_append, scan_in_text hs, if_neg (by decide), if_pos rfl]
    simp only [if_neg hne]
    exact ih
  | @char c cs hc hquote hescape _ ih =>
    have hne : c ≠ '\n' := by rintro rfl; exact absurd hc (by decide)
    rw [List.cons_append, scan_in_text hs, if_neg hne, if_neg hescape, if_neg hquote]
    exact ih

theorem scan_closing (hs : s.mode = .quoted quote) (hquote : isQuote quote = true)
    (rest : List Char) :
    scan s (quote :: rest) = scan { s.keep quote with mode := .code } rest := by
  have hne : quote ≠ '\n' ∧ quote ≠ '\\' := by
    constructor <;> rintro rfl <;> exact absurd hquote (by decide)
  rw [scan_in_text hs, if_neg hne.1, if_neg hne.2, if_pos rfl]

/-- The inside of a text is skipped. -/
theorem scan_opening (hs : s.mode = .code) (hquote : isQuote quote = true)
    (h : Script.Sealed quote inside) (hrest : ∀ tail, rest ≠ quote :: quote :: tail) :
    scan s (quote :: (inside ++ rest)) = scan { s.keep quote with mode := .quoted quote } rest := by
  have halone : ∀ tail, inside ++ rest ≠ quote :: quote :: tail := by
    intro tail htail
    cases h with
    | nil => exact hrest tail htail
    | escape _ _ => exact absurd ((List.cons.inj htail).1 ▸ hquote) (by decide)
    | char _ hne _ _ => exact hne (List.cons.inj htail).1
  rw [scan_quote hs hquote halone, scan_sealed rfl h]

/-- A text that is closed leaves its quotes behind. -/
theorem scan_text (hs : s.mode = .code) (hquote : isQuote quote = true)
    (h : Script.Sealed quote inside) (hrest : rest.head? ≠ some quote) :
    scan s (quote :: (inside ++ [quote]) ++ rest) = scan ((s.keep quote).keep quote) rest := by
  have hsingle : ∀ tail, quote :: rest ≠ quote :: quote :: tail := by
    intro tail htail
    refine hrest ?_
    rw [(List.cons.inj htail).2]
    rfl
  have hassoc : quote :: (inside ++ [quote]) ++ rest = quote :: (inside ++ quote :: rest) := by simp
  rw [hassoc, scan_opening hs hquote h hsingle, scan_closing rfl hquote]
  cases s
  cases hs
  rfl

theorem passes_text (hquote : isQuote quote = true) (h : Script.Sealed quote inside) :
    Passes (fun rest => rest.head? ≠ some quote) (quote :: (inside ++ [quote])) :=
  fun s hs => .inl ⟨(s.keep quote).keep quote, hs, fun _ hrest => scan_text hs hquote h hrest⟩

theorem isPlain_of_wordChar (h : Script.wordChar c = true) : isPlain c = true := by
  have hne : ∀ e, Script.wordChar e = false → c ≠ e := by
    rintro e he rfl
    rw [he] at h
    cases h
  simp [isPlain, isQuiet, isQuote, hne '\n' (by decide), hne '#' (by decide),
    hne '\x27' (by decide), hne '"' (by decide), hne '\\' (by decide)]

/-- Only texts hold characters that are more than themselves. -/
theorem isPlain_of_lexeme {t : Script.Token} (h : Script.Lexeme t cs) (ht : ∀ s, t ≠ .text s) :
    ∀ c ∈ cs, isPlain c = true := by
  cases h with
  | word _ hword => exact fun c hc => isPlain_of_wordChar (hword c hc)
  | mark hc =>
    have hall : ∀ c ∈ Script.marks, isPlain c = true := by decide
    simpa using hall _ hc
  | relation hc =>
    have hall : ∀ c ∈ ['=', '!', '<', '>'], isPlain c = true := by decide
    intro d hd
    rcases List.mem_cons.mp hd with rfl | hd
    · exact hall d hc
    · rw [List.mem_singleton.mp hd]
      rfl
  | text hquote hinside => exact absurd rfl (ht _)

theorem isPlain_of_lex (h : Script.lex cs = some ts) (hts : ∀ s, .text s ∉ ts) :
    ∀ c ∈ cs, isPlain c = true := by
  refine Script.lex_induction
    (P := fun cs ts => (∀ s, .text s ∉ ts) → ∀ c ∈ cs, isPlain c = true) ?_ ?_ ?_ h hts
  · simp
  · intro cs ts ih hts
    exact List.forall_mem_cons.mpr ⟨rfl, ih hts⟩
  · intro piece rest t ts htakes _ ih hts
    refine List.forall_mem_append.mpr ⟨isPlain_of_lexeme htakes.lexeme fun s hs => ?_,
      ih fun s hs => hts s (List.mem_cons_of_mem t hs)⟩
    exact hts s (hs ▸ List.mem_cons_self)

/-- A line of tokens is made of plain characters and of texts, none of which is followed by its own
quote. -/
theorem lexed_induction {P : List Char → Prop} (nil : P [])
    (plain : ∀ c rest, isPlain c = true → P rest → P ([c] ++ rest))
    (text : ∀ quote inside rest, isQuote quote = true → Script.Sealed quote inside →
      rest.head? ≠ some quote → P rest → P (quote :: (inside ++ [quote]) ++ rest))
    (h : Script.lex cs = some ts) : P cs := by
  have hplain {piece rest : List Char} (hpiece : ∀ c ∈ piece, isPlain c = true) (hrest : P rest) :
      P (piece ++ rest) := by
    induction piece with
    | nil => exact hrest
    | cons c piece ih =>
      obtain ⟨hc, hpiece⟩ := List.forall_mem_cons.mp hpiece
      exact plain c _ hc (ih hpiece)
  refine Script.lex_induction (P := fun cs _ => P cs) nil ?_ ?_ h
  · exact fun cs _ ih => plain ' ' cs rfl ih
  · intro piece rest t ts htakes _ ih
    have hlexeme := htakes.lexeme
    cases hlexeme with
    | word ht _ => exact hplain (isPlain_of_lexeme htakes.lexeme fun s => (ht s).1) ih
    | mark _ | relation _ => exact hplain (isPlain_of_lexeme htakes.lexeme (by simp)) ih
    | @text s quote inside hquote hinside =>
      exact text quote inside rest hquote hinside (htakes.closed s rfl) ih

/-- The quote of a text follows it neither in the rest of the line nor behind the line. -/
theorem head?_append_ne (hquote : isQuote quote = true) {more : List Char}
    (hrest : rest.head? ≠ some quote) (hmore : unquoted more) :
    (rest ++ more).head? ≠ some quote := by
  cases rest with
  | cons c rest => simpa using hrest
  | nil =>
    intro hhead
    rw [unquoted, show more.head? = some quote from hhead] at hmore
    exact absurd hquote (by simpa using hmore)

/-- **A line of tokens passes**, as long as no quote follows it directly. -/
theorem passes_of_lex (h : Script.lex cs = some ts) : Passes unquoted cs := by
  refine lexed_induction (P := Passes unquoted) (passes_nil _) ?_ ?_ h
  · exact fun c rest hc ih => (passes_char hc).append ih fun _ _ => trivial
  · exact fun quote inside rest hquote hinside hclosed ih =>
      (passes_text hquote hinside).append ih fun _ hmore => head?_append_ne hquote hclosed hmore

/-! ## Texts without escapes -/

/-- There is no backslash, no comment, and no quote directly behind another. -/
@[simp] def bland : List Char → Bool
  | [] => true
  | c :: rest =>
    c != '\\' && c != '#' && !(isQuote c && rest.head?.any isQuote) && bland rest

/-- No text of three quotes begins at a quote of a line of this kind. -/
theorem ne_quotes_of_bland (hc : isQuote c = true)
    (hquotes : (isQuote c && text.head?.any isQuote) = false) (rest tail : List Char) :
    text ++ '\n' :: rest ≠ c :: c :: tail := by
  intro htail
  cases text with
  | nil =>
    rw [← (List.cons.inj htail).1] at hc
    exact absurd hc (by decide)
  | cons d text =>
    have hd : isQuote d = false := by simpa [hc] using hquotes
    rw [(List.cons.inj htail).1, hc] at hd
    cases hd

theorem Settles.cons {behind : List Char → Prop} {t : State}
    (hstep : ∀ rest, behind rest → scan s (c :: (text ++ rest)) = scan t (text ++ rest))
    (h : Settles behind t text) : Settles behind s (c :: text) := by
  rcases h with ⟨u, hu, hscan⟩ | ⟨fault, hfault⟩
  · exact .inl ⟨u, hu, fun rest hrest => by
      rw [List.cons_append, hstep rest hrest, hscan rest hrest]⟩
  · exact .inr ⟨fault, fun rest hrest => by
      rw [List.cons_append, hstep rest hrest, hfault rest hrest]⟩

theorem scan_quoted_newline (hs : s.mode = .quoted quote) (rest : List Char) :
    scan s ('\n' :: rest) = .error (.unterminated s.line) := by
  rw [scan_in_text hs, if_pos rfl]

theorem scan_quoted_char (hs : s.mode = .quoted quote) (hbreak : c ≠ '\n') (hescape : c ≠ '\\')
    (hquote : c ≠ quote) (rest : List Char) : scan s (c :: rest) = scan s rest := by
  rw [scan_in_text hs, if_neg hbreak, if_neg hescape, if_neg hquote]

/-- A text that is left open at the end of its line is a fault. -/
theorem scan_open_text (hs : s.mode = .code) (hbefore : ∀ c ∈ before, isPlain c = true)
    (hquote : isQuote quote = true) (h : Script.Sealed quote inside) (rest : List Char) :
    ∃ fault, scan s (before ++ quote :: (inside ++ '\n' :: rest)) = .error fault := by
  have hfeed : ∀ tail, '\n' :: rest ≠ quote :: quote :: tail := by
    intro tail htail
    rw [← (List.cons.inj htail).1] at hquote
    cases hquote
  rcases passes_plain hbefore s hs with ⟨t, ht, hscan⟩ | ⟨fault, hfault⟩
  · refine ⟨.unterminated t.line, ?_⟩
    rw [hscan _ trivial, scan_opening ht hquote h hfeed, scan_quoted_newline rfl]
    rfl
  · exact ⟨fault, hfault _ trivial⟩

/-- A text that is left open at the end of its line is a fault, so a line of this kind settles no
matter which quotes belong together. -/
theorem settles_bland (h : bland text = true) (s : State)
    (hs : s.mode = .code ∨ ∃ quote, isQuote quote = true ∧ s.mode = .quoted quote) :
    Settles anything s (text ++ ['\n']) := by
  induction text generalizing s with
  | nil =>
    rcases hs with hs | ⟨quote, -, hs⟩
    · exact passes_newline s hs
    · exact .inr ⟨.unterminated s.line, fun rest _ => scan_quoted_newline hs rest⟩
  | cons c text ih =>
    simp only [bland, Bool.and_eq_true, bne_iff_ne, ne_eq, Bool.not_eq_true'] at h
    obtain ⟨⟨⟨hescape, hcomment⟩, hquotes⟩, htext⟩ := h
    rcases hs with hs | ⟨quote, hquote, hs⟩
    · by_cases hbreak : c = '\n'
      · subst hbreak
        refine .cons (fun rest _ => ?_) (ih htext s.newline (.inl s.newline_mode))
        rw [scan_in_code hs, if_pos rfl]
      by_cases hc : isQuote c = true
      · refine .cons (fun rest _ => scan_quote hs hc ?_)
          (ih htext { s.keep c with mode := .quoted c } (.inr ⟨c, hc, rfl⟩))
        show ∀ tail, text ++ ['\n'] ++ rest ≠ c :: c :: tail
        rw [List.append_assoc]
        exact ne_quotes_of_bland hc hquotes rest
      · have hplain : isPlain c = true := by simp [isPlain, isQuiet, hbreak, hcomment, hc, hescape]
        rcases passes_char hplain s hs with ⟨t, ht, hscan⟩ | ⟨fault, hfault⟩
        · exact .cons (fun rest _ => hscan _ trivial) (ih htext t (.inl ht))
        · exact .inr ⟨fault, fun rest _ => hfault _ trivial⟩
    · by_cases hbreak : c = '\n'
      · subst hbreak
        exact .inr ⟨.unterminated s.line, fun rest _ => scan_quoted_newline hs _⟩
      by_cases hc : c = quote
      · subst hc
        exact .cons (fun rest _ => scan_closing hs hquote _)
          (ih htext { s.keep c with mode := .code } (.inl rfl))
      · exact .cons (fun rest _ => scan_quoted_char hs hbreak hescape hc _)
          (ih htext s (.inr ⟨quote, hquote, hs⟩))

theorem passes_bland (h : bland text = true) : Passes anything (text ++ ['\n']) :=
  fun s hs => settles_bland h s (.inl hs)

theorem bland_of_quiet (h : ∀ c ∈ text, isQuiet c = true) : bland text = true := by
  induction text with
  | nil => rfl
  | cons c rest ih =>
    obtain ⟨hc, hrest⟩ := List.forall_mem_cons.mp h
    simp only [isQuiet, Bool.and_eq_true, bne_iff_ne, ne_eq, Bool.not_eq_true'] at hc
    simp [bland, hc, ih hrest]

theorem bland_append (hx : bland xs = true) (hy : bland ys = true)
    (h : xs.getLast?.any isQuote = false ∨ ys.head?.any isQuote = false) :
    bland (xs ++ ys) = true := by
  induction xs with
  | nil => exact hy
  | cons c xs ih =>
    simp only [bland, Bool.and_eq_true] at hx
    cases xs with
    | nil =>
      have hquotes : (isQuote c && ys.head?.any isQuote) = false := by
        rcases h with h | h
        · have hc : isQuote c = false := by simpa using h
          rw [hc, Bool.false_and]
        · rw [h, Bool.and_false]
      simp [bland, hx.1.1, hquotes, hy]
    | cons d xs =>
      have hrest := ih hx.2 (by simpa using h)
      simp only [List.cons_append] at hrest ⊢
      rw [bland, hrest, Bool.and_true]
      simpa using hx.1

theorem bland_of_append (h : bland (xs ++ ys) = true) : bland xs = true ∧ bland ys = true := by
  induction xs with
  | nil => exact ⟨rfl, h⟩
  | cons c xs ih =>
    simp only [List.cons_append, bland, Bool.and_eq_true] at h
    obtain ⟨hxs, hys⟩ := ih h.2
    refine ⟨?_, hys⟩
    cases xs with
    | nil => simp [bland, h.1.1]
    | cons d xs =>
      rw [bland, hxs, Bool.and_true]
      simpa using h.1

/-! ## Lines -/

/-- A line that settles whatever lines follow it, with no break that would be read as a line
feed. -/
structure Tidy (line : String) : Prop where
  unbroken : '\r' ∉ line.toList
  passes : Passes anything (line.toList ++ ['\n'])

theorem tidy_bland {line : String} (h : bland line.toList = true) (hline : '\r' ∉ line.toList) :
    Tidy line := ⟨hline, passes_bland h⟩

/-- Code in a line, with plain text before it and anything tidy behind it. -/
theorem Tidy.around {before code after : String}
    (hbefore : ∀ c ∈ before.toList, isPlain c = true ∧ c ≠ '\r')
    (hcode : Script.lex code.toList = some ts) (hafter : Tidy after)
    (hquote : after.toList.head?.any isQuote = false) : Tidy (before ++ code ++ after) := by
  constructor
  · simp only [String.toList_append, List.mem_append, not_or]
    exact ⟨⟨fun h => (hbefore _ h).2 rfl,
      (Script.not_mem_of_isInline (Script.isInline_of_lex hcode)).2⟩, hafter.unbroken⟩
  · have hpasses : Passes anything (code.toList ++ (after.toList ++ ['\n'])) := by
      refine (passes_of_lex hcode).append hafter.passes fun rest _ => ?_
      unfold unquoted
      cases hlist : after.toList with
      | nil => rfl
      | cons c cs => simpa [hlist] using hquote
    have hall := (passes_plain fun c hc => (hbefore c hc).1).append hpasses fun _ _ => trivial
    simpa only [String.toList_append, List.append_assoc] using hall

/-- A comment, with plain text before it. -/
theorem tidy_comment {line : String} (hline : line.toList = before ++ '#' :: text)
    (hbefore : ∀ c ∈ before, isPlain c = true ∧ c ≠ '\r')
    (htext : ∀ c ∈ text, Script.isInline c = true) : Tidy line := by
  have hne := Script.not_mem_of_isInline htext
  constructor
  · rw [hline]
    simp only [List.mem_append, List.mem_cons, not_or]
    exact ⟨fun h => (hbefore _ h).2 rfl, by decide, hne.2⟩
  · have hall := (passes_plain fun c hc => (hbefore c hc).1).append (passes_comment hne.1)
      fun _ _ => trivial
    rw [hline]
    simpa only [List.append_assoc, List.cons_append] using hall

/-- The characters of some lines, each with a line feed at its end. -/
def written (lines : List String) : List Char := lines.flatMap fun line => line.toList ++ ['\n']

theorem passes_written {lines : List String} (h : ∀ line ∈ lines, Tidy line) :
    Passes anything (written lines) := by
  induction lines with
  | nil => exact passes_nil _
  | cons line rest ih =>
    obtain ⟨hline, hrest⟩ := List.forall_mem_cons.mp h
    exact hline.passes.append (ih hrest) fun _ _ => trivial

theorem unifyBreaks_append (h : '\r' ∉ xs) (ys : List Char) :
    unifyBreaks (xs ++ ys) = xs ++ unifyBreaks ys := by
  induction xs with
  | nil => rfl
  | cons c xs ih =>
    simp only [List.mem_cons, not_or] at h
    have hne : c ≠ '\r' := Ne.symm h.1
    rw [List.cons_append, unifyBreaks.eq_3, ih h.2, List.cons_append]
    · intro rest hc
      exact absurd hc hne
    · exact hne

/-- Tidy lines, and a text without carriage returns behind them, are scanned as they are. -/
theorem unifyBreaks_written (habove : ∀ line ∈ above, Tidy line) (htext : '\r' ∉ text)
    (below : List Char) :
    unifyBreaks (written above ++ (text ++ below)) =
      written above ++ (text ++ unifyBreaks below) := by
  have hwritten : '\r' ∉ written above := by
    unfold written
    simp only [List.mem_flatMap, List.mem_append, List.mem_singleton, not_exists, not_and, not_or]
    exact fun line hline => ⟨(habove line hline).unbroken, by decide⟩
  rw [unifyBreaks_append hwritten, unifyBreaks_append htext]

/-- **A text that a line leaves open is found behind tidy lines.** -/
theorem scan_open_line (habove : ∀ line ∈ above, Tidy line)
    (hbefore : ∀ c ∈ before, isPlain c = true ∧ c ≠ '\r') (hquote : isQuote quote = true)
    (h : Script.Sealed quote inside) (below : List Char) :
    ∃ fault, scan {} (unifyBreaks
      (written above ++ (before ++ quote :: (inside ++ '\n' :: below)))) = .error fault := by
  have hline : unifyBreaks (written above ++ (before ++ quote :: (inside ++ '\n' :: below))) =
      written above ++ (before ++ quote :: (inside ++ '\n' :: unifyBreaks below)) := by
    have hreturn : '\r' ∉ before ++ quote :: (inside ++ ['\n']) := by
      simp only [List.mem_append, List.mem_cons, List.not_mem_nil, or_false, not_or]
      refine ⟨fun h => (hbefore _ h).2 rfl, ?_, (Script.not_mem_of_isInline h.isInline).2,
        by decide⟩
      rintro rfl
      cases hquote
    simpa using unifyBreaks_written habove hreturn below
  rw [hline]
  rcases passes_written habove {} rfl with ⟨t, ht, hscan⟩ | ⟨fault, hfault⟩
  · rw [hscan _ trivial]
    exact scan_open_text ht (fun c hc => (hbefore c hc).1) hquote h _
  · exact ⟨fault, hfault _ trivial⟩

/-- **The words of a comment behind tidy lines make no difference to the scanner.** -/
theorem scan_comment_congr (habove : ∀ line ∈ above, Tidy line)
    (hbefore : ∀ c ∈ before, isPlain c = true ∧ c ≠ '\r') {a b : List Char}
    (ha : ∀ c ∈ a, Script.isInline c = true) (hb : ∀ c ∈ b, Script.isInline c = true)
    (below : List Char) :
    scan {} (unifyBreaks (written above ++ (before ++ '#' :: (a ++ '\n' :: below)))) =
      scan {} (unifyBreaks (written above ++ (before ++ '#' :: (b ++ '\n' :: below)))) := by
  have hpasses := (passes_written habove).append (passes_plain fun c hc => (hbefore c hc).1)
    fun _ _ => trivial
  have hline : ∀ text : List Char, (∀ c ∈ text, Script.isInline c = true) →
      unifyBreaks (written above ++ (before ++ '#' :: (text ++ '\n' :: below))) =
        written above ++ before ++ '#' :: (text ++ '\n' :: unifyBreaks below) ∧ '\n' ∉ text := by
    intro text htext
    have hne := Script.not_mem_of_isInline htext
    refine ⟨?_, hne.1⟩
    have hreturn : '\r' ∉ before ++ '#' :: (text ++ ['\n']) := by
      simp only [List.mem_append, List.mem_cons, List.not_mem_nil, or_false, not_or]
      exact ⟨fun h => (hbefore _ h).2 rfl, by decide, hne.2, by decide⟩
    simpa using unifyBreaks_written habove hreturn below
  obtain ⟨hua, hna⟩ := hline a ha
  obtain ⟨hub, hnb⟩ := hline b hb
  rw [hua, hub]
  rcases hpasses {} rfl with ⟨t, ht, hscan⟩ | ⟨fault, hfault⟩
  · rw [hscan _ trivial, hscan _ trivial, scan_comment_line ht hna, scan_comment_line ht hnb]
  · rw [hfault _ trivial, hfault _ trivial]

end Stratagem.Scan
