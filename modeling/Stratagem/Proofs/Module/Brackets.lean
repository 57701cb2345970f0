import Stratagem.Proofs.Module.Scanning
import Stratagem.Proofs.Script.Brackets

/-! The scanner and open brackets. The scanner counts the brackets of code as `Script.Position`
does, so it finds too many of them exactly where more are open at once than it allows. Lines with
few brackets lead it from one number of open brackets to another, or to a text that is left open. -/

namespace Stratagem

namespace Scan

open Script (Position Opens)

variable {behind other : List Char → Prop} {ys text cs before : List Char} {d e k : Nat}
  {P Q : Nat → Prop} {xs lines : List String} {line : String}

/-! ## Plain characters and texts -/

theorem next_plain {c : Char} (hc : isPlain c = true) (d : Nat) :
    (Position.code d).next c =
      .code (if isOpening c then d + 1 else if isClosing c then d - 1 else d) := by
  simp only [isPlain, isQuiet, Bool.and_eq_true, bne_iff_ne, ne_eq, Bool.not_eq_true'] at hc
  have hquote : Script.isQuote c = false := hc.2.1.2
  simp only [Position.next, Position.code, hquote, Bool.false_eq_true, if_false]
  split
  · rfl
  · split <;> rfl

/-- The scanner follows a text that leaves no text open: it comes out where the positions do, or it
finds too many brackets where they do. -/
def Follows (behind : List Char → Prop) (text : List Char) : Prop :=
  ∀ s : State, s.mode = .code → s.depth ≤ maxBrackets →
    ((Position.code s.depth).most text ≤ maxBrackets ∧ ∃ t : State, t.mode = .code ∧
      (Position.code s.depth).after text = .code t.depth ∧
        ∀ rest, behind rest → scan s (text ++ rest) = scan t rest) ∨
    (maxBrackets < (Position.code s.depth).most text ∧ ∃ line, ∀ rest, behind rest →
      scan s (text ++ rest) = .error (.tooManyBrackets line))

theorem follows_nil (behind : List Char → Prop) : Follows behind [] :=
  fun s hs hdepth => .inl ⟨hdepth, s, hs, rfl, fun _ _ => rfl⟩

theorem Follows.append {xs : List Char} (hx : Follows behind xs) (hy : Follows other ys)
    (hbehind : ∀ rest, other rest → behind (ys ++ rest)) : Follows other (xs ++ ys) := by
  intro s hs hdepth
  have hmost := (Position.code s.depth).most_append xs ys
  rcases hx s hs hdepth with ⟨hle, t, ht, hafter, hscan⟩ | ⟨hlt, line, hfault⟩
  · have hstep : ∀ rest, other rest → scan s (xs ++ ys ++ rest) = scan t (ys ++ rest) := by
      intro rest hrest
      rw [List.append_assoc, hscan _ (hbehind rest hrest)]
    have htdepth : t.depth ≤ maxBrackets := by
      have hend := Position.depth_after_le (Position.code s.depth) xs
      rw [hafter] at hend
      exact Nat.le_trans hend hle
    rw [hafter] at hmost
    rcases hy t ht htdepth with ⟨hle', u, hu, hafter', hscan'⟩ | ⟨hlt, line, hfault⟩
    · refine .inl ⟨by omega, u, hu, ?_, fun rest hrest => ?_⟩
      · rw [Position.after_append, hafter, hafter']
      · rw [hstep rest hrest, hscan' rest hrest]
    · exact .inr ⟨by omega, line, fun rest hrest => by rw [hstep rest hrest, hfault rest hrest]⟩
  · refine .inr ⟨by omega, line, fun rest hrest => ?_⟩
    rw [List.append_assoc, hfault _ (hbehind rest hrest)]

theorem follows_char {c : Char} (hc : isPlain c = true) : Follows anything [c] := by
  intro s hs hdepth
  have hscan (rest : List Char) := scan_plain hs hc rest
  have hnext := next_plain hc s.depth
  have hmost : (Position.code s.depth).most [c] =
      max s.depth (if isOpening c then s.depth + 1 else if isClosing c then s.depth - 1
        else s.depth) := by
    rw [Position.most, hnext]
    rfl
  by_cases hopen : isOpening c = true
  · rw [if_pos hopen] at hnext hmost
    by_cases hfull : maxBrackets ≤ s.depth
    · refine .inr ⟨by omega, s.line, fun rest _ => ?_⟩
      rw [List.singleton_append, hscan, if_pos hopen, if_pos hfull]
    · refine .inl ⟨by omega, { s.keep c with depth := s.depth + 1 }, hs, hnext, fun rest _ => ?_⟩
      rw [List.singleton_append, hscan, if_pos hopen, if_neg hfull]
  · rw [if_neg hopen] at hnext hmost
    by_cases hclose : isClosing c = true
    · rw [if_pos hclose] at hnext hmost
      refine .inl ⟨by omega, { s.keep c with depth := s.depth - 1 }, hs, hnext, fun rest _ => ?_⟩
      rw [List.singleton_append, hscan, if_neg hopen, if_pos hclose]
    · rw [if_neg hclose] at hnext hmost
      refine .inl ⟨by omega, s.keep c, hs, hnext, fun rest _ => ?_⟩
      rw [List.singleton_append, hscan, if_neg hopen, if_neg hclose]

theorem follows_plain (h : ∀ c ∈ text, isPlain c = true) : Follows anything text := by
  induction text with
  | nil => exact follows_nil _
  | cons c rest ih =>
    obtain ⟨hc, hrest⟩ := List.forall_mem_cons.mp h
    exact (follows_char hc).append (ih hrest) fun _ _ => trivial

theorem follows_text {quote : Char} (hquote : isQuote quote = true) {inside : List Char}
    (h : Script.Sealed quote inside) :
    Follows (fun rest => rest.head? ≠ some quote) (quote :: (inside ++ [quote])) := by
  intro s hs hdepth
  obtain ⟨hafter, hmost⟩ := Script.opens_text hquote h s.depth
  exact .inl ⟨hmost.trans_le hdepth, (s.keep quote).keep quote, hs, hafter,
    fun _ hrest => scan_text hs hquote h hrest⟩

/-- **The scanner follows a line of tokens**, as long as no quote comes behind it directly. -/
theorem follows_of_lex {ts : List Script.Token} (h : Script.lex cs = some ts) :
    Follows unquoted cs := by
  refine lexed_induction (P := Follows unquoted) (follows_nil _) ?_ ?_ h
  · exact fun c rest hc ih => (follows_char hc).append ih fun _ _ => trivial
  · exact fun quote inside rest hquote hinside hclosed ih =>
      (follows_text hquote hinside).append ih fun _ hmore => head?_append_ne hquote hclosed hmore

/-! ## Texts that may be left open -/

/-- The scanner is where the position is. -/
def Tracks (p : Position) (s : State) : Prop :=
  (s.mode = .code ∧ p = .code s.depth) ∨
    ∃ quote, isQuote quote = true ∧ s.mode = .quoted quote ∧
      p = { quote := some quote, depth := s.depth }

theorem State.newline_depth (s : State) : s.newline.depth = s.depth := by
  unfold State.newline
  split <;> rfl

/-- The scanner goes along with the positions of a text without escapes and comes to its line feed
in code, or finds there that a text was left open. -/
theorem scan_bland (h : bland text = true) {s : State} {p : Position} (hp : Tracks p s)
    (hmost : p.most text ≤ maxBrackets) :
    (∃ t : State, t.mode = .code ∧ p.after text = .code t.depth ∧
      ∀ rest, scan s (text ++ '\n' :: rest) = scan t rest) ∨
    ∃ line, ∀ rest, scan s (text ++ '\n' :: rest) = .error (.unterminated line) := by
  induction text generalizing s p with
  | nil =>
    rcases hp with ⟨hs, rfl⟩ | ⟨quote, -, hs, -⟩
    · refine .inl ⟨s.newline, s.newline_mode, by rw [s.newline_depth]; rfl, fun rest => ?_⟩
      rw [List.nil_append, scan_in_code hs, if_pos rfl]
    · exact .inr ⟨s.line, fun rest => scan_quoted_newline hs rest⟩
  | cons c text ih =>
    simp only [bland, Bool.and_eq_true, bne_iff_ne, ne_eq, Bool.not_eq_true'] at h
    obtain ⟨⟨⟨hescape, hcomment⟩, hquotes⟩, htext⟩ := h
    -- one step of the scanner that keeps to the positions
    have hcons {t : State} (ht : Tracks (p.next c) t)
        (hstep : ∀ rest, scan s (c :: (text ++ '\n' :: rest)) = scan t (text ++ '\n' :: rest)) :
        (∃ u : State, u.mode = .code ∧ p.after (c :: text) = .code u.depth ∧
          ∀ rest, scan s (c :: text ++ '\n' :: rest) = scan u rest) ∨
        ∃ line, ∀ rest, scan s (c :: text ++ '\n' :: rest) = .error (.unterminated line) := by
      rcases ih htext ht ((Nat.le_max_right _ _).trans hmost) with
        ⟨u, hu, hafter, hscan⟩ | ⟨line, hfault⟩
      · exact .inl ⟨u, hu, hafter, fun rest => (hstep rest).trans (hscan rest)⟩
      · exact .inr ⟨line, fun rest => (hstep rest).trans (hfault rest)⟩
    rcases hp with ⟨hs, rfl⟩ | ⟨quote, hquote, hs, rfl⟩
    · by_cases hbreak : c = '\n'
      · subst hbreak
        refine hcons (t := s.newline) (.inl ⟨s.newline_mode, by rw [s.newline_depth]; rfl⟩)
          fun rest => ?_
        rw [scan_in_code hs, if_pos rfl]
      by_cases hc : isQuote c = true
      · have hnext : (Position.code s.depth).next c = { quote := some c, depth := s.depth } := by
          have hquote : Script.isQuote c = true := hc
          simp [Position.next, Position.code, hquote]
        refine hcons (t := { s.keep c with mode := .quoted c }) (.inr ⟨c, hc, rfl, hnext⟩)
          fun rest => scan_quote hs hc (ne_quotes_of_bland hc hquotes rest)
      · have hplain : isPlain c = true := by simp [isPlain, isQuiet, hbreak, hcomment, hc, hescape]
        have hdepth : s.depth ≤ maxBrackets := (Nat.le_max_left _ _).trans hmost
        rcases follows_char hplain s hs hdepth with ⟨-, t, ht, hafter, hscan⟩ | ⟨hlt, -⟩
        · exact hcons (.inl ⟨ht, hafter⟩) fun rest => hscan _ trivial
        · have hone := (Position.code s.depth).most_append [c] text
          rw [List.singleton_append] at hone
          omega
    · by_cases hbreak : c = '\n'
      · subst hbreak
        exact .inr ⟨s.line, fun rest => scan_quoted_newline hs _⟩
      by_cases hc : c = quote
      · subst hc
        refine hcons (t := { s.keep c with mode := .code }) (.inl ⟨rfl, ?_⟩)
          fun rest => scan_closing hs hquote _
        simp [Position.next, Position.code, hescape, State.keep]
      · refine hcons (t := s) (.inr ⟨quote, hquote, hs, ?_⟩)
          fun rest => scan_quoted_char hs hbreak hescape hc _
        simp [Position.next, hescape, hc]

/-! ## Lines -/

/-- A text leads from code with `d` open brackets to code with `e` of them, and there are never too
many. -/
def Leads (d : Nat) (cs : List Char) (e : Nat) : Prop :=
  (Position.code d).after cs = .code e ∧ (Position.code d).most cs ≤ maxBrackets

instance (d : Nat) (cs : List Char) (e : Nat) : Decidable (Leads d cs e) :=
  inferInstanceAs (Decidable (_ ∧ _))

theorem Leads.append {f : Nat} {xs : List Char} (hx : Leads d xs e) (hy : Leads e ys f) :
    Leads d (xs ++ ys) f := by
  constructor
  · rw [Position.after_append, hx.1, hy.1]
  · rw [Position.most_append, hx.1]
    exact Nat.max_le.mpr ⟨hx.2, hy.2⟩

theorem Leads.end_le (h : Leads d cs e) : e ≤ maxBrackets := by
  have hend := Position.depth_after_le (.code d) cs
  rw [h.1] at hend
  exact Nat.le_trans hend h.2

theorem leads_of_opens {top : Nat} (h : Opens d cs e top) (htop : top ≤ maxBrackets) :
    Leads d cs e := ⟨h.after, h.most.trans_le htop⟩

theorem leads_inert (h : ∀ c ∈ cs, Script.isInert c = true) (hd : d ≤ maxBrackets) :
    Leads d cs d := leads_of_opens (Script.opens_inert h d) hd

/-- A plain text, such as the code before a value. -/
def PlainLeads (d : Nat) (cs : List Char) (e : Nat) : Prop :=
  (∀ c ∈ cs, isPlain c = true) ∧ Leads d cs e

instance (d : Nat) (cs : List Char) (e : Nat) : Decidable (PlainLeads d cs e) :=
  inferInstanceAs (Decidable (_ ∧ _))

/-- Scanned from code with `d` brackets open, a text leads to code with as many open as `ends`
says, or to a text that is left open, and not to too many brackets. -/
def Reaches (behind : List Char → Prop) (d : Nat) (text : List Char) (ends : Nat → Prop) : Prop :=
  ∀ s : State, s.mode = .code → s.depth = d →
    (∃ t : State, t.mode = .code ∧ ends t.depth ∧
      ∀ rest, behind rest → scan s (text ++ rest) = scan t rest) ∨
    ∃ line, ∀ rest, behind rest → scan s (text ++ rest) = .error (.unterminated line)

theorem reaches_nil (behind : List Char → Prop) (d : Nat) : Reaches behind d [] (· = d) :=
  fun s hs hd => .inl ⟨s, hs, hd, fun _ _ => rfl⟩

theorem Reaches.mono (h : Reaches behind d text P) (hle : ∀ k, P k → Q k) :
    Reaches behind d text Q := by
  intro s hs hd
  refine (h s hs hd).imp_left ?_
  rintro ⟨t, ht, hends, hscan⟩
  exact ⟨t, ht, hle _ hends, hscan⟩

theorem Reaches.append {xs : List Char} (hx : Reaches behind d xs P)
    (hy : ∀ k, P k → Reaches other k ys Q) (hbehind : ∀ rest, other rest → behind (ys ++ rest)) :
    Reaches other d (xs ++ ys) Q := by
  intro s hs hd
  rcases hx s hs hd with ⟨t, ht, hends, hscan⟩ | ⟨line, hfault⟩
  · have hstep : ∀ rest, other rest → scan s (xs ++ ys ++ rest) = scan t (ys ++ rest) := by
      intro rest hrest
      rw [List.append_assoc, hscan _ (hbehind rest hrest)]
    rcases hy _ hends t ht rfl with ⟨u, hu, hends', hscan'⟩ | ⟨line, hfault⟩
    · exact .inl ⟨u, hu, hends', fun rest hrest => by rw [hstep rest hrest, hscan' rest hrest]⟩
    · exact .inr ⟨line, fun rest hrest => by rw [hstep rest hrest, hfault rest hrest]⟩
  · refine .inr ⟨line, fun rest hrest => ?_⟩
    rw [List.append_assoc, hfault _ (hbehind rest hrest)]

theorem Reaches.trans {xs : List Char} (hx : Reaches behind d xs (· = e))
    (hy : Reaches other e ys Q) (hbehind : ∀ rest, other rest → behind (ys ++ rest)) :
    Reaches other d (xs ++ ys) Q :=
  hx.append (fun _ hk => hk ▸ hy) hbehind

theorem Follows.reaches (h : Follows behind text) (hleads : Leads d text e) :
    Reaches behind d text (· = e) := by
  rintro s hs rfl
  obtain ⟨hend, hmost⟩ := hleads
  have hdepth : s.depth ≤ maxBrackets := (Position.depth_le_most (.code s.depth) text).trans hmost
  rcases h s hs hdepth with ⟨-, t, ht, hafter, hscan⟩ | ⟨hlt, -⟩
  · refine .inl ⟨t, ht, ?_, hscan⟩
    rw [hend] at hafter
    exact (congrArg Position.depth hafter).symm
  · omega

/-- Some lines, each with its line feed. -/
def Rows (d : Nat) (lines : List String) (ends : Nat → Prop) : Prop :=
  Reaches anything d (written lines) ends

theorem rows_nil (d : Nat) : Rows d [] (· = d) := reaches_nil _ d

theorem Rows.bind {ys : List String} (hx : Rows d xs P) (hy : ∀ k, P k → Rows k ys Q) :
    Rows d (xs ++ ys) Q := by
  rw [Rows, written, List.flatMap_append]
  exact Reaches.append hx hy fun _ _ => trivial

theorem Rows.append {ys : List String} (hx : Rows d xs (· = e)) (hy : Rows e ys Q) :
    Rows d (xs ++ ys) Q := hx.bind fun _ hk => hk ▸ hy

theorem Rows.cons (hline : Rows d [line] (· = e)) (hlines : Rows e lines Q) :
    Rows d (line :: lines) Q :=
  hline.append hlines

theorem rows_flatMap {α : Type} {xs : List α} {f : α → List String}
    (h : ∀ x ∈ xs, Rows d (f x) (· = d)) : Rows d (xs.flatMap f) (· = d) := by
  induction xs with
  | nil => exact rows_nil d
  | cons x rest ih =>
    obtain ⟨hx, hrest⟩ := List.forall_mem_cons.mp h
    rw [List.flatMap_cons]
    exact hx.append (ih hrest)

theorem rows_forall (h : ∀ line ∈ lines, Rows d [line] (· = d)) : Rows d lines (· = d) := by
  simpa using rows_flatMap h

theorem rows_singleton {ends : Nat → Prop} :
    Rows d [line] ends ↔ Reaches anything d (line.toList ++ ['\n']) ends := by
  rw [Rows, written, List.flatMap_singleton]

/-- A line without escapes and comments ends where its positions do, unless it leaves a text
open. -/
theorem rows_bland (h : bland line.toList = true)
    (hmost : (Position.code d).most line.toList ≤ maxBrackets) :
    Rows d [line] fun k => (Position.code d).after line.toList = .code k := by
  rw [rows_singleton]
  rintro s hs rfl
  refine (scan_bland h (.inl ⟨hs, rfl⟩) hmost).imp ?_ ?_
  · rintro ⟨t, ht, hafter, hscan⟩
    exact ⟨t, ht, hafter, fun rest _ => by rw [List.append_assoc]; exact hscan rest⟩
  · rintro ⟨line, hfault⟩
    exact ⟨line, fun rest _ => by rw [List.append_assoc]; exact hfault rest⟩

theorem rows_of_leads (h : bland line.toList = true) (hleads : Leads d line.toList e) :
    Rows d [line] (· = e) := by
  refine (rows_bland h hleads.2).mono fun k hk => ?_
  rw [hleads.1] at hk
  exact (congrArg Position.depth hk).symm

/-- A fixed line, given by its characters. -/
theorem rows_literal (h : bland cs = true ∧ Leads d cs e) : Rows d [String.ofList cs] (· = e) :=
  rows_of_leads (by rw [String.toList_ofList]; exact h.1) (by rw [String.toList_ofList]; exact h.2)

/-- A line that the scanner follows. -/
theorem rows_of_follows (h : Follows anything line.toList) (hleads : Leads d line.toList e) :
    Rows d [line] (· = e) := by
  have hfeed : Rows e [""] (· = e) := rows_of_leads rfl ⟨rfl, hleads.end_le⟩
  rw [rows_singleton] at hfeed ⊢
  exact (h.reaches hleads).trans hfeed fun _ _ => trivial

/-! ## Code in lines -/

/-- A text of tokens that opens `k` brackets at once and closes them again. -/
def Spans (text : String) (k : Nat) : Prop :=
  ∃ ts, Script.lex text.toList = some ts ∧ Script.Balanced ts k

theorem Spans.opens {text : String} (h : Spans text k) (d : Nat) :
    Opens d text.toList d (d + k) := by
  obtain ⟨ts, hlex, hbalanced⟩ := h
  exact hbalanced.opens hlex d

theorem spans_quoted (s : String) : Spans (Text.quoted s) 0 :=
  ⟨[.text s], (Script.Spells.text s).alone, Script.Balanced.nil.cons fun _ => rfl⟩

theorem spans_scalar {s : Scalar} (h : s.isFinite = true) : Spans s.toValue.written 0 :=
  ⟨s.tokens, (spells_scalar s h).alone, s.tokens_balanced⟩

theorem spans_code {c : Code} (h : c.Grouped) : Spans c.render c.brackets :=
  ⟨c.tokens, (c.spells_of_grouped h).alone, c.tokens_balanced⟩

/-- A piece of code in a line, with plain text before it. -/
theorem rows_code {code after : String} {ends : Nat → Prop} (hbefore : PlainLeads d before e)
    (hcode : Spans code k) (hk : e + k ≤ maxBrackets) (hafter : Rows e [after] ends)
    (hquote : after.toList.head?.any isQuote = false) :
    Rows d [String.ofList before ++ code ++ after] ends := by
  have hleads := leads_of_opens (hcode.opens e) hk
  obtain ⟨ts, hlex, -⟩ := hcode
  rw [rows_singleton] at hafter ⊢
  have hrest : Reaches anything e (code.toList ++ (after.toList ++ ['\n'])) ends := by
    refine ((follows_of_lex hlex).reaches hleads).trans hafter fun rest _ => ?_
    unfold unquoted
    cases hlist : after.toList with
    | nil => rfl
    | cons c cs => simpa [hlist] using hquote
  have hall := ((follows_plain hbefore.1).reaches hbefore.2).trans hrest fun _ _ => trivial
  simpa only [String.toList_append, String.toList_ofList, List.append_assoc] using hall

/-- A piece of code at the end of a line. -/
theorem rows_code_end {code : String} (hbefore : PlainLeads d before e) (hcode : Spans code k)
    (hk : e + k ≤ maxBrackets) : Rows d [String.ofList before ++ code] (· = e) := by
  have hempty : Rows e [""] (· = e) := rows_of_leads rfl ⟨rfl, hbefore.2.end_le⟩
  simpa using rows_code hbefore hcode hk hempty rfl

/-! ## Level lines -/

/-- Lines that start and end without an open bracket. -/
def Level (lines : List String) : Prop := Rows 0 lines (· = 0)

theorem Level.append {ys : List String} (hx : Level xs) (hy : Level ys) : Level (xs ++ ys) :=
  Rows.append hx hy

theorem Level.cons (hline : Level [line]) (hlines : Level lines) :
    Level (line :: lines) := hline.append hlines

theorem level_literal (h : bland cs = true ∧ Leads 0 cs 0) :
    Level [String.ofList cs] := rows_literal h

theorem level_blank : Level [""] := level_literal ⟨rfl, by decide⟩

/-- A name in a line. -/
theorem level_named {after : List Char} {name : String}
    (hbefore : (∀ c ∈ before, isQuiet c = true) ∧ Leads 0 before 0)
    (hname : ∀ c ∈ name.toList, isQuiet c = true ∧ Script.isInert c = true)
    (hafter : (∀ c ∈ after, isQuiet c = true) ∧ Leads 0 after 0) :
    Level [String.ofList before ++ name ++ String.ofList after] := by
  have hleads := (hbefore.2.append (leads_inert (fun c hc => (hname c hc).2) (by decide))).append
    hafter.2
  refine rows_of_leads (bland_of_quiet ?_) ?_
  · simp only [String.toList_append, String.toList_ofList, List.forall_mem_append]
    exact ⟨⟨hbefore.1, fun c hc => (hname c hc).1⟩, hafter.1⟩
  · simpa only [String.toList_append, String.toList_ofList] using hleads

/-- A comment, with blanks before it. -/
theorem level_comment (hline : line.toList = before ++ '#' :: text)
    (hbefore : ∀ c ∈ before, c = ' ') (htext : ∀ c ∈ text, Script.isInline c = true) :
    Level [line] := by
  have hplain : ∀ c ∈ before, isPlain c = true := fun c hc => by rw [hbefore c hc]; rfl
  have hinert : ∀ c ∈ before, Script.isInert c = true := fun c hc => by rw [hbefore c hc]; rfl
  have hblank := (follows_plain hplain).reaches (leads_inert hinert (Nat.zero_le _))
  have hfeed := (Script.not_mem_of_isInline htext).1
  have hcomment : Reaches anything 0 ('#' :: (text ++ ['\n'])) (· = 0) := by
    intro s hs hd
    refine .inl ⟨{ s with mode := .comment }.newline, State.newline_mode _,
      (State.newline_depth _).trans hd, fun rest _ => ?_⟩
    rw [← scan_comment_line hs hfeed rest]
    simp
  have hall := hblank.trans hcomment fun _ _ => trivial
  rw [Level, rows_singleton, hline]
  simpa only [List.append_assoc, List.cons_append] using hall

/-! ## Lines that are not passed -/

/-- From code without an open bracket the scanner does not get past these lines. -/
def Halts (lines : List String) : Prop :=
  ∀ s : State, s.mode = .code → s.depth = 0 →
    ∃ fault, ∀ rest, scan s (written lines ++ rest) = .error fault

theorem Halts.append (h : Halts xs) (ys : List String) : Halts (xs ++ ys) := by
  intro s hs hd
  obtain ⟨fault, hfault⟩ := h s hs hd
  refine ⟨fault, fun rest => ?_⟩
  rw [written, List.flatMap_append, List.append_assoc]
  exact hfault _

theorem Level.halts_append {ys : List String} (hx : Level xs) (hy : Halts ys) :
    Halts (xs ++ ys) := by
  intro s hs hd
  rcases hx s hs hd with ⟨t, ht, hend, hscan⟩ | ⟨line, hfault⟩
  · obtain ⟨fault, hfault⟩ := hy t ht hend
    refine ⟨fault, fun rest => ?_⟩
    rw [written, List.flatMap_append, List.append_assoc]
    exact (hscan _ trivial).trans (hfault rest)
  · refine ⟨.unterminated line, fun rest => ?_⟩
    rw [written, List.flatMap_append, List.append_assoc]
    exact hfault _ trivial

theorem halts_of_follows (h : Follows anything line.toList)
    (hmost : maxBrackets < Script.mostOpen line) : Halts [line] := by
  intro s hs hd
  rcases h s hs (by omega) with ⟨hle, -⟩ | ⟨-, number, hfault⟩
  · rw [hd] at hle
    exact absurd hmost (Nat.not_lt.mpr hle)
  · refine ⟨.tooManyBrackets number, fun rest => ?_⟩
    rw [written, List.flatMap_singleton, List.append_assoc]
    exact hfault _ trivial

/-! ## Texts of lines -/

theorem logicalLines_eq_scan (htidy : ∀ line ∈ lines, Tidy line) {text : String}
    (htext : text.toList = written lines) : logicalLines text = scan {} (written lines ++ []) := by
  have hunify : unifyBreaks text.toList = written lines := by
    simpa [htext, unifyBreaks] using unifyBreaks_written htidy (List.not_mem_nil (a := '\r')) []
  rw [logicalLines, hunify, List.append_nil]

theorem logicalLines_of_halts (htidy : ∀ line ∈ lines, Tidy line) (h : Halts lines) {text : String}
    (htext : text.toList = written lines) : ∃ fault, logicalLines text = .error fault := by
  obtain ⟨fault, hfault⟩ := h {} rfl rfl
  exact ⟨fault, (logicalLines_eq_scan htidy htext).trans (hfault [])⟩

/-- **Level lines do not hold too many brackets.** -/
theorem logicalLines_ne_tooManyBrackets (htidy : ∀ line ∈ lines, Tidy line) (h : Level lines)
    {text : String} (htext : text.toList = written lines) (line : Nat) :
    logicalLines text ≠ .error (.tooManyBrackets line) := by
  rw [logicalLines_eq_scan htidy htext]
  rcases h {} rfl rfl with ⟨t, ht, -, hscan⟩ | ⟨line, hfault⟩
  · rw [hscan [] trivial, scan.eq_def, ht]
    simp
  · rw [hfault [] trivial]
    simp

end Scan

end Stratagem
