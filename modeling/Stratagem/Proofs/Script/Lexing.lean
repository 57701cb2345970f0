import Stratagem.Proofs.Script.Number
import Stratagem.Proofs.Script.Parsing

/-! Grouped code is spelled by its tokens, and so reads as its script. Each piece of a text is taken
with what comes behind it: a piece ends where a blank, a comma or a closing bracket follows, and
one that is no number also before a point. -/

namespace Stratagem

open Script

/-- A piece of code ends here; a point may follow it or not. -/
def Script.ends (dotted : Bool) (rest : List Char) : Bool :=
  rest.head?.all fun c => c ∈ [' ', ')', ',', ']'] || dotted && c == '.'

/-- A text is spelled by some tokens, whatever comes behind its end. -/
def Script.Spells (dotted : Bool) (s : String) (ts : List Token) : Prop :=
  ∀ rest, ends dotted rest = true → lex (s.toList ++ rest) = (lex rest).map (ts ++ ·)

namespace Script

variable {dotted : Bool} {rest : List Char} {f : String}

theorem ends_cases (h : ends dotted rest = true) :
    rest = [] ∨ ∃ c more, rest = c :: more ∧
      (c ∈ [' ', ')', ',', ']'] ∨ dotted = true ∧ c = '.') := by
  cases rest with
  | nil => exact .inl rfl
  | cons c more => exact .inr ⟨c, more, rfl, by simpa [ends] using h⟩

theorem endsName_of_ends (h : ends dotted rest = true) : endsName rest = true := by
  rcases ends_cases h with rfl | ⟨c, more, rfl, hc | ⟨-, rfl⟩⟩
  · rfl
  · have hall : [' ', ')', ',', ']'].all (fun c => !nameChar c && !isQuote c) = true := by decide
    exact List.all_eq_true.mp hall c hc
  · rfl

theorem endsNumber_of_ends (h : ends false rest = true) : endsNumber rest = true := by
  rcases ends_cases h with rfl | ⟨c, more, rfl, hc | ⟨hdot, -⟩⟩
  · rfl
  · have hall : [' ', ')', ',', ']'].all (fun c => !nameChar c && c != '.') = true := by decide
    exact List.all_eq_true.mp hall c hc
  · cases hdot

theorem ends_dotted (h : ends false rest = true) (dotted : Bool) : ends dotted rest = true := by
  cases rest with
  | nil => rfl
  | cons c more => simp_all [ends]

theorem ends_cons {c : Char} (hc : c ∈ [' ', ')', ',', ']']) (dotted : Bool) (rest : List Char) :
    ends dotted (c :: rest) = true := by
  simp only [ends, List.head?_cons, Option.all_some, Bool.or_eq_true, decide_eq_true_eq]
  exact .inl hc

/-! ## Pieces -/

theorem lex_word {s : String} (hs : isName s.toList = true) (hr : endsName rest = true) :
    lex (s.toList ++ rest) = (lex rest).map (.name s :: ·) := by
  rw [lex_name hs hr, String.ofList_toList]

/-- A name and a symbol that cannot belong to it. -/
theorem lex_word_mark {s : String} (hs : isName s.toList = true) {c : Char}
    (hc : c ∈ ['(', '.', '[']) (rest : List Char) :
    lex (s.toList ++ c :: rest) =
      (lex rest).map ([.name s, .symbol (String.singleton c)] ++ ·) := by
  have hall : ['(', '.', '['].all (fun c => decide (c ∈ soloMarks ∧
      (!nameChar c && !isQuote c) = true)) = true := by decide
  have hmarks := of_decide_eq_true (List.all_eq_true.mp hall c hc)
  rw [lex_word hs (by simpa [endsName] using hmarks.2), lex_solo c hmarks.1, Option.map_map]
  rfl

/-- A text is spelled by some tokens, and nothing behind it changes that. -/
def Piece (s : String) (ts : List Token) : Prop :=
  ∀ rest, lex (s.toList ++ rest) = (lex rest).map (ts ++ ·)

theorem piece_library {l : String} (hl : isName l.toList = true) (hf : isName f.toList = true) :
    Piece (l ++ "." ++ f ++ "(") [.name l, .symbol ".", .name f, .symbol "("] := by
  intro rest
  simp only [String.toList_append, List.append_assoc]
  change lex (l.toList ++ '.' :: (f.toList ++ '(' :: rest)) = _
  rw [lex_word_mark hl (by decide), lex_word_mark hf (by decide), Option.map_map]
  rfl

theorem piece_method (hf : isName f.toList = true) :
    Piece ("." ++ f ++ "(") [.symbol ".", .name f, .symbol "("] := by
  intro rest
  simp only [String.toList_append, List.append_assoc]
  change lex ('.' :: (f.toList ++ '(' :: rest)) = _
  rw [lex_solo '.' (by decide), lex_word_mark hf (by decide), Option.map_map]
  rfl

theorem piece_function (hf : isName f.toList = true) : Piece (f ++ "(") [.name f, .symbol "("] := by
  intro rest
  simp only [String.toList_append, List.append_assoc]
  exact lex_word_mark hf (by decide) rest

namespace Spells

variable {s inner left right : String} {ts os ls rs : List Token} {dotted : Bool}

/-- What may stand before a point may also stand elsewhere. -/
theorem plain (h : Spells dotted s ts) : Spells false s ts :=
  fun rest hr => h rest (ends_dotted hr dotted)

/-- The tokens of a text that stands on its own. -/
theorem alone (h : Spells dotted s ts) : lex s.toList = some ts := by
  simpa [lex_nil] using h [] rfl

theorem word (hs : isName s.toList = true) : Spells true s [.name s] :=
  fun _ hr => lex_word hs (endsName_of_ends hr)

theorem text (s : String) : Spells true (Text.quoted s) [.text s] := by
  intro rest hr
  refine lex_text s ?_
  rcases ends_cases hr with rfl | ⟨c, more, rfl, hc | ⟨-, rfl⟩⟩
  · rfl
  · have hall : [' ', ')', ',', ']'].all (fun c => !isQuote c) = true := by decide
    simpa using List.all_eq_true.mp hall c hc
  · rfl

theorem nat (n : Nat) : Spells false (natText n) [.integer n] :=
  fun _ hr => lex_nat n (endsNumber_of_ends hr)

/-- Code with something in front of it. -/
theorem after (hs : Piece s os) (h : Spells dotted inner ts) :
    Spells dotted (s ++ inner) (os ++ ts) := by
  intro rest hr
  rw [String.toList_append, List.append_assoc, hs, h rest hr]
  simp [Option.map_map, Function.comp_def]

/-- Code with something behind it, at which it ends. -/
theorem append {also : Bool} (hl : Spells dotted left ls) (hr : Spells also right rs)
    (hne : right.toList ≠ []) (hends : ends dotted right.toList = true) :
    Spells also (left ++ right) (ls ++ rs) := by
  intro rest hrest
  have hends : ends dotted (right.toList ++ rest) = true := by
    rwa [ends, List.head?_append_of_ne_nil _ hne]
  rw [String.toList_append, List.append_assoc, hl _ hends, hr rest hrest]
  simp [Option.map_map, Function.comp_def]

theorem closing {close : String} (hclose : close = ")" ∨ close = "]") :
    Spells true close [.symbol close] := by
  intro rest _
  rcases hclose with rfl | rfl
  · exact lex_solo ')' (by decide) rest
  · exact lex_solo ']' (by decide) rest

/-- Brackets, or a call, around code. -/
theorem enclosed {s inner close : String} {os ts : List Token} (hs : Piece s os)
    (hinner : Spells false inner ts) (hclose : close = ")" ∨ close = "]") :
    Spells true (s ++ inner ++ close) (os ++ (ts ++ [.symbol close])) := by
  rw [String.append_assoc]
  refine after hs (hinner.append (closing hclose) ?_ ?_) <;>
    rcases hclose with rfl | rfl <;> decide

theorem call (hs : Piece s os) (hinner : Spells false inner ts) :
    Spells true (s ++ inner ++ ")") (os ++ (ts ++ [.symbol ")"])) :=
  enclosed hs hinner (.inl rfl)

/-- Something between two pieces of code that starts with a blank or a comma. -/
theorem between (hl : Spells false left ls) (hs : Piece s os) (hr : Spells dotted right rs)
    (hne : s.toList ≠ []) (hends : ends false s.toList = true) :
    Spells dotted (left ++ s ++ right) (ls ++ (os ++ rs)) := by
  rw [String.append_assoc]
  refine hl.append (after hs hr) ?_ ?_
  · simp [hne]
  · rwa [ends, String.toList_append, List.head?_append_of_ne_nil _ hne]

theorem comma (hl : Spells false left ls) (hr : Spells dotted right rs) :
    Spells dotted (left ++ ", " ++ right) (ls ++ .symbol "," :: rs) := by
  have hs : Piece ", " [.symbol ","] := by
    intro rest
    change lex (',' :: ' ' :: rest) = _
    rw [lex_solo ',' (by decide), lex_blank]
    rfl
  exact hl.between hs hr (by simp) (by decide)

/-- An operator with blanks around it. -/
theorem infixed {op : String} {ops : List Token} (hl : Spells false left ls)
    (hop : Spells false op ops) (hr : Spells dotted right rs) :
    Spells dotted (Code.infixed left op right) (ls ++ (ops ++ rs)) := by
  have hs : Piece (" " ++ op ++ " ") ops := by
    intro rest
    simp only [String.toList_append, List.append_assoc]
    change lex (' ' :: (op.toList ++ ' ' :: rest)) = _
    rw [lex_blank, hop _ (ends_cons (by decide) false _), lex_blank]
  have h := hl.between hs hr (by simp) (by simp [ends])
  simpa only [Code.infixed, String.append_assoc] using h

/-- A call of two arguments. -/
theorem callPair (hs : Piece s os) (hl : Spells false left ls) (hr : Spells false right rs) :
    Spells true (s ++ left ++ ", " ++ right ++ ")")
      (os ++ (ls ++ .symbol "," :: rs ++ [.symbol ")"])) := by
  simpa only [String.append_assoc] using call hs (hl.comma hr)

/-- What stands behind a value starts with a point. -/
theorem behind {e more : String} {es : List Token} (he : Spells true e es)
    (hmore : Spells dotted more ts) (hpoint : more.toList.head? = some '.') :
    Spells dotted (e ++ more) (es ++ ts) := by
  refine he.append hmore ?_ ?_
  · rintro h
    simp [h] at hpoint
  · simp [ends, hpoint]

/-- A call of a method of a value. -/
theorem method {e : String} {es : List Token} (he : Spells true e es) (hs : Piece s os)
    (hpoint : s.toList.head? = some '.') (hinner : Spells false inner ts) :
    Spells true (e ++ s ++ inner ++ ")") (es ++ (os ++ (ts ++ [.symbol ")"]))) := by
  have h := he.behind (call hs hinner) (by simp [String.toList_append, hpoint])
  simpa only [String.append_assoc] using h

end Spells

/-! ## Literals -/

theorem Spells.negative {s : String} {ts : List Token} (h : Spells dotted s ts) :
    Spells dotted ("-" ++ s) (.symbol "-" :: ts) := by
  have hsign : Piece "-" [.symbol "-"] := lex_solo '-' (by decide)
  exact .after hsign h

theorem Spells.float (x : Binary64) (hx : x.isFinite = true) :
    Spells false x.text (signTokens x.isNegative ++ [.float x.magnitude]) := by
  cases x with
  | nan => cases hx
  | infinite negative => cases hx
  | finite negative m e hc =>
    have hmagnitude : Spells false (Binary64.finite false m e hc).text
        [.float (.finite false m e hc)] := fun _ hr => lex_float hc (endsNumber_of_ends hr)
    cases negative with
    | false => exact hmagnitude
    | true =>
      have htext : (Binary64.finite true m e hc).text =
          "-" ++ (Binary64.finite false m e hc).text := by
        simp [Binary64.text]
      rw [htext]
      exact hmagnitude.negative

end Script

/-- Whether a point may follow code: it may not follow a number. -/
def Code.dottable (c : Code) : Bool := c.rank == 11

theorem spells_scalar (s : Scalar) (hs : s.isFinite = true) :
    Spells (Code.literal (.scalar s)).dottable s.toValue.written s.tokens := by
  cases s with
  | null => exact .word (by decide)
  | bool b => cases b <;> exact .word (by decide)
  | int n =>
    show Spells false (Value.int n).written (signTokens (n < 0) ++ [.integer n.natAbs])
    rw [Value.written, intText]
    by_cases hn : n < 0
    · simpa [hn, signTokens] using (Spells.nat n.natAbs).negative
    · simpa [hn, signTokens] using Spells.nat n.natAbs
  | float x => exact .float x hs
  | text s => exact .text s

private theorem spells_commas {items : List Scalar} (hne : items ≠ [])
    (h : ∀ s ∈ items, s.isFinite = true) :
    Spells false (", ".intercalate (items.map fun s => s.toValue.written))
      (commas (items.map Scalar.tokens)) := by
  induction items with
  | nil => exact absurd rfl hne
  | cons s items ih =>
    have hone := (spells_scalar s (h s (by simp))).plain
    cases items with
    | nil => simpa [commas] using hone
    | cons s' items =>
      simp only [List.map_cons, String.intercalate_cons_cons]
      exact hone.comma (ih (by simp) fun s hs => h s (by simp [hs]))

private theorem writtenItems_eq (items : List Scalar) :
    Value.writtenItems (items.map Scalar.toValue) = items.map fun s => s.toValue.written := by
  induction items with
  | nil => rfl
  | cons s items ih => rw [List.map_cons, Value.writtenItems, ih, List.map_cons]

private theorem spells_literal (value : Constant) (h : value.isFinite = true) :
    Spells (Code.literal value).dottable value.toValue.written value.tokens := by
  cases value with
  | scalar s => exact spells_scalar s h
  | list items =>
    have hopen : Piece "[" [.symbol "["] := fun rest => lex_solo '[' (by decide) rest
    rw [Constant.toValue, Value.written, writtenItems_eq]
    by_cases hne : items = []
    · subst hne
      intro rest _
      change lex ('[' :: ']' :: rest) = _
      rw [lex_solo '[' (by decide), lex_solo ']' (by decide), Option.map_map]
      rfl
    · have hitems := spells_commas hne (by simpa [Constant.isFinite] using h)
      exact Spells.enclosed hopen hitems (.inr rfl)

/-! ## All code -/

private theorem spells_subscript {table : String} (ht : isName table.toList = true)
    (column : String) :
    Spells true (Code.subscript table column) (Code.subscriptTokens table column) := by
  have hopen : Piece (table ++ "[") [.name table, .symbol "["] := by
    intro rest
    rw [String.toList_append, List.append_assoc]
    exact lex_word_mark ht (by decide) rest
  exact Spells.enclosed hopen ((Spells.text column).plain) (.inr rfl)

private theorem spells_candle (column : String) (ago : Nat) :
    Spells true (Code.candleText column ago) (Code.candleTokens column ago) := by
  rw [Code.candleText.eq_def, Code.candleTokens.eq_def]
  split
  · exact spells_subscript (by decide) column
  · exact spells_subscript (by decide) column
  · have hopen : Piece ".iat[-" [.symbol ".", .name "iat", .symbol "[", .symbol "-"] := by
      intro rest
      change lex ('.' :: ("iat".toList ++ '[' :: '-' :: rest)) = _
      rw [lex_solo '.' (by decide), lex_word_mark (by decide) (by decide),
        lex_solo '-' (by decide), Option.map_map, Option.map_map]
      rfl
    have hindex := Spells.enclosed hopen (Spells.nat (ago + 1)) (.inr rfl)
    have htable : Spells true (Code.subscript "dataframe" column) _ :=
      spells_subscript (by decide) column
    simpa only [String.append_assoc, List.cons_append, List.nil_append] using
      htable.behind hindex (by simp)

private theorem spells_arith (op : Arith) : Spells false op.symbol [.symbol op.symbol] := by
  intro rest _
  cases op <;> exact lex_solo _ (by decide) rest

private theorem spells_join (c : Connective) : Spells false c.symbol [Code.joinTokens c] := by
  cases c with
  | seriesAnd => exact fun rest _ => lex_solo '&' (by decide) rest
  | seriesOr => exact fun rest _ => lex_solo '|' (by decide) rest
  | and => exact (Spells.word (by decide)).plain
  | or => exact (Spells.word (by decide)).plain

private theorem spells_relation (r : Relation) : Spells false r.symbol [.symbol r.symbol] := by
  intro rest hr
  have hne : rest.head? ≠ some '=' := by
    rcases ends_cases hr with rfl | ⟨c, more, rfl, hc | ⟨hdot, -⟩⟩
    · simp
    · rintro h
      obtain rfl : c = '=' := by simpa using h
      exact absurd hc (by decide)
    · cases hdot
  cases r with
  | eq => exact lex_relation '=' (by decide) rest
  | neq => exact lex_relation '!' (by decide) rest
  | gt => exact lex_mark '>' (by decide) rest fun _ => hne
  | gte => exact lex_relation '>' (by decide) rest
  | lt => exact lex_mark '<' (by decide) rest fun _ => hne
  | lte => exact lex_relation '<' (by decide) rest

private theorem spells_member (negated : Bool) :
    Spells false (if negated then "not in" else "in") (Code.memberTokens negated) := by
  have hin : Spells false "in" [.name "in"] := (Spells.word (by decide)).plain
  cases negated with
  | false => exact hin
  | true =>
    intro rest hr
    change lex ("not".toList ++ ' ' :: ("in".toList ++ rest)) = _
    rw [lex_word (by decide) (by rfl), lex_blank, hin rest hr, Option.map_map]
    rfl

private theorem spells_attribute {f : String} (hf : isName f.toList = true) :
    Spells true ("." ++ f) [.symbol ".", .name f] := by
  intro rest hr
  rw [String.toList_append, List.append_assoc]
  change lex ('.' :: (f.toList ++ rest)) = _
  rw [lex_solo '.' (by decide), lex_word hf (endsName_of_ends hr), Option.map_map]
  rfl

private theorem spells_seriesPart (part : TimePart) : Spells true part.ofSeries
    [.symbol ".", .name "dt", .symbol ".", .name part.seriesWord] := by
  have hpart {f : String} (hf : isName f.toList = true) :
      Spells true (".dt" ++ ("." ++ f)) [.symbol ".", .name "dt", .symbol ".", .name f] :=
    (spells_attribute (f := "dt") (by decide)).behind (spells_attribute hf) (by simp)
  cases part with
  | hour => exact hpart (f := "hour") (by decide)
  | minute => exact hpart (f := "minute") (by decide)
  | dayOfWeek => exact hpart (f := "dayofweek") (by decide)
  | dayOfMonth => exact hpart (f := "day") (by decide)
  | month => exact hpart (f := "month") (by decide)

private theorem spells_momentPart (part : TimePart) :
    Spells true part.ofMoment part.momentTokens := by
  cases part with
  | hour => exact spells_attribute (f := "hour") (by decide)
  | minute => exact spells_attribute (f := "minute") (by decide)
  | dayOfWeek =>
    intro rest _
    have hcall : Piece ".weekday(" _ := piece_method (f := "weekday") (by decide)
    change lex (".weekday(".toList ++ ')' :: rest) = _
    rw [hcall, lex_solo ')' (by decide), Option.map_map]
    rfl
  | dayOfMonth => exact spells_attribute (f := "day") (by decide)
  | month => exact spells_attribute (f := "month") (by decide)

private theorem piece_seriesZone : Piece ".dt.tz_convert("
    [.symbol ".", .name "dt", .symbol ".", .name "tz_convert", .symbol "("] := by
  intro rest
  change lex ('.' :: ("dt".toList ++ '.' :: ("tz_convert".toList ++ '(' :: rest))) = _
  rw [lex_solo '.' (by decide), lex_word_mark (by decide) (by decide),
    lex_word_mark (by decide) (by decide), Option.map_map, Option.map_map]
  rfl

private theorem spells_momentZone {e : String} {es : List Token} (he : Spells true e es)
    (zone : String) : Spells true (e ++ ".astimezone(ZoneInfo(" ++ Text.quoted zone ++ "))")
      (es ++ ([.symbol ".", .name "astimezone", .symbol "(", .name "ZoneInfo", .symbol "(",
        .text zone, .symbol ")", .symbol ")"] : List Token)) := by
  have hopen : Piece ".astimezone(" _ := piece_method (f := "astimezone") (by decide)
  have hzone : Piece "ZoneInfo(" _ := piece_function (f := "ZoneInfo") (by decide)
  have h := he.method hopen rfl (Spells.call hzone (Spells.text zone).plain).plain
  have hspell : e ++ ".astimezone(" ++ ("ZoneInfo(" ++ Text.quoted zone ++ ")") ++ ")" =
      e ++ ".astimezone(ZoneInfo(" ++ Text.quoted zone ++ "))" := by
    have hleft : ".astimezone(" ++ "ZoneInfo(" = ".astimezone(ZoneInfo(" := rfl
    have hright : ")" ++ ")" = "))" := rfl
    rw [← hleft, ← hright]
    simp only [String.append_assoc]
  rw [← hspell]
  exact h

private theorem spells_broadcast {e : String} {ts : List Token} (he : Spells false e ts) :
    Spells true ("pd.Series(" ++ e ++ ", index=dataframe.index)")
      (([.name "pd", .symbol ".", .name "Series", .symbol "("] : List Token) ++ (ts ++
        ([.symbol ",", .name "index", .symbol "=", .name "dataframe", .symbol ".", .name "index",
          .symbol ")"] : List Token))) := by
  have hopen : Piece "pd.Series(" _ :=
    piece_library (l := "pd") (f := "Series") (by decide) (by decide)
  have hindex : Spells true ", index=dataframe.index)" [.symbol ",", .name "index", .symbol "=",
      .name "dataframe", .symbol ".", .name "index", .symbol ")"] := by
    intro rest _
    change lex (',' :: ' ' :: ("index".toList ++ '=' :: ("dataframe".toList ++
      '.' :: ("index".toList ++ ')' :: rest)))) = _
    rw [lex_solo ',' (by decide), lex_blank, lex_word (by decide) (by rfl),
      lex_mark '=' (by decide) _ (fun _ => by simp), lex_word_mark (by decide) (by decide),
      lex_word (by decide) (by rfl), lex_solo ')' (by decide)]
    simp only [Option.map_map]
    rfl
  rw [String.append_assoc]
  exact .after hopen (he.append hindex (by simp) (by decide))

private theorem piece_if : Piece " if " [.name "if"] := by
  intro rest
  change lex (' ' :: ("if".toList ++ ' ' :: rest)) = _
  rw [lex_blank, lex_word (by decide) (by rfl), lex_blank]
  rfl

private theorem piece_else : Piece " else " [.name "else"] := by
  intro rest
  change lex (' ' :: ("else".toList ++ ' ' :: rest)) = _
  rw [lex_blank, lex_word (by decide) (by rfl), lex_blank]
  rfl

private theorem piece_pairwise (f : Extremum) : Piece ("np." ++ f.name ++ "imum(")
    [.name "np", .symbol ".", .name (f.name ++ "imum"), .symbol "("] := by
  cases f with
  | min => exact piece_library (l := "np") (f := "minimum") (by decide) (by decide)
  | max => exact piece_library (l := "np") (f := "maximum") (by decide) (by decide)

private theorem piece_crossed (above : Bool) :
    Piece ("qtpylib.crossed_" ++ (if above then "above" else "below") ++ "(")
      [.name "qtpylib", .symbol ".", .name (crossingWord above), .symbol "("] := by
  cases above with
  | true => exact piece_library (l := "qtpylib") (f := "crossed_above") (by decide) (by decide)
  | false => exact piece_library (l := "qtpylib") (f := "crossed_below") (by decide) (by decide)

namespace Code

theorem spells_of_grouped (c : Code) (h : c.Grouped) : Spells c.dottable c.render c.tokens := by
  induction c with
  | literal value => exact spells_literal value h
  | «variable» name => exact .word h.1
  | column name => exact spells_subscript (by decide) name
  | candle name ago => exact spells_candle name ago
  | shifted e candles ih =>
    have he : Spells true e.render e.tokens := by simpa [dottable, h.2] using ih h.1
    have hopen : Piece ".shift(" _ := piece_method (f := "shift") (by decide)
    exact he.method hopen rfl (.nat candles)
  | seriesPart e part ih =>
    have he : Spells true e.render e.tokens := by simpa [dottable, h.2] using ih h.1
    exact he.behind (spells_seriesPart part) (by cases part <;> rfl)
  | momentPart e part ih =>
    have he : Spells true e.render e.tokens := by simpa [dottable, h.2] using ih h.1
    exact he.behind (spells_momentPart part) (by cases part <;> rfl)
  | seriesZone e zone ih =>
    have he : Spells true e.render e.tokens := by simpa [dottable, h.2] using ih h.1
    exact he.method piece_seriesZone rfl (Spells.text zone).plain
  | momentZone e zone ih =>
    have he : Spells true e.render e.tokens := by simpa [dottable, h.2] using ih h.1
    exact spells_momentZone he zone
  | paren e ih =>
    have hopen : Piece "(" [.symbol "("] := lex_solo '(' (by decide)
    exact .call hopen (ih h.1).plain
  | arith op left right ihl ihr =>
    have hnumber : (Code.arith op left right).dottable = false := by cases op <;> rfl
    rw [hnumber]
    exact (ihl h.1).plain.infixed (spells_arith op) (ihr h.2.1).plain
  | compare r left right ihl ihr =>
    exact (ihl h.1).plain.infixed (spells_relation r) (ihr h.2.1).plain
  | join c left right ihl ihr =>
    have hjoin : (Code.join c left right).dottable = false := by cases c <;> rfl
    rw [hjoin]
    exact (ihl h.1).plain.infixed (spells_join c) (ihr h.2.1).plain
  | member negated e items ihl ihr =>
    exact (ihl h.1).plain.infixed (spells_member negated) (ihr h.2.1).plain
  | negative e ih => exact (ih h.1).plain.negative
  | invert e ih =>
    have hsign : Piece "~" [.symbol "~"] := lex_solo '~' (by decide)
    exact .after hsign (ih h.1).plain
  | not e ih =>
    have hnot : Piece "not " [.name "not"] := by
      intro rest
      change lex ("not".toList ++ ' ' :: rest) = _
      rw [lex_word (by decide) (by rfl), lex_blank]
      rfl
    exact .after hnot (ih h.1).plain
  | pointwise f e ih =>
    have hopen : Piece ("np." ++ f.name ++ "(")
        [.name "np", .symbol ".", .name f.name, .symbol "("] :=
      piece_library (l := "np") (by decide) (by cases f <;> decide)
    exact .call hopen (ih h.1).plain
  | pairwise f left right ihl ihr =>
    exact .callPair (piece_pairwise f) (ihl h.1).plain (ihr h.2.1).plain
  | also left right ihl ihr => exact (ihl h.1).plain.comma (ihr h.2).plain
  | extremum f a ih =>
    have hopen : Piece (f.name ++ "(") [.name f.name, .symbol "("] :=
      piece_function (by cases f <;> decide)
    exact .call hopen (ih h).plain
  | isIn e items ihe ihi =>
    have he : Spells true e.render e.tokens := by simpa [dottable, h.2.2.1] using ihe h.1
    have hopen : Piece ".isin(" _ := piece_method (f := "isin") (by decide)
    exact he.method hopen rfl (ihi h.2.1).plain
  | choose condition then_ else_ ihc iht ihe =>
    have hopen : Piece "np.where(" _ :=
      piece_library (l := "np") (f := "where") (by decide) (by decide)
    have hall := ((ihc h.1).plain.comma (iht h.2.1).plain).comma (ihe h.2.2.1).plain
    have hcall := Spells.call hopen hall
    simp only [← String.append_assoc] at hcall
    exact hcall
  | broadcast e ih => exact spells_broadcast (ih h.1).plain
  | crossed above left right ihl ihr =>
    exact .callPair (piece_crossed above) (ihl h.1).plain (ihr h.2.1).plain
  | ifElse then_ condition else_ iht ihc ihe =>
    have hrest := (ihc h.2.1).plain.between piece_else (ihe h.2.2.1).plain (by simp) (by decide)
    have hall := (iht h.1).plain.between piece_if hrest (by simp) (by decide)
    simp only [← String.append_assoc] at hall
    exact hall

/-- **Grouped code reads as its script.** -/
theorem read_render (c : Code) (h : c.Grouped) (hrank : 1 ≤ c.rank) :
    Script.read c.render = some c.script := by
  have hlex : lex c.render.toList = some c.tokens := (c.spells_of_grouped h).alone
  have hparse : parse 1 c.tokens = some (c.script, []) := by
    simpa using (c.parses_of_grouped h).1.stop (by decide) hrank (by decide)
      (rfl : continues 1 [] = false)
  simp [Script.read, hlex, hparse]

end Code

end Stratagem
