import Stratagem.Module.Scan
import Stratagem.Proofs.Script.Lexemes
import Stratagem.Proofs.Script.Lexing

/-! Open brackets of code. `Position` follows a line of code from character to character and counts
the brackets that are open, those within texts left aside. On a line of tokens the count follows the
tokens, and code leaves as many brackets open as it finds; `Code.brackets` is how many more it opens
on the way. -/

namespace Stratagem

namespace Script

open Scan (isOpening isClosing)

variable {c quote : Char} {cs inside : List Char} {ts : List Token} {k : Nat}

/-! ## Positions in a line -/

/-- A position in a line: the quote of the text around it, if there is one, whether a backslash
stands right before it, and how many brackets are open. -/
structure Position where
  quote : Option Char := none
  escaped : Bool := false
  depth : Nat := 0
  deriving DecidableEq

namespace Position

/-- The position behind one more character. -/
def next (p : Position) (c : Char) : Position :=
  match p.quote with
  | none =>
    if isQuote c then { p with quote := some c }
    else if isOpening c then { p with depth := p.depth + 1 }
    else if isClosing c then { p with depth := p.depth - 1 }
    else p
  | some quote =>
    if p.escaped then { p with escaped := false }
    else if c = '\\' then { p with escaped := true }
    else if c = quote then { p with quote := none }
    else p

def after (p : Position) (cs : List Char) : Position := cs.foldl next p

/-- The most brackets that are open at once from a position on. -/
def most (p : Position) : List Char → Nat
  | [] => p.depth
  | c :: rest => max p.depth ((p.next c).most rest)

/-- A position in code, outside of texts. -/
def code (depth : Nat) : Position := { depth }

@[simp] theorem after_nil (p : Position) : p.after [] = p := rfl

@[simp] theorem after_cons (p : Position) (c : Char) (cs : List Char) :
    p.after (c :: cs) = (p.next c).after cs := rfl

theorem after_append (p : Position) (xs ys : List Char) :
    p.after (xs ++ ys) = (p.after xs).after ys := List.foldl_append

theorem depth_le_most (p : Position) (cs : List Char) : p.depth ≤ p.most cs := by
  cases cs with
  | nil => exact Nat.le_refl _
  | cons c rest => exact Nat.le_max_left _ _

theorem depth_after_le (p : Position) (cs : List Char) : (p.after cs).depth ≤ p.most cs := by
  induction cs generalizing p with
  | nil => exact Nat.le_refl _
  | cons c rest ih => exact (ih (p.next c)).trans (Nat.le_max_right _ _)

theorem most_append (p : Position) (xs ys : List Char) :
    p.most (xs ++ ys) = max (p.most xs) ((p.after xs).most ys) := by
  induction xs generalizing p with
  | nil => exact (Nat.max_eq_right (p.depth_le_most ys)).symm
  | cons c rest ih => simp only [List.cons_append, most, ih, after_cons, Nat.max_assoc]

end Position

/-- **The most brackets that are open at once in a line of code**, those within texts left aside. -/
def mostOpen (line : String) : Nat := (Position.code 0).most line.toList

example : mostOpen "f(a[0], '((', (b))" = 2 := by decide

/-- From code with `d` brackets open a text leads back to code with `e` of them open, and `top` is
the most that are open in between. -/
structure Opens (d : Nat) (cs : List Char) (e top : Nat) : Prop where
  after : (Position.code d).after cs = .code e
  most : (Position.code d).most cs = top

theorem Opens.append {d e f m n : Nat} {xs ys : List Char} (hx : Opens d xs e m)
    (hy : Opens e ys f n) : Opens d (xs ++ ys) f (max m n) := by
  constructor
  · rw [Position.after_append, hx.after, hy.after]
  · rw [Position.most_append, hx.after, hx.most, hy.most]

/-- A character that neither opens nor closes anything. -/
def isInert (c : Char) : Bool := !isQuote c && !isOpening c && !isClosing c

theorem Position.next_inert (h : isInert c = true) (d : Nat) : (code d).next c = code d := by
  simp only [isInert, Bool.and_eq_true, Bool.not_eq_true'] at h
  simp [next, code, h]

theorem opens_inert (h : ∀ c ∈ cs, isInert c = true) (d : Nat) : Opens d cs d d := by
  induction cs with
  | nil => exact ⟨rfl, rfl⟩
  | cons c rest ih =>
    obtain ⟨hc, hrest⟩ := List.forall_mem_cons.mp h
    obtain ⟨hafter, hmost⟩ := ih hrest
    constructor
    · rw [Position.after_cons, Position.next_inert hc, hafter]
    · rw [Position.most, Position.next_inert hc, hmost]
      exact Nat.max_self d

/-- A kind of character that neither quotes nor brackets are of. -/
theorem isInert_of_kind {kind : Char → Bool} (h : kind c = true)
    (hkind : (['(', '[', '\x7b', ')', ']', '\x7d', Text.singleQuote, Text.doubleQuote].any
      kind) = false) : isInert c = true := by
  have hne : ∀ e, kind e = false → c ≠ e := by
    rintro e he rfl
    rw [he] at h
    cases h
  simp only [List.any_cons, List.any_nil, Bool.or_eq_false_iff, and_true] at hkind
  obtain ⟨h1, h2, h3, h4, h5, h6, h7, h8⟩ := hkind
  simp [isInert, isQuote, isOpening, isClosing, hne _ h1, hne _ h2, hne _ h3, hne _ h4, hne _ h5,
    hne _ h6, hne _ h7, hne _ h8]

theorem isInert_of_wordChar (h : wordChar c = true) : isInert c = true :=
  isInert_of_kind h (by decide)

/-! ## Texts -/

/-- Within a text no bracket counts. -/
theorem Position.within_sealed (h : Sealed quote inside) (d : Nat) :
    ({ quote := some quote, depth := d } : Position).after inside =
        { quote := some quote, depth := d } ∧
      ({ quote := some quote, depth := d } : Position).most inside = d := by
  induction h with
  | nil => exact ⟨rfl, rfl⟩
  | escape _ _ ih =>
    obtain ⟨hafter, hmost⟩ := ih
    simp [next, most, hafter, hmost]
  | char _ hquote hescape _ ih =>
    obtain ⟨hafter, hmost⟩ := ih
    simp [next, most, hafter, hmost, hquote, hescape]

theorem opens_quoted (hquote : isQuote quote = true) {d : Nat}
    (hafter : ({ quote := some quote, depth := d } : Position).after inside =
      { quote := some quote, depth := d })
    (hmost : ({ quote := some quote, depth := d } : Position).most inside = d) :
    Opens d (quote :: (inside ++ [quote])) d d := by
  have hopen : (Position.code d).next quote = { quote := some quote, depth := d } := by
    simp [Position.next, Position.code, hquote]
  have hclose : ({ quote := some quote, depth := d } : Position).next quote = .code d := by
    simp [Position.next, Position.code, ne_escape_of_isQuote hquote]
  constructor
  · rw [Position.after_cons, hopen, Position.after_append, hafter, Position.after_cons, hclose,
      Position.after_nil]
  · rw [Position.most, hopen, Position.most_append, hafter, hmost, Position.most, hclose,
      Position.most]
    simp [Position.code]

theorem opens_text (hquote : isQuote quote = true) (h : Sealed quote inside) (d : Nat) :
    Opens d (quote :: (inside ++ [quote])) d d :=
  opens_quoted hquote (Position.within_sealed h d).1 (Position.within_sealed h d).2

/-! ## Tokens -/

/-- The number of open brackets behind a token. -/
def Token.level (d : Nat) : Token → Nat
  | .symbol s => if s = "(" ∨ s = "[" then d + 1 else if s = ")" ∨ s = "]" then d - 1 else d
  | _ => d

def level (d : Nat) (ts : List Token) : Nat := ts.foldl Token.level d

/-- The most brackets that are open at once in some tokens. -/
def crest (d : Nat) : List Token → Nat
  | [] => d
  | t :: rest => max d (crest (t.level d) rest)

theorem le_crest (d : Nat) (ts : List Token) : d ≤ crest d ts := by
  cases ts with
  | nil => exact Nat.le_refl _
  | cons t rest => exact Nat.le_max_left _ _

theorem level_append (d : Nat) (xs ys : List Token) :
    level d (xs ++ ys) = level (level d xs) ys := List.foldl_append

theorem crest_append (d : Nat) (xs ys : List Token) :
    crest d (xs ++ ys) = max (crest d xs) (crest (level d xs) ys) := by
  induction xs generalizing d with
  | nil => exact (Nat.max_eq_right (le_crest d ys)).symm
  | cons t rest ih => simp only [List.cons_append, crest, ih, level, List.foldl_cons, Nat.max_assoc]

theorem opens_mark (h : c ∈ marks) (d : Nat) :
    Opens d [c] (Token.level d (.symbol (String.singleton c)))
      (max d (Token.level d (.symbol (String.singleton c)))) := by
  have hnext : (Position.code d).next c = .code (Token.level d (.symbol (String.singleton c))) := by
    fin_cases h <;> rfl
  exact ⟨hnext, by rw [Position.most, hnext]; rfl⟩

/-- The brackets of one token. -/
theorem Lexeme.opens {t : Token} {piece : List Char} (h : Lexeme t piece) (d : Nat) :
    Opens d piece (t.level d) (max d (t.level d)) := by
  cases h with
  | word ht hword =>
    have hlevel : t.level d = d := by
      cases t with
      | symbol s => exact absurd rfl (ht s).2
      | _ => rfl
    rw [hlevel, Nat.max_self]
    exact opens_inert (fun c hc => isInert_of_wordChar (hword c hc)) d
  | mark hc => exact opens_mark hc d
  | @relation c hc =>
    have hinert : ∀ e ∈ [c, '='], isInert e = true := by fin_cases hc <;> decide
    have hlevel : Token.level d (.symbol (String.ofList [c, '='])) = d := by
      fin_cases hc <;> rfl
    rw [hlevel, Nat.max_self]
    exact opens_inert hinert d
  | @text s quote inside hquote hinside =>
    have hlevel : Token.level d (.text s) = d := rfl
    rw [hlevel, Nat.max_self]
    exact opens_text hquote hinside d

/-- **The brackets of a text are those of its tokens.** -/
theorem opens_of_lex (h : lex cs = some ts) (d : Nat) : Opens d cs (level d ts) (crest d ts) := by
  refine lex_induction (P := fun cs ts => ∀ d, Opens d cs (level d ts) (crest d ts)) ?_ ?_ ?_ h d
  · exact fun d => ⟨rfl, rfl⟩
  · intro cs ts ih d
    have hblank := (opens_inert (by decide : ∀ c ∈ [' '], isInert c = true) d).append (ih d)
    rwa [Nat.max_eq_right (le_crest d ts)] at hblank
  · intro piece rest t ts htakes _ ih d
    have htoken := (htakes.lexeme.opens d).append (ih (t.level d))
    rwa [Nat.max_assoc, Nat.max_eq_right (le_crest _ ts)] at htoken

/-- However many brackets are open before some tokens, as many are open behind them, and `k` more
at the most in between. -/
def Balanced (ts : List Token) (k : Nat) : Prop := ∀ d, level d ts = d ∧ crest d ts = d + k

theorem Balanced.nil : Balanced [] 0 := fun _ => ⟨rfl, rfl⟩

/-- The text of balanced tokens. -/
theorem Balanced.opens (h : Balanced ts k) (hlex : lex cs = some ts) (d : Nat) :
    Opens d cs d (d + k) := by
  have hopens := opens_of_lex hlex d
  rwa [(h d).1, (h d).2] at hopens

theorem Balanced.append {xs ys : List Token} {l : Nat} (hx : Balanced xs k) (hy : Balanced ys l) :
    Balanced (xs ++ ys) (max k l) := by
  intro d
  constructor
  · rw [level_append, (hx d).1, (hy d).1]
  · rw [crest_append, (hx d).1, (hx d).2, (hy d).2]
    omega

/-- A token that is no bracket makes no difference. -/
theorem Balanced.cons {t : Token} (ht : ∀ d, t.level d = d) (h : Balanced ts k) :
    Balanced (t :: ts) k := by
  intro d
  constructor
  · rw [level, List.foldl_cons, ht]
    exact (h d).1
  · rw [crest, ht, (h d).2]
    omega

theorem Balanced.between {left right : String}
    (hleft : left = "(" ∨ left = "[") (hright : right = ")" ∨ right = "]") (h : Balanced ts k) :
    Balanced (.symbol left :: (ts ++ [.symbol right])) (k + 1) := by
  have hopen : ∀ d, Token.level d (.symbol left) = d + 1 := fun d => by simp [Token.level, hleft]
  have hclose : ∀ d, Token.level d (.symbol right) = d - 1 := by
    intro d
    rcases hright with rfl | rfl <;> rfl
  intro d
  constructor
  · rw [level, List.foldl_cons, hopen]
    change level (d + 1) (ts ++ [.symbol right]) = d
    rw [level_append, (h (d + 1)).1]
    exact hclose (d + 1)
  · rw [crest, hopen, crest_append, (h (d + 1)).1, (h (d + 1)).2, crest, crest, hclose]
    omega

end Script

/-! ## Code -/

open Script

/-- How many brackets more than before are open at once in some code. -/
@[simp] def Code.brackets : Code → Nat
  | .literal value => if value.isList then 1 else 0
  | .variable _ => 0
  | .column _ | .candle .. => 1
  | .shifted e _ | .seriesZone e _ => max e.brackets 1
  | .seriesPart e _ => e.brackets
  | .momentZone e _ => max e.brackets 2
  | .momentPart e part => if part = .dayOfWeek then max e.brackets 1 else e.brackets
  | .paren e | .pointwise _ e | .extremum _ e | .broadcast e => e.brackets + 1
  | .negative e | .invert e | .not e => e.brackets
  | .arith _ left right | .also left right | .compare _ left right | .join _ left right
  | .member _ left right => max left.brackets right.brackets
  | .pairwise _ left right | .crossed _ left right => max left.brackets right.brackets + 1
  | .isIn e items => max e.brackets (items.brackets + 1)
  | .choose condition then_ else_ =>
    max (max condition.brackets then_.brackets) else_.brackets + 1
  | .ifElse then_ condition else_ => max then_.brackets (max condition.brackets else_.brackets)

theorem Scalar.tokens_balanced (s : Scalar) : Balanced s.tokens 0 := by
  have hsigned (negative : Bool) {t : Token} (ht : ∀ d, t.level d = d) :
      Balanced (signTokens negative ++ [t]) 0 := by
    have hone := Balanced.nil.cons ht
    cases negative with
    | false => exact hone
    | true => exact hone.cons fun _ => rfl
  cases s with
  | null => exact Balanced.nil.cons fun _ => rfl
  | bool b => exact Balanced.nil.cons fun _ => rfl
  | int n => exact hsigned _ fun _ => rfl
  | float x => exact hsigned _ fun _ => rfl
  | text s => exact Balanced.nil.cons fun _ => rfl

theorem Constant.tokens_balanced (c : Constant) :
    Balanced c.tokens (if c.isList then 1 else 0) := by
  cases c with
  | scalar s => exact s.tokens_balanced
  | list items =>
    have hitems : Balanced (commas (items.map Scalar.tokens)) 0 := by
      induction items with
      | nil => exact .nil
      | cons s rest ih =>
        cases rest with
        | nil => exact s.tokens_balanced
        | cons t rest => exact s.tokens_balanced.append (ih.cons fun _ => rfl)
    exact hitems.between (.inr rfl) (.inr rfl)

namespace Code

theorem subscript_balanced (table column : String) :
    Balanced (subscriptTokens table column) 1 :=
  ((Balanced.nil.cons (t := .text column) fun _ => rfl).between (.inr rfl) (.inr rfl)).cons
    fun _ => rfl

theorem candle_balanced (column : String) (ago : Nat) : Balanced (candleTokens column ago) 1 := by
  unfold candleTokens
  split
  · exact subscript_balanced "last_candle" column
  · exact subscript_balanced "prev_candle" column
  · have hago : Balanced [.symbol "-", .integer (ago + 1)] 0 :=
      (Balanced.nil.cons fun _ => rfl).cons fun _ => rfl
    exact (subscript_balanced "dataframe" column).append
      (((hago.between (.inr rfl) (.inr rfl)).cons fun _ => rfl).cons fun _ => rfl)

/-- A call, with what is called in front of the parenthesis. -/
theorem call_balanced {name : List Token} (hname : Balanced name 0) {arguments : List Token}
    {k : Nat} (h : Balanced arguments k) :
    Balanced (name ++ .symbol "(" :: (arguments ++ [.symbol ")"])) (k + 1) := by
  have hcall := hname.append (h.between (.inl rfl) (.inl rfl))
  rwa [Nat.zero_max] at hcall

theorem method_balanced (f : String) : Balanced [.symbol ".", .name f] 0 :=
  (Balanced.nil.cons fun _ => rfl).cons fun _ => rfl

theorem dotted_balanced (a f : String) : Balanced [.name a, .symbol ".", .name f] 0 :=
  (method_balanced f).cons fun _ => rfl

/-- Two parts with a token between them. -/
theorem pair_balanced {t : Token} (ht : ∀ d, t.level d = d) {xs ys : List Token} {k l : Nat}
    (hx : Balanced xs k) (hy : Balanced ys l) : Balanced (xs ++ t :: ys) (max k l) :=
  hx.append (hy.cons ht)

/-- **Code is balanced.** -/
theorem tokens_balanced (c : Code) : Balanced c.tokens c.brackets := by
  have hcomma : ∀ d, Token.level d (.symbol ",") = d := fun _ => rfl
  have hone (t : Token) (ht : ∀ d, t.level d = d) : Balanced [t] 0 := Balanced.nil.cons ht
  induction c with
  | literal value => exact value.tokens_balanced
  | «variable» name => exact hone _ fun _ => rfl
  | column name => exact subscript_balanced "dataframe" name
  | shifted e candles ih =>
    exact ih.append (call_balanced (method_balanced "shift") (hone (.integer candles) fun _ => rfl))
  | candle name ago => exact candle_balanced name ago
  | seriesZone e zone ih =>
    exact ih.append (call_balanced ((method_balanced "dt").append (method_balanced "tz_convert"))
      (hone (.text zone) fun _ => rfl))
  | seriesPart e part ih =>
    have hpart := ih.append ((method_balanced "dt").append (method_balanced part.seriesWord))
    rwa [Nat.max_self, Nat.max_zero] at hpart
  | momentZone e zone ih =>
    exact ih.append (call_balanced (method_balanced "astimezone")
      (call_balanced (hone (.name "ZoneInfo") fun _ => rfl) (hone (.text zone) fun _ => rfl)))
  | momentPart e part ih =>
    cases part with
    | dayOfWeek => exact ih.append (call_balanced (method_balanced "weekday") .nil)
    | hour | minute | dayOfMonth | month =>
      have hpart (word : String) := ih.append (method_balanced word)
      simp only [Nat.max_zero] at hpart
      exact hpart _
  | paren e ih => exact ih.between (.inl rfl) (.inl rfl)
  | arith op left right hl hr => exact pair_balanced (fun d => by cases op <;> rfl) hl hr
  | negative e ih => exact ih.cons fun _ => rfl
  | pointwise f e ih => exact call_balanced (dotted_balanced "np" f.name) ih
  | pairwise f left right hl hr =>
    exact call_balanced (dotted_balanced "np" (f.name ++ "imum")) (pair_balanced hcomma hl hr)
  | also left right hl hr => exact pair_balanced hcomma hl hr
  | extremum f e ih => exact call_balanced (hone (.name f.name) fun _ => rfl) ih
  | compare r left right hl hr => exact pair_balanced (fun d => by cases r <;> rfl) hl hr
  | join c left right hl hr => exact pair_balanced (fun d => by cases c <;> rfl) hl hr
  | invert e ih => exact ih.cons fun _ => rfl
  | not e ih => exact ih.cons fun _ => rfl
  | isIn e items hl hr => exact hl.append (call_balanced (method_balanced "isin") hr)
  | member negated e items hl hr =>
    cases negated with
    | false => exact pair_balanced (fun _ => rfl) hl hr
    | true => exact pair_balanced (fun _ => rfl) hl (hr.cons fun _ => rfl)
  | choose condition then_ else_ hc ht he =>
    exact call_balanced (dotted_balanced "np" "where")
      (pair_balanced hcomma (pair_balanced hcomma hc ht) he)
  | broadcast e ih =>
    have hindex : Balanced [.symbol ",", .name "index", .symbol "=", .name "dataframe",
        .symbol ".", .name "index"] 0 :=
      (((dotted_balanced "dataframe" "index").cons fun _ => rfl).cons fun _ => rfl).cons
        fun _ => rfl
    have hseries := call_balanced (dotted_balanced "pd" "Series") (ih.append hindex)
    rw [Nat.max_zero, List.append_assoc] at hseries
    exact hseries
  | crossed above left right hl hr =>
    exact call_balanced (dotted_balanced "qtpylib" (crossingWord above))
      (pair_balanced hcomma hl hr)
  | ifElse then_ condition else_ ht hc he =>
    exact pair_balanced (fun _ => rfl) ht (pair_balanced (fun _ => rfl) hc he)

/-- **The text of code opens as many brackets as it closes**, and `brackets` of them at once. -/
theorem Grouped.opens {c : Code} (h : c.Grouped) (d : Nat) :
    Opens d c.render.toList d (d + c.brackets) :=
  c.tokens_balanced.opens (c.spells_of_grouped h).alone d

end Code

end Stratagem
