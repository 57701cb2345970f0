import Stratagem.Proofs.Lists
import Stratagem.Proofs.Script.Token
import Stratagem.Text.Lines

/-! What tokens are made of. A token that is found takes up a piece of the text: a word or a number,
a symbol, or a text between quotes. Of what stands behind it only the first character matters, so a
piece is the same token wherever it is followed by the same character. -/

namespace Stratagem.Script

open Text (singleQuote doubleQuote isPrintable)

variable {c quote : Char} {cs rest piece ds : List Char} {t : Token} {ts : List Token}

/-- A character that ends no line. -/
def isInline (c : Char) : Bool := !Text.isLineBreak c

/-- The characters that end a line. -/
def breaks : List Char :=
  ['\n', '\x0b', '\x0c', '\r', '\x1c', '\x1d', '\x1e', '\x85', '\u2028', '\u2029']

theorem mem_breaks (h : Text.isLineBreak c = true) : c ∈ breaks := by
  have hcode : c.toNat ∈ breaks.map Char.toNat := by
    simp only [Text.isLineBreak, Text.inRanges, Text.lineBreaks, List.any_cons, List.any_nil,
      Bool.or_false, Bool.or_eq_true, Bool.and_eq_true, decide_eq_true_eq] at h
    simp only [breaks, List.map_cons, List.map_nil, List.mem_cons, List.not_mem_nil, or_false]
    change c.toNat = 10 ∨ c.toNat = 11 ∨ c.toNat = 12 ∨ c.toNat = 13 ∨ c.toNat = 28 ∨
      c.toNat = 29 ∨ c.toNat = 30 ∨ c.toNat = 133 ∨ c.toNat = 8232 ∨ c.toNat = 8233
    omega
  obtain ⟨d, hd, hsame⟩ := List.mem_map.mp hcode
  rwa [← Char.toNat_inj.mp hsame]

/-- A kind of character to which none belongs that ends a line. -/
theorem isInline_of_kind {p : Char → Bool} (hp : ∀ e ∈ breaks, p e = false) (h : p c = true) :
    isInline c = true := by
  rw [isInline, Bool.not_eq_true', Bool.eq_false_iff]
  intro hbreak
  rw [hp c (mem_breaks hbreak)] at h
  cases h

/-- Names and numbers are made of these. -/
def wordChar (c : Char) : Bool := nameChar c || c == '.' || c == '+' || c == '-'

/-- What may stand between two quotes: a quote of their kind only behind a backslash. -/
inductive Sealed (quote : Char) : List Char → Prop
  | nil : Sealed quote []
  | escape {c : Char} {cs : List Char} (hc : isInline c = true) (h : Sealed quote cs) :
    Sealed quote ('\\' :: c :: cs)
  | char {c : Char} {cs : List Char} (hc : isInline c = true) (hquote : c ≠ quote)
    (hescape : c ≠ '\\') (h : Sealed quote cs) : Sealed quote (c :: cs)

/-- The piece of a text that a token is written as. -/
inductive Lexeme : Token → List Char → Prop
  | word {t : Token} {cs : List Char} (ht : ∀ s, t ≠ .text s ∧ t ≠ .symbol s)
    (h : ∀ c ∈ cs, wordChar c = true) : Lexeme t cs
  | mark {c : Char} (h : c ∈ marks) : Lexeme (.symbol (String.singleton c)) [c]
  | relation {c : Char} (h : c ∈ ['=', '!', '<', '>']) :
    Lexeme (.symbol (String.ofList [c, '='])) [c, '=']
  | text {s : String} {quote : Char} {inside : List Char} (hquote : isQuote quote = true)
    (h : Sealed quote inside) : Lexeme (.text s) (quote :: (inside ++ [quote]))

/-- A reader takes a piece off the front, and looks no further than one character behind it; a text
is not followed by its own quote. -/
structure Takes (read : List Char → Option (Token × List Char)) (cs rest : List Char) (t : Token)
    (piece : List Char) : Prop where
  split : cs = piece ++ rest
  nonempty : piece ≠ []
  lexeme : Lexeme t piece
  closed : ∀ s, t = .text s → rest.head? ≠ piece.head?
  again : ∀ more, more.head? = rest.head? → read (piece ++ more) = some (t, more)

/-- A word or a number is no text and no symbol. -/
theorem Takes.word {read : List Char → Option (Token × List Char)} (hsplit : cs = piece ++ rest)
    (hne : piece ≠ []) (ht : ∀ s, t ≠ .text s ∧ t ≠ .symbol s)
    (hword : ∀ c ∈ piece, wordChar c = true)
    (hmore : ∀ more, more.head? = rest.head? → read (piece ++ more) = some (t, more)) :
    Takes read cs rest t piece :=
  ⟨hsplit, hne, .word ht hword, fun s hs => absurd hs (ht s).1, hmore⟩

theorem ne_escape_of_isQuote (h : isQuote c = true) : c ≠ '\\' := by
  rintro rfl
  exact absurd h (by decide)

/-! ## Texts -/

theorem push_eq_some {c : Option Char} {read : Option (List Char × List Char)} {s : List Char}
    (h : push c read = some (s, rest)) :
    ∃ d more, c = some d ∧ read = some (more, rest) ∧ s = d :: more := by
  unfold push at h
  obtain ⟨d, hd, h⟩ := Option.bind_eq_some_iff.mp h
  obtain ⟨⟨more, rest'⟩, hread, hpair⟩ := Option.map_eq_some_iff.mp h
  cases hpair
  exact ⟨d, more, hd, hread, rfl⟩

theorem hexDigits_of_hexValue? {n k : Nat} (h : hexValue? n ds = some k) :
    ∀ d ∈ ds, (hexDigit? d).isSome = true := by
  induction ds generalizing n with
  | nil => intro d hd; cases hd
  | cons d rest ih =>
    obtain ⟨v, hv, hrest⟩ := Option.bind_eq_some_iff.mp h
    intro e he
    rcases List.mem_cons.mp he with rfl | he
    · rw [hv]; rfl
    · exact ih hrest e he

theorem hexDigits_of_codePoint? (h : codePoint? ds = some c) :
    ∀ d ∈ ds, (hexDigit? d).isSome = true := by
  obtain ⟨n, hn, -⟩ := Option.bind_eq_some_iff.mp h
  exact hexDigits_of_hexValue? hn

theorem Sealed.hexDigits (hquote : isQuote quote = true)
    (hds : ∀ d ∈ ds, (hexDigit? d).isSome = true) (h : Sealed quote cs) :
    Sealed quote (ds ++ cs) := by
  induction ds with
  | nil => exact h
  | cons d rest ih =>
    obtain ⟨hd, hrest⟩ := List.forall_mem_cons.mp hds
    have hne : ∀ e, hexDigit? e = none → d ≠ e := by
      rintro e he rfl
      rw [he] at hd
      cases hd
    refine .char (isInline_of_kind (p := fun e => (hexDigit? e).isSome) (by decide) hd) ?_
      (hne _ (by decide)) (ih hrest)
    · have hor : quote = singleQuote ∨ quote = doubleQuote := by simpa [isQuote] using hquote
      rcases hor with rfl | rfl
      · exact hne _ (by decide)
      · exact hne _ (by decide)

theorem isInline_of_escaped? {d : Char} (h : escaped? c = some d) : isInline c = true :=
  isInline_of_kind (p := fun e => (escaped? e).isSome) (by decide) (by simp [h])

theorem isInline_of_isPrintable (h : isPrintable c = true) : isInline c = true :=
  isInline_of_kind (by decide +kernel) h

theorem textBody_cons (hc : c ≠ '\\') (rest : List Char) :
    textBody quote (c :: rest) =
      if c = quote then some ([], rest)
      else if isPrintable c && c != '\\' then push (some c) (textBody quote rest)
      else none := by
  rw [textBody.eq_def]
  split <;> simp_all

/-- A text that is read goes up to its closing quote, and what stands behind that quote does not
matter. -/
theorem textBody_takes (hquote : isQuote quote = true) {s : List Char}
    (h : textBody quote cs = some (s, rest)) :
    ∃ inside, cs = inside ++ quote :: rest ∧ Sealed quote inside ∧
      ∀ more, textBody quote (inside ++ quote :: more) = some (s, more) := by
  fun_induction textBody quote cs generalizing s with
  | case1 => cases h
  | case2 a b tail ih =>
    obtain ⟨d, s', hd, htail, rfl⟩ := push_eq_some h
    obtain ⟨inside, rfl, hinside, hmore⟩ := ih htail
    refine ⟨'\\' :: 'x' :: a :: b :: inside, rfl,
      .escape rfl (hinside.hexDigits hquote (hexDigits_of_codePoint? hd)), fun more => ?_⟩
    simp [textBody, hd, hmore, push]
  | case3 a b c d tail ih =>
    obtain ⟨e, s', he, htail, rfl⟩ := push_eq_some h
    obtain ⟨inside, rfl, hinside, hmore⟩ := ih htail
    refine ⟨'\\' :: 'u' :: a :: b :: c :: d :: inside, rfl,
      .escape rfl (hinside.hexDigits hquote (hexDigits_of_codePoint? he)), fun more => ?_⟩
    simp [textBody, he, hmore, push]
  | case4 a b c d e f g i tail ih =>
    obtain ⟨j, s', hj, htail, rfl⟩ := push_eq_some h
    obtain ⟨inside, rfl, hinside, hmore⟩ := ih htail
    refine ⟨'\\' :: 'U' :: a :: b :: c :: d :: e :: f :: g :: i :: inside, rfl,
      .escape rfl (hinside.hexDigits hquote (hexDigits_of_codePoint? hj)), fun more => ?_⟩
    simp [textBody, hj, hmore, push]
  | case5 c tail _ _ _ ih =>
    obtain ⟨d, s', hd, htail, rfl⟩ := push_eq_some h
    obtain ⟨inside, rfl, hinside, hmore⟩ := ih htail
    have hc : c ∉ ['x', 'u', 'U'] := by
      intro hmem
      fin_cases hmem <;> cases hd
    refine ⟨'\\' :: c :: inside, rfl, .escape (isInline_of_escaped? hd) hinside, fun more => ?_⟩
    simp [textBody_escape quote c hc, hd, hmore, push]
  | case6 tail _ _ _ _ =>
    cases h
    refine ⟨[], rfl, .nil, fun more => ?_⟩
    rw [List.nil_append, textBody_cons (ne_escape_of_isQuote hquote), if_pos rfl]
  | case7 c tail _ _ _ _ hne hprint ih =>
    obtain ⟨d, s', hd, htail, rfl⟩ := push_eq_some h
    cases hd
    obtain ⟨inside, rfl, hinside, hmore⟩ := ih htail
    obtain ⟨hprintable, hescape⟩ := Bool.and_eq_true_iff.mp hprint
    have hescape : c ≠ '\\' := by simpa using hescape
    refine ⟨c :: inside, rfl, .char (isInline_of_isPrintable hprintable) hne hescape hinside,
      fun more => ?_⟩
    rw [List.cons_append, textBody_cons hescape, if_neg hne, if_pos hprint, hmore]
    rfl
  | case8 => cases h

theorem textToken_takes (hquote : isQuote quote = true) (h : textToken quote cs = some (t, rest)) :
    ∃ inside s, t = .text s ∧ cs = inside ++ quote :: rest ∧ Sealed quote inside ∧
      rest.head? ≠ some quote ∧ ∀ more, more.head? = rest.head? →
        textToken quote (inside ++ quote :: more) = some (t, more) := by
  obtain ⟨⟨s, behind⟩, hbody, htoken⟩ := Option.bind_eq_some_iff.mp h
  obtain ⟨inside, rfl, hinside, hclosed⟩ := textBody_takes hquote hbody
  dsimp only at htoken
  split at htoken
  · cases htoken
  · next hhead =>
    cases htoken
    refine ⟨inside, _, rfl, rfl, hinside, hhead, fun more hmore => ?_⟩
    simp [textToken, hclosed more, hmore, hhead]

/-! ## Words and numbers -/

theorem wordChar_of_nameChar (h : nameChar c = true) : wordChar c = true := by
  simp [wordChar, h]

theorem wordChar_of_isDigit (h : c.isDigit = true) : wordChar c = true := by
  simp [wordChar, nameChar, Char.isAlphanum, h]

theorem nameToken_takes (hname : cs.head?.any nameChar = true) (h : nameToken cs = some (t, rest)) :
    ∃ piece, Takes nameToken cs rest t piece := by
  have hstop := head?_dropWhile_any nameChar cs
  simp only [nameToken] at h
  split at h
  · cases h
  · next hquote =>
    cases h
    have hpiece : ∀ c ∈ cs.takeWhile nameChar, nameChar c = true :=
      fun c hc => List.mem_takeWhile_imp hc
    refine ⟨cs.takeWhile nameChar, .word List.takeWhile_append_dropWhile.symm
      (takeWhile_ne_nil hname) (by simp) (fun c hc => wordChar_of_nameChar (hpiece c hc))
      fun more hmore => ?_⟩
    obtain ⟨htake, hdrop⟩ :=
      takeWhile_append_of_head? hpiece (by rwa [hmore] : more.head?.any _ = _)
    rw [nameToken, htake, hdrop, if_neg (by rwa [hmore])]

theorem numberToken_eq_some {u : Token} (h : numberToken t cs = some (u, rest)) :
    u = t ∧ cs = rest ∧ rest.head?.any (fun c => nameChar c || c == '.') = false := by
  unfold numberToken at h
  split at h
  · cases h
  · next hhead =>
    cases h
    exact ⟨rfl, rfl, by simpa using hhead⟩

theorem numberToken_of_head? {more : List Char}
    (h : rest.head?.any (fun c => nameChar c || c == '.') = false)
    (hmore : more.head? = rest.head?) :
    numberToken t more = some (t, more) := by
  rw [numberToken, hmore, if_neg (by simp [h])]

theorem noDigit_of_number (h : rest.head?.any (fun c => nameChar c || c == '.') = false) :
    rest.head?.any Char.isDigit = false := by
  cases rest with
  | nil => rfl
  | cons c rest => simp_all [nameChar, Char.isAlphanum]

theorem takeDigits_eq (h : takeDigits cs = (ds, rest)) :
    cs = ds ++ rest ∧ (∀ c ∈ ds, c.isDigit = true) ∧ rest.head?.any Char.isDigit = false := by
  cases h
  exact ⟨List.takeWhile_append_dropWhile.symm, fun c hc => List.mem_takeWhile_imp hc,
    head?_dropWhile_any _ cs⟩

theorem takeSign_eq {digits : List Char} {negative : Bool} (h : takeSign cs = (negative, digits)) :
    ∃ sign, cs = sign ++ digits ∧ (∀ c ∈ sign, wordChar c = true) ∧
      ∀ more, more.head?.any Char.isDigit = true → takeSign (sign ++ more) = (negative, more) := by
  unfold takeSign at h
  split at h
  · cases h
    exact ⟨['-'], rfl, by decide, fun _ _ => rfl⟩
  · cases h
    exact ⟨['+'], rfl, by decide, fun _ _ => rfl⟩
  · cases h
    refine ⟨[], rfl, by simp, fun more hmore => ?_⟩
    unfold takeSign
    split <;> simp_all

/-- The exponent of a number, if there is one, up to where the number ends. -/
theorem floatToken_takes {whole fraction : List Char}
    (h : floatToken whole fraction cs = some (t, rest)) :
    ∃ piece, cs = piece ++ rest ∧ (∀ c ∈ piece, wordChar c = true) ∧
      (∀ s, t ≠ .text s ∧ t ≠ .symbol s) ∧
      rest.head?.any (fun c => nameChar c || c == '.') = false ∧
      ∀ more, more.head? = rest.head? →
        floatToken whole fraction (piece ++ more) = some (t, more) := by
  unfold floatToken at h
  dsimp only at h
  split at h
  · next tail =>
    cases hsign : takeSign tail with
    | mk negative signed =>
    cases hdigits : takeDigits signed with
    | mk ds behind =>
    simp only [hsign, hdigits] at h
    split at h
    · cases h
    · next hne =>
      obtain ⟨rfl, rfl, hhead⟩ := numberToken_eq_some h
      obtain ⟨sign, rfl, hsigns, hunsign⟩ := takeSign_eq hsign
      obtain ⟨rfl, hds, -⟩ := takeDigits_eq hdigits
      refine ⟨'e' :: (sign ++ ds), by simp, ?_, by simp, hhead, fun more hmore => ?_⟩
      · intro c hc
        rcases List.mem_cons.mp hc with rfl | hc
        · decide
        rcases List.mem_append.mp hc with hc | hc
        · exact hsigns c hc
        · exact wordChar_of_isDigit (hds c hc)
      · have hfirst : (ds ++ more).head?.any Char.isDigit = true := by
          cases ds with
          | nil => simp at hne
          | cons d ds => simpa using hds d (by simp)
        have hstop : more.head?.any Char.isDigit = false :=
          noDigit_of_number (by rwa [hmore])
        rw [List.cons_append, List.append_assoc, floatToken]
        simp only [hunsign _ hfirst, takeDigits_append hds hstop, if_neg hne]
        exact numberToken_of_head? hhead hmore
  · next hexponent =>
    obtain ⟨rfl, rfl, hhead⟩ := numberToken_eq_some h
    refine ⟨[], rfl, by simp, by simp, hhead, fun more hmore => ?_⟩
    rw [List.nil_append, floatToken.eq_2]
    · exact numberToken_of_head? hhead hmore
    · rintro tail rfl
      cases cs with
      | nil => simp at hmore
      | cons c cs =>
        obtain rfl : 'e' = c := by simpa using hmore
        exact hexponent cs rfl

theorem digitsToken_takes (hdigit : cs.head?.any Char.isDigit = true)
    (h : digitsToken cs = some (t, rest)) : ∃ piece, Takes digitsToken cs rest t piece := by
  unfold digitsToken at h
  cases hwhole : takeDigits cs with
  | mk whole behind =>
  have hsome : whole ≠ [] := by
    rw [← (Prod.mk.inj hwhole).1]
    exact takeWhile_ne_nil hdigit
  obtain ⟨rfl, hdigits, hstop⟩ := takeDigits_eq hwhole
  simp only [hwhole] at h
  split at h
  · next tail =>
    cases hfraction : takeDigits tail with
    | mk fraction after =>
    obtain ⟨rfl, hfractions, hafter⟩ := takeDigits_eq hfraction
    simp only [hfraction] at h
    split at h
    · cases h
    · next hne =>
      obtain ⟨piece, rfl, hpiece, ht, hhead, hmore⟩ := floatToken_takes h
      refine ⟨whole ++ '.' :: (fraction ++ piece), .word (by simp) (by simp) ht ?_
        fun more hsame => ?_⟩
      · intro c hc
        simp only [List.mem_append, List.mem_cons] at hc
        rcases hc with hc | rfl | hc | hc
        · exact wordChar_of_isDigit (hdigits c hc)
        · decide
        · exact wordChar_of_isDigit (hfractions c hc)
        · exact hpiece c hc
      · have hfirst : (piece ++ more).head?.any Char.isDigit = false := by
          rwa [List.head?_append, hsame, ← List.head?_append]
        rw [List.append_assoc, List.cons_append, List.append_assoc, digitsToken,
          takeDigits_append hdigits (by rfl)]
        simp only [takeDigits_append hfractions hfirst, if_neg hne]
        exact hmore more hsame
  · next tail =>
    obtain ⟨piece, hsplit, hpiece, ht, hhead, hmore⟩ := floatToken_takes h
    refine ⟨whole ++ piece, .word (by rw [hsplit, List.append_assoc]) (by simp [hsome]) ht ?_
      fun more hsame => ?_⟩
    · intro c hc
      rcases List.mem_append.mp hc with hc | hc
      · exact wordChar_of_isDigit (hdigits c hc)
      · exact hpiece c hc
    · have hfirst : (piece ++ more).head? = some 'e' := by
        rw [List.head?_append, hsame, ← List.head?_append, ← hsplit, List.head?_cons]
      obtain ⟨after, hafter⟩ := List.head?_eq_some_iff.mp hfirst
      rw [List.append_assoc, digitsToken, hafter, takeDigits_append hdigits (by rfl)]
      simp only
      rw [← hafter]
      exact hmore more hsame
  · next hpoint hexponent =>
    split at h
    · cases h
    · next hzero =>
      obtain ⟨rfl, rfl, hhead⟩ := numberToken_eq_some h
      refine ⟨whole, .word rfl hsome (by simp) (fun c hc => wordChar_of_isDigit (hdigits c hc))
        fun more hsame => ?_⟩
      have hmore : more.head?.any Char.isDigit = false := by rwa [hsame]
      rw [digitsToken, takeDigits_append hdigits hmore]
      rw [← hsame] at hhead
      dsimp only
      split
      · simp at hhead
      · simp [nameChar] at hhead
      · rw [if_neg hzero]
        exact numberToken_of_head? hhead rfl

/-! ## All tokens -/

theorem symbolToken_takes (h : symbolToken cs = some (t, rest)) :
    ∃ piece, Takes symbolToken cs rest t piece := by
  unfold symbolToken at h
  split at h
  · cases h
    exact ⟨['=', '='], rfl, by simp, .relation (by decide), by simp, fun _ _ => rfl⟩
  · cases h
    exact ⟨['!', '='], rfl, by simp, .relation (by decide), by simp, fun _ _ => rfl⟩
  · cases h
    exact ⟨['<', '='], rfl, by simp, .relation (by decide), by simp, fun _ _ => rfl⟩
  · cases h
    exact ⟨['>', '='], rfl, by simp, .relation (by decide), by simp, fun _ _ => rfl⟩
  · next c tail heq hne hle hge =>
    split at h
    · next hc =>
      cases h
      refine ⟨[c], rfl, by simp, .mark hc, by simp, fun more hmore => ?_⟩
      rw [List.singleton_append, symbolToken.eq_5, if_pos hc]
      · rintro after rfl rfl
        obtain ⟨after, rfl⟩ := List.head?_eq_some_iff.mp hmore.symm
        exact heq after rfl rfl
      · rintro after rfl rfl
        obtain ⟨after, rfl⟩ := List.head?_eq_some_iff.mp hmore.symm
        exact hne after rfl rfl
      · rintro after rfl rfl
        obtain ⟨after, rfl⟩ := List.head?_eq_some_iff.mp hmore.symm
        exact hle after rfl rfl
      · rintro after rfl rfl
        obtain ⟨after, rfl⟩ := List.head?_eq_some_iff.mp hmore.symm
        exact hge after rfl rfl
    · cases h
  · cases h

/-- A reader for texts that start with one kind of character finds what `token` finds. -/
theorem Takes.token {read : List Char → Option (Token × List Char)} (h : Takes read cs rest t piece)
    (hread : ∀ more, (piece ++ more).head? = cs.head? →
      token (piece ++ more) = read (piece ++ more)) : Takes token cs rest t piece := by
  refine ⟨h.split, h.nonempty, h.lexeme, h.closed, fun more hsame => ?_⟩
  rw [hread, h.again more hsame]
  rw [h.split, List.head?_append_of_ne_nil _ h.nonempty, List.head?_append_of_ne_nil _ h.nonempty]

theorem nameChar_of_nameStart (h : nameStart c = true) : nameChar c = true := by
  simp only [nameStart, nameChar, Char.isAlphanum, Bool.or_eq_true] at h ⊢
  tauto

/-- **Every token takes a piece off the front of its text.** -/
theorem token_takes (h : token cs = some (t, rest)) : ∃ piece, Takes token cs rest t piece := by
  cases cs with
  | nil => cases h
  | cons c cs =>
    have hagain {read : List Char → Option (Token × List Char)} {piece : List Char}
        (htakes : Takes read (c :: cs) rest t piece)
        (hread : ∀ tail, token (c :: tail) = read (c :: tail)) :
        ∃ piece, Takes token (c :: cs) rest t piece := by
      refine ⟨piece, htakes.token fun more hmore => ?_⟩
      obtain ⟨tail, htail⟩ := List.head?_eq_some_iff.mp hmore
      rw [htail, hread]
    rw [token] at h
    split at h
    · next hname =>
      obtain ⟨piece, htakes⟩ := nameToken_takes (by simp [nameChar_of_nameStart hname]) h
      exact hagain htakes fun tail => by rw [token, if_pos hname]
    · next hname =>
      split at h
      · next hdigit =>
        obtain ⟨piece, htakes⟩ := digitsToken_takes (by simp [hdigit]) h
        exact hagain htakes fun tail => by rw [token, if_neg hname, if_pos hdigit]
      · next hdigit =>
        split at h
        · next hquote =>
          obtain ⟨inside, s, rfl, rfl, hinside, hclosed, hmore⟩ := textToken_takes hquote h
          refine ⟨c :: (inside ++ [c]), by simp, by simp, .text hquote hinside,
            fun _ _ => by simpa using hclosed, fun more hsame => ?_⟩
          rw [List.cons_append, token, if_neg hname, if_neg hdigit, if_pos hquote,
            List.append_assoc]
          exact hmore more hsame
        · next hquote =>
          obtain ⟨piece, htakes⟩ := symbolToken_takes h
          exact hagain htakes fun tail => by
            rw [token, if_neg hname, if_neg hdigit, if_neg hquote]

/-- Induction on a text that is made of tokens and blanks. -/
theorem lex_induction {P : List Char → List Token → Prop} (nil : P [] [])
    (blank : ∀ cs ts, P cs ts → P (' ' :: cs) ts)
    (token : ∀ piece rest t ts, Takes token (piece ++ rest) rest t piece → lex rest = some ts →
      P rest ts → P (piece ++ rest) (t :: ts)) (h : lex cs = some ts) : P cs ts := by
  fun_induction lex cs generalizing ts with
  | case1 =>
    cases h
    exact nil
  | case2 rest ih => exact blank rest ts (ih h)
  | case3 => cases h
  | case4 cs _ _ t rest htoken _ ih =>
    obtain ⟨us, hus, rfl⟩ := Option.map_eq_some_iff.mp h
    obtain ⟨piece, htakes⟩ := token_takes htoken
    obtain rfl := htakes.split
    exact token piece rest t us htakes hus (ih hus)
  | case5 => cases h

/-! ## Texts side by side -/

theorem lex_piece (hne : piece ≠ []) (h : token (piece ++ rest) = some (t, rest)) :
    lex (piece ++ rest) = (lex rest).map (t :: ·) := by
  refine lex_token ?_ h (by simpa using List.length_pos_iff.mpr hne)
  intro hblank
  obtain ⟨tail, htail⟩ := List.head?_eq_some_iff.mp hblank
  have hnone : token (' ' :: tail) = none := rfl
  rw [htail, hnone] at h
  cases h

/-- A text that ends in one of these is done, but for an equals sign before another one. -/
def closers : List Char := ['(', ' ', '=']

/-- The last token of a text that ends so takes nothing from what comes behind. -/
theorem lex_last {ys : List Char} (h : Takes token (piece ++ []) [] t piece)
    (hclosed : piece.getLast?.any (closers.contains ·) = true) (hys : ys.head? ≠ some '=') :
    lex (piece ++ ys) = (lex ys).map (t :: ·) := by
  obtain ⟨c, hc, hcloser⟩ : ∃ c, piece.getLast? = some c ∧ c ∈ closers := by
    simpa [Option.any_eq_true] using hclosed
  cases h.lexeme with
  | word _ hword =>
    have hnone : ∀ c ∈ closers, wordChar c = false := by decide
    have hone := hword c (List.mem_of_getLast? hc)
    rw [hnone c hcloser] at hone
    cases hone
  | @mark c hmark => exact lex_mark c hmark ys fun _ => hys
  | @relation c hrelation => exact lex_relation c hrelation ys
  | @text s quote inside hquote _ =>
    have hnone : ∀ c ∈ closers, isQuote c = false := by decide
    obtain rfl : quote = c := by simpa [List.getLast?_cons] using hc
    rw [hnone quote hcloser] at hquote
    cases hquote

theorem lex_append {xs : List Char} (h : lex xs = some ts)
    (hclosed : xs.getLast?.any (closers.contains ·) = true) {ys : List Char}
    (hys : ys.head? ≠ some '=') : lex (xs ++ ys) = (lex ys).map (ts ++ ·) := by
  refine lex_induction (P := fun xs ts => lex xs = some ts →
    xs.getLast?.any (closers.contains ·) = true → lex (xs ++ ys) = (lex ys).map (ts ++ ·))
    ?_ ?_ ?_ h h hclosed
  · intro _ hclosed
    cases hclosed
  · intro cs ts ih hcs hclosed
    rw [lex_blank] at hcs
    rw [List.cons_append, lex_blank]
    cases cs with
    | nil =>
      rw [lex_nil] at hcs
      cases hcs
      simp
    | cons c cs => exact ih hcs (by simpa using hclosed)
  · intro piece rest t ts htakes hrest ih _ hclosed
    cases rest with
    | nil =>
      rw [lex_nil] at hrest
      cases hrest
      rw [List.append_nil] at hclosed
      simpa using lex_last htakes hclosed hys
    | cons c rest =>
      have hlast : (c :: rest).getLast?.any (closers.contains ·) = true := by
        rwa [List.getLast?_append_of_ne_nil _ (by simp)] at hclosed
      rw [List.append_assoc, lex_piece htakes.nonempty (htakes.again _ (by simp)), ih hrest hlast]
      simp [Option.map_map, Function.comp_def]

/-- Only an equals sign is spelled with one in front. -/
theorem head?_of_lex_equals (h : lex ('=' :: cs) = some ts) :
    ts.head? = some (.symbol "=") ∨ ts.head? = some (.symbol "==") := by
  by_cases hcs : cs.head? = some '='
  · obtain ⟨more, rfl⟩ := List.head?_eq_some_iff.mp hcs
    rw [lex_relation '=' (by decide)] at h
    obtain ⟨us, -, rfl⟩ := Option.map_eq_some_iff.mp h
    exact .inr rfl
  · rw [lex_mark '=' (by decide) cs fun _ => hcs] at h
    obtain ⟨us, -, rfl⟩ := Option.map_eq_some_iff.mp h
    exact .inl rfl

/-! ## Characters of a line of code -/

theorem not_mem_of_isInline (h : ∀ c ∈ cs, isInline c = true) : '\n' ∉ cs ∧ '\r' ∉ cs := by
  constructor <;> intro hmem <;> exact absurd (h _ hmem) (by decide)

theorem isInline_of_wordChar (h : wordChar c = true) : isInline c = true :=
  isInline_of_kind (by decide) h

theorem Sealed.isInline (h : Sealed quote cs) : ∀ c ∈ cs, isInline c = true := by
  induction h with
  | nil => simp
  | escape hc _ ih =>
    rintro d (_ | ⟨_, _ | ⟨_, hd⟩⟩)
    · decide
    · exact hc
    · exact ih d hd
  | char hc _ _ _ ih =>
    rintro d (_ | ⟨_, hd⟩)
    · exact hc
    · exact ih d hd

theorem Lexeme.isInline (h : Lexeme t cs) : ∀ c ∈ cs, Script.isInline c = true := by
  cases h with
  | word _ hcs => exact fun c hc => isInline_of_wordChar (hcs c hc)
  | mark hc =>
    have hall : ∀ c ∈ marks, Script.isInline c = true := by decide
    simpa using hall _ hc
  | relation hc =>
    have hall : ∀ c ∈ ['=', '!', '<', '>'], Script.isInline c = true := by decide
    intro d hd
    rcases List.mem_cons.mp hd with rfl | hd
    · exact hall d hc
    · rw [List.mem_singleton.mp hd]; rfl
  | @text s quote inside hquote hinside =>
    have hq : Script.isInline quote = true := by
      have hor : quote = singleQuote ∨ quote = doubleQuote := by simpa [isQuote] using hquote
      rcases hor with rfl | rfl <;> decide
    intro d hd
    simp only [List.mem_cons, List.mem_append, List.not_mem_nil, or_false] at hd
    rcases hd with rfl | hd | rfl
    · exact hq
    · exact hinside.isInline d hd
    · exact hq

/-- A text that is made of tokens is all on one line. -/
theorem isInline_of_lex (h : lex cs = some ts) : ∀ c ∈ cs, isInline c = true := by
  refine lex_induction (P := fun cs _ => ∀ c ∈ cs, isInline c = true) ?_ ?_ ?_ h
  · simp
  · intro cs ts ih
    exact List.forall_mem_cons.mpr ⟨rfl, ih⟩
  · intro piece rest t ts htakes _ ih
    exact List.forall_mem_append.mpr ⟨htakes.lexeme.isInline, ih⟩

end Stratagem.Script
