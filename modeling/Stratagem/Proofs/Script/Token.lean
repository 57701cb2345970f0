import Mathlib.Tactic.FinCases
import Stratagem.Proofs.Number.Digits
import Stratagem.Proofs.Text.Ascii
import Stratagem.Text.Quoted

/-! Tokens of generated code. `lex` reads a line of code as tokens: names, numbers, texts between
quotes of either kind, and symbols. It knows the part of the language that expressions are written
in and refuses everything else. Each token of a text is found one by one from the front, which is
what the lemmas say of names, symbols and quoted texts with anything behind them. -/

namespace Stratagem.Script

open Text (singleQuote doubleQuote isPrintable)

variable {cs rest : List Char}

-- A property of the characters of a list is decided on the list, not on all characters there are.
instance (priority := 2000) decidableForallMem {α : Type} (p : α → Prop) [DecidablePred p]
    (l : List α) : Decidable (∀ x ∈ l, p x) :=
  List.decidableBAll p l

inductive Token where
  | name (s : String)
  | integer (n : Nat)
  | float (x : Binary64)
  | text (s : String)
  | symbol (s : String)
  deriving DecidableEq

/-! ## Texts -/

def hexDigit? (c : Char) : Option Nat :=
  if '0' ≤ c ∧ c ≤ '9' then some (c.toNat - 48)
  else if 'a' ≤ c ∧ c ≤ 'f' then some (c.toNat - 87)
  else if 'A' ≤ c ∧ c ≤ 'F' then some (c.toNat - 55)
  else none

/-- The number that hexadecimal digits write, behind one already read. -/
def hexValue? : Nat → List Char → Option Nat
  | n, [] => some n
  | n, c :: rest => (hexDigit? c).bind fun d => hexValue? (16 * n + d) rest

def codePoint? (ds : List Char) : Option Char :=
  (hexValue? 0 ds).bind fun n => if n.isValidChar then some (Char.ofNat n) else none

/-- The character that a backslash and one character stand for. -/
def escaped? (c : Char) : Option Char :=
  if c = '\\' || c = singleQuote || c = doubleQuote then some c
  else if c = 'n' then some '\n'
  else if c = 'r' then some '\r'
  else if c = 't' then some '\t'
  else none

/-- One character more in front of what is read. -/
def push (c : Option Char) (read : Option (List Char × List Char)) :
    Option (List Char × List Char) :=
  c.bind fun c => read.map fun (s, rest) => (c :: s, rest)

/-- A text up to its closing quote. -/
def textBody (quote : Char) : List Char → Option (List Char × List Char)
  | [] => none
  | '\\' :: 'x' :: a :: b :: rest => push (codePoint? [a, b]) (textBody quote rest)
  | '\\' :: 'u' :: a :: b :: c :: d :: rest =>
    push (codePoint? [a, b, c, d]) (textBody quote rest)
  | '\\' :: 'U' :: a :: b :: c :: d :: e :: f :: g :: h :: rest =>
    push (codePoint? [a, b, c, d, e, f, g, h]) (textBody quote rest)
  | '\\' :: c :: rest => push (escaped? c) (textBody quote rest)
  | c :: rest =>
    if c = quote then some ([], rest)
    else if isPrintable c && c != '\\' then push (some c) (textBody quote rest)
    else none

/-- A text after its opening quote. Two quotes with a third behind them open a text of several
lines, which is refused. -/
def textToken (quote : Char) (cs : List Char) : Option (Token × List Char) :=
  (textBody quote cs).bind fun (s, rest) =>
    if rest.head? = some quote then none else some (.text (String.ofList s), rest)

/-! ## Names, numbers and symbols -/

def nameStart (c : Char) : Bool := c.isAlpha || c == '_'

def nameChar (c : Char) : Bool := c.isAlphanum || c == '_'

def isQuote (c : Char) : Bool := c == singleQuote || c == doubleQuote

/-- A name; directly before a quote it would belong to the text. -/
def nameToken (cs : List Char) : Option (Token × List Char) :=
  let rest := cs.dropWhile nameChar
  if rest.head?.any isQuote then none
  else some (.name (String.ofList (cs.takeWhile nameChar)), rest)

/-- A number ends where neither a name nor another point follows. -/
def numberToken (t : Token) (rest : List Char) : Option (Token × List Char) :=
  if rest.head?.any (fun c => nameChar c || c == '.') then none else some (t, rest)

/-- Digits that are no integer: the number, with the exponent that may follow. -/
def floatToken (whole fraction rest : List Char) : Option (Token × List Char) :=
  let token (exponent : Int) (rest : List Char) :=
    numberToken (.float ((Decimal.ofParts whole fraction exponent).toBinary64 false)) rest
  match rest with
  | 'e' :: more =>
    let (negative, digits) := takeSign more
    let (digits, rest) := takeDigits digits
    if digits.isEmpty then none
    else token (if negative then -(digitsValue digits : Int) else digitsValue digits) rest
  | _ => token 0 rest

def digitsToken (cs : List Char) : Option (Token × List Char) :=
  let (whole, rest) := takeDigits cs
  match rest with
  | '.' :: more =>
    let (fraction, rest) := takeDigits more
    if fraction.isEmpty then none else floatToken whole fraction rest
  | 'e' :: _ => floatToken whole [] rest
  | _ =>
    if whole.head? = some '0' && whole != ['0'] then none
    else numberToken (.integer (digitsValue whole)) rest

/-- Symbols of one character. -/
def marks : List Char :=
  ['(', ')', '[', ']', ',', '.', '=', '<', '>', '+', '-', '*', '/', '&', '|', '~']

def symbolToken : List Char → Option (Token × List Char)
  | '=' :: '=' :: rest => some (.symbol "==", rest)
  | '!' :: '=' :: rest => some (.symbol "!=", rest)
  | '<' :: '=' :: rest => some (.symbol "<=", rest)
  | '>' :: '=' :: rest => some (.symbol ">=", rest)
  | c :: rest => if c ∈ marks then some (.symbol (String.singleton c), rest) else none
  | [] => none

def token : List Char → Option (Token × List Char)
  | [] => none
  | c :: rest =>
    if nameStart c then nameToken (c :: rest)
    else if c.isDigit then digitsToken (c :: rest)
    else if isQuote c then textToken c rest
    else symbolToken (c :: rest)

/-- The tokens of a text, with blanks between them. -/
def lex (cs : List Char) : Option (List Token) :=
  match cs with
  | [] => some []
  | ' ' :: rest => lex rest
  | cs =>
    match token cs with
    | none => none
    | some (t, rest) =>
      -- Every token takes up at least one character.
      if rest.length < cs.length then (lex rest).map (t :: ·) else none
termination_by cs.length

/-! ## Tokens one by one -/

theorem lex_nil : lex [] = some [] := by rw [lex]

@[simp] theorem lex_blank (rest : List Char) : lex (' ' :: rest) = lex rest := by rw [lex]

theorem lex_token {t : Token} (hc : cs.head? ≠ some ' ') (h : token cs = some (t, rest))
    (hr : rest.length < cs.length) : lex cs = (lex rest).map (t :: ·) := by
  rw [lex.eq_def]
  split
  · simp at hr
  · simp at hc
  · simp [h, hr]

/-- One of these before `=` is a symbol of two characters. -/
theorem lex_mark (c : Char) (hc : c ∈ marks) (rest : List Char)
    (hr : c ∈ ['=', '<', '>'] → rest.head? ≠ some '=') :
    lex (c :: rest) = (lex rest).map (.symbol (String.singleton c) :: ·) := by
  have ht : token (c :: rest) = some (.symbol (String.singleton c), rest) := by
    have hall : marks.all (fun c => !nameStart c && !c.isDigit && !isQuote c && c != '!') =
        true := by decide
    have hs : nameStart c = false ∧ c.isDigit = false ∧ isQuote c = false ∧ c ≠ '!' := by
      simpa [and_assoc] using List.all_eq_true.mp hall c hc
    rw [token]
    simp only [hs, Bool.false_eq_true, if_false]
    rw [symbolToken.eq_def]
    split <;> simp_all
  refine lex_token ?_ ht (by simp)
  simp only [List.head?_cons, ne_eq, Option.some.injEq]
  rintro rfl
  exact absurd hc (by decide)

/-- The symbols of one character that start no other. -/
def soloMarks : List Char := ['(', ')', '[', ']', ',', '.', '+', '-', '*', '/', '&', '|', '~']

theorem lex_solo (c : Char) (hc : c ∈ soloMarks) (rest : List Char) :
    lex (c :: rest) = (lex rest).map (.symbol (String.singleton c) :: ·) := by
  have hall : soloMarks.all (fun c => decide (c ∈ marks ∧ c ∉ ['=', '<', '>'])) = true := by decide
  have hmark := of_decide_eq_true (List.all_eq_true.mp hall c hc)
  exact lex_mark c hmark.1 rest fun h => absurd h hmark.2

theorem lex_relation (c : Char) (hc : c ∈ ['=', '!', '<', '>']) (rest : List Char) :
    lex (c :: '=' :: rest) = (lex rest).map (.symbol (String.ofList [c, '=']) :: ·) := by
  have ht : token (c :: '=' :: rest) = some (.symbol (String.ofList [c, '=']), rest) := by
    fin_cases hc <;> rfl
  exact lex_token (by fin_cases hc <;> simp) ht (by simp)

/-- A text that reads as one name. -/
def isName (cs : List Char) : Bool := cs.head?.any nameStart && cs.all nameChar

/-- Nothing of a name, and no quote, comes first. -/
def endsName (rest : List Char) : Bool := rest.head?.all fun c => !nameChar c && !isQuote c

theorem lex_name (hs : isName cs = true) (hr : endsName rest = true) :
    lex (cs ++ rest) = (lex rest).map (.name (String.ofList cs) :: ·) := by
  cases cs with
  | nil => simp [isName] at hs
  | cons c cs =>
    simp only [isName, List.head?_cons, Option.any_some, Bool.and_eq_true] at hs
    have htake : (c :: cs ++ rest).takeWhile nameChar = c :: cs ∧
        (c :: cs ++ rest).dropWhile nameChar = rest := by
      rw [List.takeWhile_append_of_pos (by simpa using hs.2),
        List.dropWhile_append_of_pos (by simpa using hs.2)]
      cases rest with
      | nil => simp
      | cons d rest =>
        have hd : nameChar d = false := by simp_all [endsName]
        simp [hd]
    have ht : token (c :: cs ++ rest) = some (.name (String.ofList (c :: cs)), rest) := by
      rw [List.cons_append] at htake ⊢
      rw [token, if_pos hs.1, nameToken, htake.1, htake.2, if_neg]
      cases rest with
      | nil => simp
      | cons d rest => simp_all [endsName]
    refine lex_token ?_ ht (by simp)
    intro h
    have hc : c = ' ' := by simpa using h
    exact absurd (hc ▸ hs.1) (by decide)

/-! ## Quoted texts read back -/

private theorem hexDigit?_hexDigit (n : Nat) : hexDigit? (Text.hexDigit n) = some (n % 16) := by
  have h : ∀ d < 16, hexDigit? (Nat.digitChar d) = some d := by decide
  exact h _ (Nat.mod_lt n (by decide))

private theorem hexValue?_append (n : Nat) (xs ys : List Char) :
    hexValue? n (xs ++ ys) = (hexValue? n xs).bind fun k => hexValue? k ys := by
  induction xs generalizing n with
  | nil => rfl
  | cons c xs ih =>
    simp only [List.cons_append, hexValue?]
    cases hexDigit? c with
    | none => rfl
    | some d => exact ih _

private theorem hexValue?_hex (width n : Nat) :
    hexValue? 0 (Text.hex width n) = some (n % 16 ^ width) := by
  induction width generalizing n with
  | zero => simp [Text.hex, hexValue?, Nat.mod_one]
  | succ width ih =>
    have hstep : 16 * (n / 16 % 16 ^ width) + n % 16 = n % 16 ^ (width + 1) := by
      rw [Nat.pow_succ', Nat.mod_mul, Nat.add_comm]
    simp [Text.hex, hexValue?_append, ih, hexValue?, hexDigit?_hexDigit, hstep]

private theorem codePoint?_hex (width : Nat) (c : Char) (hc : c.toNat < 16 ^ width) :
    codePoint? (Text.hex width c.toNat) = some c := by
  have hv : c.toNat.isValidChar := c.valid
  simp [codePoint?, hexValue?_hex, Nat.mod_eq_of_lt hc, hv]

theorem textBody_escape (quote c : Char) (hc : c ∉ ['x', 'u', 'U']) (rest : List Char) :
    textBody quote ('\\' :: c :: rest) = push (escaped? c) (textBody quote rest) := by
  rw [textBody.eq_def]
  split <;> grind

private theorem textBody_hexEscape (quote c : Char) (rest : List Char) :
    textBody quote (Text.hexEscape c.toNat ++ rest) = push (some c) (textBody quote rest) := by
  have hmax : c.toNat < 16 ^ 8 := by
    have hv : c.toNat.isValidChar := c.valid
    unfold Nat.isValidChar at hv
    omega
  unfold Text.hexEscape
  split
  · rw [← codePoint?_hex 2 c (by omega)]
    rfl
  · split
    · rw [← codePoint?_hex 4 c (by omega)]
      rfl
    · rw [← codePoint?_hex 8 c hmax]
      rfl

/-- What one character is written as reads back as that character. -/
private theorem textBody_quotedChar {quote : Char} (hq : isQuote quote = true) (c : Char)
    (rest : List Char) :
    textBody quote (Text.quotedChar quote c ++ rest) = push (some c) (textBody quote rest) := by
  have hquote : quote = singleQuote ∨ quote = doubleQuote := by simpa [isQuote] using hq
  unfold Text.quotedChar
  split
  · rename_i hc
    have hc : c = singleQuote ∨ c = doubleQuote ∨ c = '\\' := by
      simp only [Bool.or_eq_true, decide_eq_true_eq] at hc
      rcases hc with rfl | hc
      · exact hquote.imp_right .inl
      · exact .inr (.inr hc)
    rw [List.cons_append, List.cons_append, List.nil_append, textBody_escape]
    · rcases hc with rfl | rfl | rfl <;> rfl
    · rcases hc with rfl | rfl | rfl <;> decide
  rename_i hplain
  split
  · subst c; exact textBody_escape quote 'n' (by decide) rest
  split
  · subst c; exact textBody_escape quote 'r' (by decide) rest
  split
  · subst c; exact textBody_escape quote 't' (by decide) rest
  split
  · rename_i hprint
    have hne : c ≠ quote ∧ c ≠ '\\' := by simpa using hplain
    rw [List.singleton_append, textBody.eq_def]
    split <;> simp_all
  · exact textBody_hexEscape quote c rest

private theorem textBody_flatMap {quote : Char} (hq : isQuote quote = true) (cs rest : List Char) :
    textBody quote (cs.flatMap (Text.quotedChar quote) ++ quote :: rest) = some (cs, rest) := by
  induction cs with
  | nil =>
    have hne : quote ≠ '\\' := by rintro rfl; exact absurd hq (by decide)
    rw [List.flatMap_nil, List.nil_append, textBody.eq_def]
    split <;> simp_all
  | cons c cs ih =>
    rw [List.flatMap_cons, List.append_assoc, textBody_quotedChar hq, ih]
    rfl

theorem lex_text (s : String) (hr : rest.head?.any isQuote = false) :
    lex ((Text.quoted s).toList ++ rest) = (lex rest).map (.text s :: ·) := by
  have hq : isQuote (Text.quoteFor s.toList) = true := by
    unfold Text.quoteFor
    split <;> decide
  generalize hquote : Text.quoteFor s.toList = quote at hq
  have hspelled : (Text.quoted s).toList ++ rest =
      quote :: (s.toList.flatMap (Text.quotedChar quote) ++ quote :: rest) := by
    simp [Text.quoted, Text.quotedChars, hquote]
  have hmark : nameStart quote = false ∧ quote.isDigit = false ∧ quote ≠ ' ' := by
    have h : quote = singleQuote ∨ quote = doubleQuote := by simpa [isQuote] using hq
    rcases h with rfl | rfl <;> decide
  have ht : token ((Text.quoted s).toList ++ rest) = some (.text s, rest) := by
    rw [hspelled, token]
    simp only [hmark, hq, Bool.false_eq_true, if_false, if_true, textToken, textBody_flatMap hq]
    rw [Option.bind_some, if_neg, String.ofList_toList]
    intro h
    simp [h, hq] at hr
  refine lex_token ?_ ht ?_
  · simp [hspelled, hmark]
  · simp [hspelled]
    omega

/-! ## Integers read back -/

/-- Nothing that a number could go on with comes first. -/
def endsNumber (rest : List Char) : Bool := rest.head?.all fun c => !nameChar c && c != '.'

theorem endsNumber_no_digit (hr : endsNumber rest = true) :
    rest.head?.any Char.isDigit = false := by
  cases rest with
  | nil => rfl
  | cons c rest => simp_all [endsNumber, nameChar, Char.isAlphanum]

theorem numberToken_of_ends (hr : endsNumber rest = true) (t : Token) :
    numberToken t rest = some (t, rest) := by
  rw [numberToken, if_neg]
  cases rest with
  | nil => simp
  | cons c rest => simp_all [endsNumber]

private theorem nameStart_of_isDigit {c : Char} (hc : c.isDigit = true) : nameStart c = false := by
  have hplain : c < 'À' := Text.lt_of_isAlphanum (Text.isAlphanum_iff.mpr (.inr hc))
  exact Text.forall_plain (P := fun c => c.isDigit = true → nameStart c = false)
    (by decide +kernel) hplain hc

theorem lex_digits {t : Token} (hc : cs.head?.any Char.isDigit = true)
    (h : digitsToken (cs ++ rest) = some (t, rest)) :
    lex (cs ++ rest) = (lex rest).map (t :: ·) := by
  cases cs with
  | nil => simp at hc
  | cons c cs =>
    have hd : c.isDigit = true := by simpa using hc
    have ht : token (c :: cs ++ rest) = some (t, rest) := by
      rw [List.cons_append, token, if_neg (by simp [nameStart_of_isDigit hd]), if_pos hd]
      exact h
    refine lex_token ?_ ht (by simp)
    intro hblank
    have hb : c = ' ' := by simpa using hblank
    exact absurd (hb ▸ hd) (by decide)

theorem lex_nat (n : Nat) (hr : endsNumber rest = true) :
    lex ((natText n).toList ++ rest) = (lex rest).map (.integer n :: ·) := by
  have hdigits := isDigit_toDigits n
  have hzero : ((Nat.toDigits 10 n).head? = some '0' && Nat.toDigits 10 n != ['0']) = false := by
    by_cases hn : n = 0
    · simp [hn]
    · simp [head?_toDigits hn]
  simp only [natText, String.toList_ofList]
  refine lex_digits ?_ ?_
  · cases h : Nat.toDigits 10 n with
    | nil => exact absurd h Nat.toDigits_ne_nil
    | cons c cs => simpa using hdigits c (by simp [h])
  · rw [digitsToken, takeDigits_append hdigits (endsNumber_no_digit hr)]
    dsimp only
    split
    · simp [endsNumber] at hr
    · simp [endsNumber, nameChar] at hr
    · rw [if_neg (by simpa using hzero), digitsValue_toDigits, numberToken_of_ends hr]

end Stratagem.Script
