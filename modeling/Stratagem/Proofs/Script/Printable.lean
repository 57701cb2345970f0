import Stratagem.Proofs.Script.Lexemes
import Stratagem.Proofs.Script.Spelling

/-! Printable texts. Quotes and numbers are printable whatever they are made from, and code is made
of those, of names and of its own symbols. So code that is grouped is printable too, and nothing
printable ends a line. -/

namespace Stratagem

namespace Text

variable {s : String} {cs : List Char}

/-- Every character of a text is printable. -/
def Printable (s : String) : Prop := ∀ c ∈ s.toList, isPrintable c = true

@[simp] theorem printable_append {t : String} : Printable (s ++ t) ↔ Printable s ∧ Printable t := by
  simp [Printable, or_imp, forall_and]

theorem Printable.append {t : String} (hs : Printable s) (ht : Printable t) :
    Printable (s ++ t) := printable_append.mpr ⟨hs, ht⟩

theorem Printable.enclosed {before after : String} (hbefore : Printable before) (hs : Printable s)
    (hafter : Printable after) : Printable (before ++ s ++ after) :=
  (hbefore.append hs).append hafter

theorem isPrintable_of_ascii {c : Char} (h : 32 ≤ c.toNat ∧ c.toNat < 127) :
    isPrintable c = true := by
  have hgap : (unprintable.all fun r => r.2 < 32 || 127 ≤ r.1) = true := by decide +kernel
  rw [isPrintable, Bool.not_eq_true', Bool.eq_false_iff]
  intro hc
  obtain ⟨r, hr, hlow, hhigh⟩ := inRanges_iff.mp hc
  have hside : r.2 < 32 ∨ 127 ≤ r.1 := by simpa using List.all_eq_true.mp hgap r hr
  omega

/-- Texts of the generated language itself. -/
theorem isPrintable_of_ascii_all (h : (cs.all fun c => 32 ≤ c.toNat && c.toNat < 127) = true) :
    ∀ c ∈ cs, isPrintable c = true := by
  intro c hc
  refine isPrintable_of_ascii ?_
  simpa using List.all_eq_true.mp h c hc

theorem printable_of_ascii (h : (s.toList.all fun c => 32 ≤ c.toNat && c.toNat < 127) = true) :
    Printable s :=
  isPrintable_of_ascii_all h

/-- A literal is given by its characters, and need not be decoded for the check. -/
theorem printable_literal (h : (cs.all fun c => 32 ≤ c.toNat && c.toNat < 127) = true) :
    Printable (String.ofList cs) := by
  rw [Printable, String.toList_ofList]
  exact isPrintable_of_ascii_all h

/-- A printable text behind a literal. -/
theorem Printable.behind (hs : Printable s)
    (h : (cs.all fun c => 32 ≤ c.toNat && c.toNat < 127) = true) :
    Printable (String.ofList cs ++ s) := (printable_literal h).append hs

theorem Printable.isInline (h : Printable s) : ∀ c ∈ s.toList, Script.isInline c = true :=
  fun c hc => Script.isInline_of_isPrintable (h c hc)

end Text

theorem Script.isPrintable_of_nameChar {c : Char} (h : nameChar c = true) :
    Text.isPrintable c = true := by
  refine Text.isPrintable_of_ascii ?_
  rcases Bool.or_eq_true_iff.mp h with hword | hline
  · exact Text.forall_plain (P := fun c => c.isAlphanum = true → 32 ≤ c.toNat ∧ c.toNat < 127)
      (by decide +kernel) (Text.lt_of_isAlphanum hword) hword
  · rw [beq_iff_eq.mp hline]
    decide

namespace Text

/-! ## Quotes -/

theorem isPrintable_hex (width n : Nat) : ∀ c ∈ hex width n, isPrintable c = true := by
  have hdigit : ∀ k < 16, 32 ≤ (Nat.digitChar k).toNat ∧ (Nat.digitChar k).toNat < 127 := by
    decide
  induction width generalizing n with
  | zero => simp [hex]
  | succ width ih =>
    rw [hex, List.forall_mem_append, List.forall_mem_singleton]
    exact ⟨ih (n / 16), isPrintable_of_ascii (hdigit (n % 16) (Nat.mod_lt n (by decide)))⟩

theorem isPrintable_hexEscape (n : Nat) : ∀ c ∈ hexEscape n, isPrintable c = true := by
  have hescape {letter : Char} {digits : List Char} (hletter : isPrintable letter = true)
      (hdigits : ∀ c ∈ digits, isPrintable c = true) :
      ∀ c ∈ '\\' :: letter :: digits, isPrintable c = true :=
    List.forall_mem_cons.mpr ⟨isPrintable_of_ascii (by decide),
      List.forall_mem_cons.mpr ⟨hletter, hdigits⟩⟩
  unfold hexEscape
  split
  · exact hescape (isPrintable_of_ascii (by decide)) (isPrintable_hex 2 n)
  · split
    · exact hescape (isPrintable_of_ascii (by decide)) (isPrintable_hex 4 n)
    · exact hescape (isPrintable_of_ascii (by decide)) (isPrintable_hex 8 n)

theorem isPrintable_quotedChar {quote : Char} (hquote : isPrintable quote = true) (c : Char) :
    ∀ x ∈ quotedChar quote c, isPrintable x = true := by
  have hescape {d : Char} (hd : isPrintable d = true) : ∀ x ∈ ['\\', d], isPrintable x = true :=
    List.forall_mem_cons.mpr ⟨isPrintable_of_ascii (by decide), List.forall_mem_singleton.mpr hd⟩
  unfold quotedChar
  split
  · next hescaped =>
    have hc : c = quote ∨ c = '\\' := by simpa using hescaped
    rcases hc with rfl | rfl
    · exact hescape hquote
    · exact hescape (isPrintable_of_ascii (by decide))
  split
  · exact hescape (isPrintable_of_ascii (by decide))
  split
  · exact hescape (isPrintable_of_ascii (by decide))
  split
  · exact hescape (isPrintable_of_ascii (by decide))
  split
  · next hc => exact List.forall_mem_singleton.mpr hc
  · exact isPrintable_hexEscape c.toNat

theorem isPrintable_quoteFor (cs : List Char) : isPrintable (quoteFor cs) = true := by
  unfold quoteFor
  split <;> exact isPrintable_of_ascii (by decide)

/-- **A quoted text is printable**, whatever it quotes. -/
theorem printable_quoted (s : String) : Printable (quoted s) := by
  have hquote := isPrintable_quoteFor s.toList
  rw [Printable, quoted, String.toList_ofList, quotedChars, List.forall_mem_append]
  refine ⟨List.forall_mem_cons.mpr ⟨hquote, fun x hx => ?_⟩, by simpa using hquote⟩
  obtain ⟨c, -, hx⟩ := List.mem_flatMap.mp hx
  exact isPrintable_quotedChar hquote c x hx

/-! ## Numbers -/

/-- The characters that finite numbers are written with. -/
def isNumeral (c : Char) : Bool := c.isDigit || ['.', 'e', '+', '-'].contains c

theorem isPrintable_of_isNumeral {c : Char} (h : isNumeral c = true) : isPrintable c = true := by
  simp only [isNumeral, Bool.or_eq_true, List.contains_iff_mem] at h
  rcases h with hdigit | hmark
  · exact Script.isPrintable_of_nameChar (by simp [Script.nameChar, Char.isAlphanum, hdigit])
  · exact isPrintable_of_ascii_all (by decide) c hmark

theorem isNumeral_digits {cs : List Char} (h : ∀ c ∈ cs, c.isDigit = true) :
    ∀ c ∈ cs, isNumeral c = true := fun c hc => by simp [isNumeral, h c hc]

theorem isNumeral_natText (n : Nat) : ∀ c ∈ (natText n).toList, isNumeral c = true := by
  rw [natText, String.toList_ofList]
  exact isNumeral_digits (isDigit_toDigits n)

theorem isNumeral_intText (n : Int) : ∀ c ∈ (intText n).toList, isNumeral c = true := by
  unfold intText
  split
  · rw [String.toList_append, List.forall_mem_append]
    exact ⟨by decide, isNumeral_natText _⟩
  · exact isNumeral_natText _

theorem isDigit_significant (d : Decimal) : ∀ c ∈ d.significant.1, c.isDigit = true := by
  unfold Decimal.significant
  dsimp only
  split
  · simp [Char.isDigit]
  · intro c hc
    rw [List.mem_reverse] at hc
    exact isDigit_toDigits _ c (List.mem_reverse.mp ((List.dropWhile_sublist _).subset hc))

theorem isDigit_replicate (n : Nat) : ∀ c ∈ List.replicate n '0', c.isDigit = true := by
  intro c hc
  rw [List.eq_of_mem_replicate hc]
  rfl

theorem isNumeral_place (layout : NumberLayout) {digits : List Char}
    (h : ∀ c ∈ digits, c.isDigit = true) (exponent : Int) :
    ∀ c ∈ layout.place digits exponent, isNumeral c = true := by
  unfold NumberLayout.place
  split
  · -- with an exponent
    rw [List.forall_mem_append, List.forall_mem_cons, List.forall_mem_cons]
    refine ⟨?_, by decide, by split <;> decide, isNumeral_digits ?_⟩
    · split
      · exact isNumeral_digits h
      · exact isNumeral_digits h
      · obtain ⟨hd, hrest⟩ := List.forall_mem_cons.mp h
        exact List.forall_mem_cons.mpr ⟨by simp [isNumeral, hd],
          List.forall_mem_cons.mpr ⟨by decide, isNumeral_digits hrest⟩⟩
    · exact List.forall_mem_append.mpr ⟨isDigit_replicate _, isDigit_toDigits _⟩
  · split
    · rw [List.cons_append, List.cons_append, List.forall_mem_cons, List.forall_mem_cons]
      exact ⟨by decide, by decide,
        isNumeral_digits (List.forall_mem_append.mpr ⟨isDigit_replicate _, h⟩)⟩
    · rw [List.forall_mem_append, List.forall_mem_cons]
      refine ⟨isNumeral_digits (List.forall_mem_append.mpr
        ⟨fun c hc => h c (List.mem_of_mem_take hc), isDigit_replicate _⟩), by decide, ?_⟩
      split
      · decide
      · exact isNumeral_digits fun c hc => h c (List.mem_of_mem_drop hc)

theorem isNumeral_float {x : Binary64} (h : x.isFinite = true) :
    ∀ c ∈ x.text.toList, isNumeral c = true := by
  cases x with
  | nan => cases h
  | infinite negative => cases h
  | finite negative m e _ =>
    rw [Binary64.text, String.toList_append, List.forall_mem_append]
    refine ⟨by split <;> decide, ?_⟩
    rw [String.toList_ofList]
    have hdigits : ∀ c ∈ (if m = 0 then (['0'], (0 : Int))
        else (Binary64.shortestMagnitude m e).significant).1, c.isDigit = true := by
      split
      · simp [Char.isDigit]
      · exact isDigit_significant _
    exact isNumeral_place _ hdigits _

theorem printable_natText (n : Nat) : Printable (natText n) :=
  fun c hc => isPrintable_of_isNumeral (isNumeral_natText n c hc)

theorem printable_intText (n : Int) : Printable (intText n) :=
  fun c hc => isPrintable_of_isNumeral (isNumeral_intText n c hc)

theorem printable_float (x : Binary64) : Printable x.text := by
  cases hfinite : x.isFinite with
  | true => exact fun c hc => isPrintable_of_isNumeral (isNumeral_float hfinite c hc)
  | false =>
    cases x with
    | nan => exact printable_literal (by decide)
    | infinite negative => cases negative <;> exact printable_literal (by decide)
    | finite negative m e _ => cases hfinite

end Text

/-! ## Code -/

open Text

theorem Scalar.printable_written (s : Scalar) : Printable s.toValue.written := by
  cases s with
  | null => exact printable_literal (by decide)
  | bool b => cases b <;> exact printable_literal (by decide)
  | int n => exact printable_intText n
  | float x => exact printable_float x
  | text s => exact printable_quoted s

theorem Constant.printable_written (c : Constant) : Printable c.toValue.written := by
  cases c with
  | scalar s => exact s.printable_written
  | list items =>
    have hitems : Printable (", ".intercalate (Value.writtenItems (items.map Scalar.toValue))) := by
      induction items with
      | nil => exact printable_literal (by decide)
      | cons s rest ih =>
        cases rest with
        | nil => simpa [Value.writtenItems] using s.printable_written
        | cons next rest =>
          simp only [List.map_cons, Value.writtenItems, String.intercalate_cons_cons,
            printable_append] at ih ⊢
          exact ⟨⟨s.printable_written, printable_literal (by decide)⟩, ih⟩
    exact .enclosed (printable_literal (by decide)) hitems (printable_literal (by decide))

namespace Code

theorem printable_infixed {left symbol right : String} (hleft : Printable left)
    (hsymbol : Printable symbol) (hright : Printable right) :
    Printable (infixed left symbol right) :=
  .append (.append (.append (.append hleft (printable_literal (by decide))) hsymbol)
    (printable_literal (by decide))) hright

theorem printable_subscript {table : String} (h : Printable table) (column : String) :
    Printable (subscript table column) :=
  .append (.append (.append h (printable_literal (by decide))) (printable_quoted column))
    (printable_literal (by decide))

theorem printable_candleText (column : String) (ago : Nat) : Printable (candleText column ago) := by
  unfold candleText
  split
  · exact printable_subscript (printable_literal (by decide)) column
  · exact printable_subscript (printable_literal (by decide)) column
  · exact .append (.append (.append (printable_subscript (printable_literal (by decide)) column)
      (printable_literal (by decide))) (printable_natText _)) (printable_literal (by decide))

theorem printable_call {before inner : String} (hbefore : Printable before)
    (hinner : Printable inner) : Printable (before ++ inner ++ ")") :=
  .enclosed hbefore hinner (printable_literal (by decide))

theorem printable_comma {left right : String} (hleft : Printable left) (hright : Printable right) :
    Printable (left ++ ", " ++ right) :=
  .enclosed hleft (printable_literal (by decide)) hright

/-- **Grouped code is printable.** Of the texts of a document it holds quotes only. -/
theorem Grouped.printable {c : Code} (h : c.Grouped) : Printable c.render := by
  induction c with
  | literal value => exact value.printable_written
  | «variable» name =>
    have hname := (Bool.and_eq_true_iff.mp h.1).2
    exact fun c hc => Script.isPrintable_of_nameChar (List.all_eq_true.mp hname c hc)
  | column name => exact printable_subscript (printable_literal (by decide)) name
  | candle name ago => exact printable_candleText name ago
  | shifted e candles ih =>
    exact printable_call ((ih h.1).append (printable_literal (by decide)))
      (printable_natText candles)
  | seriesZone e zone ih =>
    exact printable_call ((ih h.1).append (printable_literal (by decide))) (printable_quoted zone)
  | momentZone e zone ih =>
    exact .enclosed ((ih h.1).append (printable_literal (by decide))) (printable_quoted zone)
      (printable_literal (by decide))
  | seriesPart e part ih | momentPart e part ih =>
    exact (ih h.1).append (printable_of_ascii (by cases part <;> decide))
  | paren e ih => exact printable_call (printable_literal (by decide)) (ih h.1)
  | broadcast e ih =>
    exact .enclosed (printable_literal (by decide)) (ih h.1) (printable_literal (by decide))
  | negative e ih | invert e ih | not e ih =>
    exact .append (printable_literal (by decide)) (ih h.1)
  | arith op left right ihl ihr =>
    exact printable_infixed (ihl h.1) (printable_of_ascii (by cases op <;> decide)) (ihr h.2.1)
  | compare r left right ihl ihr =>
    exact printable_infixed (ihl h.1) (printable_of_ascii (by cases r <;> decide)) (ihr h.2.1)
  | join c left right ihl ihr =>
    exact printable_infixed (ihl h.1) (printable_of_ascii (by cases c <;> decide)) (ihr h.2.1)
  | member negated e items ihl ihr =>
    exact printable_infixed (ihl h.1) (printable_of_ascii (by cases negated <;> decide))
      (ihr h.2.1)
  | pointwise f e ih =>
    exact printable_call (.enclosed (printable_literal (by decide))
      (printable_of_ascii (by cases f <;> decide)) (printable_literal (by decide))) (ih h.1)
  | pairwise f left right ihl ihr =>
    have hname : Printable ("np." ++ f.name ++ "imum(") :=
      printable_of_ascii (by cases f <;> decide)
    exact .append (printable_comma (hname.append (ihl h.1)) (ihr h.2.1))
      (printable_literal (by decide))
  | crossed above left right ihl ihr =>
    have hname : Printable ("qtpylib.crossed_" ++ (if above then "above" else "below") ++ "(") :=
      printable_of_ascii (by cases above <;> decide)
    exact .append (printable_comma (hname.append (ihl h.1)) (ihr h.2.1))
      (printable_literal (by decide))
  | also left right ihl ihr => exact printable_comma (ihl h.1) (ihr h.2)
  | extremum f arguments ih =>
    exact printable_call (.append (printable_of_ascii (by cases f <;> decide))
      (printable_literal (by decide))) (ih h)
  | isIn e items ihl ihr =>
    exact printable_call ((ihl h.1).append (printable_literal (by decide))) (ihr h.2.1)
  | choose condition then_ else_ ihc iht ihe =>
    exact .append (printable_comma (printable_comma
      (.append (printable_literal (by decide)) (ihc h.1)) (iht h.2.1)) (ihe h.2.2.1))
      (printable_literal (by decide))
  | ifElse then_ condition else_ iht ihc ihe =>
    exact .enclosed (.enclosed (iht h.1) (printable_literal (by decide)) (ihc h.2.1))
      (printable_literal (by decide)) (ihe h.2.2.1)

end Code

end Stratagem
