import Stratagem.Proofs.Compiler.Pipeline
import Stratagem.Proofs.Indicator.Collisions

/-! Class names that are derived from titles. The words of a title, joined, start with a capital or
a digit; what is put before or behind them makes a class word that is not reserved. On such words
the derivation does nothing, so these are its results and its fixed points, and the check of names
finds nothing to object to but their length. -/

namespace Stratagem

namespace Text

/-! ## Joined words -/

/-- Letters and digits of which the first is no small letter. -/
structure Joined (cs : List Char) : Prop where
  isAlphanum : ∀ c ∈ cs, c.isAlphanum = true
  head : ∀ c ∈ cs.head?, c.isLower = false

theorem Joined.nil : Joined [] := ⟨by simp, by simp⟩

theorem Joined.append {cs ds : List Char} (hcs : Joined cs) (hds : Joined ds) :
    Joined (cs ++ ds) := by
  refine ⟨List.forall_mem_append.mpr ⟨hcs.isAlphanum, hds.isAlphanum⟩, ?_⟩
  cases cs with
  | nil => exact hds.head
  | cons c rest => exact hcs.head

theorem toUpper_of_not_isLower {c : Char} (h : c.isAlphanum = true) (hlower : c.isLower = false) :
    c.toUpper = c :=
  forall_plain (P := fun c => c.isLower = false → c.toUpper = c) (by decide +kernel)
    (lt_of_isAlphanum h) hlower

theorem joined_capitalized {word : List Char} (h : ∀ c ∈ word, c.isAlphanum = true) :
    Joined (capitalized word) := by
  cases word with
  | nil => exact .nil
  | cons c rest =>
    obtain ⟨hc, hrest⟩ := List.forall_mem_cons.mp h
    obtain ⟨hupper, hhead⟩ := forall_plain (P := fun c => c.isAlphanum = true →
      c.toUpper.isAlphanum = true ∧ c.toUpper.isLower = false) (by decide +kernel)
      (lt_of_isAlphanum hc) hc
    exact ⟨List.forall_mem_cons.mpr ⟨hupper, hrest⟩, by simp [capitalized, hhead]⟩

theorem joined_flatMap {words : List (List Char)}
    (h : ∀ word ∈ words, ∀ c ∈ word, c.isAlphanum = true) :
    Joined (words.flatMap capitalized) := by
  induction words with
  | nil => exact .nil
  | cons word rest ih =>
    obtain ⟨hword, hrest⟩ := List.forall_mem_cons.mp h
    exact (joined_capitalized hword).append (ih hrest)

theorem joined_pascalCase (s : String) : Joined (pascalCase s).toList := by
  rw [pascalCase, String.toList_ofList, splitWhere_eq_splitOnP]
  refine joined_flatMap fun word hword c hc => ?_
  simpa only [Bool.not_eq_eq_eq_not, Bool.not_false] using (of_mem_splitOnP hword c hc).2

end Text

/-! ## Class words -/

theorem isClassWord_iff_joined {c : Char} {rest : List Char} :
    isClassWord (c :: rest) = true ↔ Text.Joined (c :: rest) ∧ c.isAlpha = true := by
  simp only [isClassWord, Bool.and_eq_true, List.all_eq_true]
  constructor
  · rintro ⟨hupper, hrest⟩
    have hlower : c.isLower = false := (Bool.or_eq_false_iff.mp (Text.small_of_isUpper hupper)).1
    refine ⟨⟨List.forall_mem_cons.mpr ⟨Text.isAlphanum_of_isUpper hupper, hrest⟩, ?_⟩,
      Text.isAlpha_of_isUpper hupper⟩
    simpa using hlower
  · rintro ⟨hjoined, halpha⟩
    have hlower : c.isLower = false := hjoined.head c rfl
    exact ⟨by simpa [Text.isAlpha_iff, hlower] using halpha,
      (List.forall_mem_cons.mp hjoined.isAlphanum).2⟩

theorem isClassWord_append {cs ds : List Char} (hcs : isClassWord cs = true)
    (hds : ∀ d ∈ ds, d.isAlphanum = true) : isClassWord (cs ++ ds) = true := by
  cases cs with
  | nil => cases hcs
  | cons c rest =>
    simp only [isClassWord, Bool.and_eq_true, List.all_eq_true, List.cons_append,
      List.forall_mem_append] at hcs ⊢
    exact ⟨hcs.1, hcs.2, hds⟩

/-- One word that has its capital already. -/
theorem pascalCase_of_isClassWord {name : String} (h : isClassWord name.toList = true) :
    Text.pascalCase name = name := by
  rw [← String.toList_inj, Text.pascalCase, String.toList_ofList, Text.splitWhere_eq_splitOnP]
  cases hname : name.toList with
  | nil => simp [hname, isClassWord] at h
  | cons c rest =>
    rw [hname, isClassWord_iff_joined] at h
    obtain ⟨hjoined, -⟩ := h
    have hlower : c.isLower = false := hjoined.head c rfl
    have hword : ∀ d ∈ c :: rest, (!d.isAlphanum) = false := fun d hd => by
      rw [hjoined.isAlphanum d hd]
      rfl
    rw [List.splitOnP_eq_singleton hword, List.flatMap_singleton, Text.capitalized,
      Text.toUpper_of_not_isLower (hjoined.isAlphanum c List.mem_cons_self) hlower]

/-! ## Derived names -/

/-- What is put behind a reserved name makes one of it that is not. -/
theorem reserved_append_free {word : String} (h : word ∈ reservedNames) :
    word ++ "Strategy" ∉ reservedNames := by
  have hall : ∀ w ∈ reservedNames, w ++ "Strategy" ∉ reservedNames := by decide
  exact hall word h

theorem classNameOf_isClassWord (title : String) :
    isClassWord (classNameOf title).toList = true ∧ classNameOf title ∉ reservedNames := by
  have hstrategy : ∀ c ∈ "Strategy".toList, c.isAlphanum = true := by decide
  have hjoined := Text.joined_pascalCase title
  cases hname : (Text.pascalCase title).toList with
  | nil =>
    simp only [classNameOf, hname]
    decide
  | cons c rest =>
    simp only [classNameOf, hname]
    rw [hname] at hjoined
    -- Before the reserved names are looked at there is a class word.
    have hword : isClassWord (if c.isAlpha then Text.pascalCase title
        else "Strategy" ++ Text.pascalCase title).toList = true := by
      split
      · next halpha =>
        rw [hname]
        exact isClassWord_iff_joined.mpr ⟨hjoined, halpha⟩
      · rw [String.toList_append, hname]
        exact isClassWord_append (by decide) hjoined.isAlphanum
    generalize (if c.isAlpha then Text.pascalCase title
      else "Strategy" ++ Text.pascalCase title) = word at hword ⊢
    split
    · next hreserved =>
      rw [List.contains_iff_mem] at hreserved
      rw [String.toList_append]
      exact ⟨isClassWord_append hword hstrategy, reserved_append_free hreserved⟩
    · next hfree => exact ⟨hword, by simpa using hfree⟩

theorem classNameOf_of_isClassWord {name : String} (hword : isClassWord name.toList = true)
    (hfree : name ∉ reservedNames) : classNameOf name = name := by
  cases hname : name.toList with
  | nil => simp [hname, isClassWord] at hword
  | cons c rest =>
    have halpha : c.isAlpha = true := by
      rw [hname, isClassWord_iff_joined] at hword
      exact hword.2
    simp [classNameOf, pascalCase_of_isClassWord hword, hname, halpha, hfree]

/-- The fixed points of the derivation are the words that it makes. -/
theorem classNameOf_eq_self_iff (name : String) :
    classNameOf name = name ↔ isClassWord name.toList = true ∧ name ∉ reservedNames := by
  refine ⟨fun h => ?_, fun ⟨hword, hfree⟩ => classNameOf_of_isClassWord hword hfree⟩
  have hmade := classNameOf_isClassWord name
  rwa [h] at hmade

/-- A class word that is not reserved and has no line feed behind it can only be too long. -/
theorem checkClassName_of_isClassWord {name : String} (hword : isClassWord name.toList = true)
    (hfree : name ∉ reservedNames) (limit : Int) :
    checkClassName limit name = .ok () ↔ (name.length : Int) ≤ limit := by
  have hempty : ¬ name.isEmpty = true := by
    intro hempty
    obtain rfl := String.isEmpty_iff.mp hempty
    cases hword
  have hfeed : '\n' ∉ name.toList := fun hmem =>
    absurd (nameChar_of_isClassWord hword _ hmem) (by decide)
  rw [checkClassName, chomp_of_no_feed hfeed, if_neg hempty]
  by_cases hlong : limit < name.length
  · simp [hlong]
  · simp [hlong, hword, hfree, Int.not_lt.mp hlong]

/-- **Derived class names are valid.** Whatever the title is, the check of class names objects at
most to the length of the derived name, and what is derived from that name is the name itself. The
names that derive to themselves are the class words that are not reserved. -/
theorem derived_name_accepted_up_to_length (title : String) (limit : Int) :
    (checkClassName limit (classNameOf title) = .ok () ↔
      ((classNameOf title).length : Int) ≤ limit) ∧
    classNameOf (classNameOf title) = classNameOf title ∧
    (classNameOf title = title ↔ isClassWord title.toList = true ∧ title ∉ reservedNames) := by
  obtain ⟨hword, hfree⟩ := classNameOf_isClassWord title
  exact ⟨checkClassName_of_isClassWord hword hfree limit,
    classNameOf_of_isClassWord hword hfree, classNameOf_eq_self_iff title⟩

end Stratagem
