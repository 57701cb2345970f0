import Stratagem.Naming
import Stratagem.Proofs.Text.LowerCase

/-! Names of module files. Both passes of `Text.snakeCase` only put underscores between the letters
of a name, and only where none stands yet; lower case then maps every letter for itself. Main
statement: from a class name comes a word of small letters and digits with single underscores inside
that spells the name and stays as it is when it is spelled again. -/

namespace Stratagem

namespace Text

variable {c : Char} {cs : List Char}

/-! ## Words and underscores -/

/-- Letters and digits with single underscores between them. -/
inductive Underscored : List Char → Prop
  | last {c : Char} : c.isAlphanum = true → Underscored [c]
  | next {c : Char} {cs : List Char} :
    c.isAlphanum = true → Underscored cs → Underscored (c :: cs)
  | apart {c : Char} {cs : List Char} :
    c.isAlphanum = true → Underscored cs → Underscored (c :: '_' :: cs)

theorem ne_underscore_of_isAlphanum (h : c.isAlphanum = true) : c ≠ '_' := by
  rintro rfl
  exact absurd h (by decide)

theorem not_infix_cons (hfirst : c = '_' → cs.head? ≠ some '_') (h : ¬ ['_', '_'] <:+: cs) :
    ¬ ['_', '_'] <:+: c :: cs := by
  rw [List.infix_cons_iff]
  rintro (⟨t, ht⟩ | hinfix)
  · cases ht
    exact hfirst rfl rfl
  · exact h hinfix

namespace Underscored

variable {cs : List Char}

theorem mem (h : Underscored cs) : ∀ c ∈ cs, c.isAlphanum = true ∨ c = '_' := by
  induction h with
  | last hc => simpa using .inl hc
  | next hc _ ih => exact List.forall_mem_cons.mpr ⟨.inl hc, ih⟩
  | apart hc _ ih =>
    exact List.forall_mem_cons.mpr ⟨.inl hc, List.forall_mem_cons.mpr ⟨.inr rfl, ih⟩⟩

theorem exists_cons (h : Underscored cs) : ∃ c rest, cs = c :: rest ∧ c.isAlphanum = true := by
  cases h with
  | last hc => exact ⟨_, _, rfl, hc⟩
  | next hc _ => exact ⟨_, _, rfl, hc⟩
  | apart hc _ => exact ⟨_, _, rfl, hc⟩

theorem getLast?_ne (h : Underscored cs) : cs.getLast? ≠ some '_' := by
  induction h with
  | last hc => simpa using ne_underscore_of_isAlphanum hc
  | next _ hcs ih =>
    obtain ⟨d, rest, rfl, -⟩ := hcs.exists_cons
    rwa [List.getLast?_cons_cons]
  | apart _ hcs ih =>
    obtain ⟨d, rest, rfl, -⟩ := hcs.exists_cons
    rwa [List.getLast?_cons_cons, List.getLast?_cons_cons]

theorem not_infix (h : Underscored cs) : ¬ ['_', '_'] <:+: cs := by
  induction h with
  | last _ => exact fun hinfix => absurd hinfix.length_le (by simp)
  | next hc _ ih => exact not_infix_cons (fun he => absurd he (ne_underscore_of_isAlphanum hc)) ih
  | apart hc hcs ih =>
    obtain ⟨d, rest, rfl, hd⟩ := hcs.exists_cons
    refine not_infix_cons (fun he => absurd he (ne_underscore_of_isAlphanum hc)) ?_
    exact not_infix_cons (fun _ => by simpa using ne_underscore_of_isAlphanum hd) ih

theorem cons_append {c : Char} {word : List Char} (hc : c.isAlphanum = true)
    (hword : ∀ d ∈ word, d.isAlphanum = true) (hcs : cs = [] ∨ Underscored cs) :
    Underscored (c :: (word ++ cs)) := by
  induction word generalizing c with
  | nil =>
    rcases hcs with rfl | hcs
    · exact .last hc
    · exact .next hc hcs
  | cons d word ih =>
    obtain ⟨hd, hword⟩ := List.forall_mem_cons.mp hword
    exact .next hc (ih hd hword)

end Underscored

/-! ## The two passes -/

theorem filter_cons_congr {p : Char → Bool} {ds : List Char} (c : Char)
    (h : cs.filter p = ds.filter p) : (c :: cs).filter p = (c :: ds).filter p := by
  rw [List.filter_cons, List.filter_cons, h]

/-- The first pass adds underscores only. -/
theorem filter_breakWords (cs : List Char) :
    (breakWords cs).filter (· ≠ '_') = cs.filter (· ≠ '_') := by
  fun_induction breakWords cs with
  | case1 c d rest _ ih =>
    refine filter_cons_congr c ?_
    rw [List.filter_cons_of_neg (by simp)]
    refine filter_cons_congr d ?_
    rw [List.filter_append, ih, ← List.filter_append, List.takeWhile_append_dropWhile]
  | case2 c d rest _ ih => exact filter_cons_congr c ih
  | case3 cs _ => rfl

theorem breakWords_underscored (h : ∀ c ∈ cs, c.isAlphanum = true) (hne : cs ≠ []) :
    Underscored (breakWords cs) := by
  fun_induction breakWords cs with
  | case1 c d rest _ ih =>
    simp only [List.forall_mem_cons] at h
    obtain ⟨hc, hd, hrest⟩ := h
    refine .apart hc (.cons_append hd (fun e he => hrest e (List.takeWhile_subset _ he)) ?_)
    by_cases hnil : rest.dropWhile Char.isLower = []
    · rw [hnil, breakWords]
      · exact .inl rfl
      · simp
    · exact .inr (ih (fun e he => hrest e (List.dropWhile_subset _ he)) hnil)
  | case2 c d rest _ ih =>
    obtain ⟨hc, hrest⟩ := List.forall_mem_cons.mp h
    exact .next hc (ih hrest (List.cons_ne_nil d rest))
  | case3 cs hshort =>
    match cs with
    | [c] => exact .last (h c (by simp))
    | [] => exact absurd rfl hne
    | c :: d :: rest => exact absurd rfl (hshort c d rest)

theorem head?_breakWords (cs : List Char) : (breakWords cs).head? = cs.head? := by
  fun_cases breakWords cs with
  | case1 => rfl
  | case2 => rfl
  | case3 => rfl

theorem breakWords_of_no_capitals (h : ∀ c ∈ cs, c.isUpper = false) : breakWords cs = cs := by
  fun_induction breakWords cs with
  | case1 c d rest hcapital _ => simp [h d (by simp)] at hcapital
  | case2 c d rest _ ih => rw [ih (List.forall_mem_cons.mp h).2]
  | case3 cs _ => rfl

/-- The second pass looks at neighbours: between a small letter or a digit and a capital it puts an
underscore. The capital itself starts no such pair, so nothing is lost by stepping over it. -/
theorem breakHumps_cons (c : Char) (cs : List Char) :
    breakHumps (c :: cs) = c :: breakHumps cs ∨
      ((c.isLower || c.isDigit) = true ∧ cs.head?.any Char.isUpper = true ∧
        breakHumps (c :: cs) = c :: '_' :: breakHumps cs) := by
  match cs with
  | [] => exact .inl rfl
  | d :: rest =>
    rw [breakHumps]
    split
    · next hhump =>
      refine .inr ⟨hhump.1, hhump.2, ?_⟩
      match rest with
      | [] => rfl
      | e :: rest => simp [breakHumps, small_of_isUpper hhump.2]
    · exact .inl rfl

theorem filter_breakHumps (cs : List Char) :
    (breakHumps cs).filter (· ≠ '_') = cs.filter (· ≠ '_') := by
  induction cs with
  | nil => rfl
  | cons c cs ih =>
    rcases breakHumps_cons c cs with h | ⟨-, -, h⟩
    · rw [h]
      exact filter_cons_congr c ih
    · rw [h]
      exact filter_cons_congr c ih

theorem head?_breakHumps (cs : List Char) : (breakHumps cs).head? = cs.head? := by
  cases cs with
  | nil => rfl
  | cons c cs =>
    rcases breakHumps_cons c cs with h | ⟨-, -, h⟩
    · rw [h]; rfl
    · rw [h]; rfl

theorem breakHumps_of_no_capitals (h : ∀ c ∈ cs, c.isUpper = false) : breakHumps cs = cs := by
  induction cs with
  | nil => rfl
  | cons c cs ih =>
    obtain ⟨-, hcs⟩ := List.forall_mem_cons.mp h
    rcases breakHumps_cons c cs with hstep | ⟨-, hcapital, -⟩
    · rw [hstep, ih hcs]
    · cases cs with
      | nil => cases hcapital
      | cons d rest => simp [hcs d (by simp)] at hcapital

theorem breakHumps_underscored (h : Underscored cs) : Underscored (breakHumps cs) := by
  induction h with
  | last hc => exact .last hc
  | @next c cs hc _ ih =>
    rcases breakHumps_cons c cs with h | ⟨-, -, h⟩
    · exact h ▸ .next hc ih
    · exact h ▸ .apart hc ih
  | @apart c cs hc _ ih =>
    -- An underscore is neither a capital nor what may stand before one.
    have hpast : breakHumps ('_' :: cs) = '_' :: breakHumps cs := by
      rcases breakHumps_cons '_' cs with h | ⟨h, -⟩
      · exact h
      · exact absurd h (by decide)
    rcases breakHumps_cons c ('_' :: cs) with h | ⟨-, h, -⟩
    · rw [h, hpast]
      exact .apart hc ih
    · exact absurd (show '_'.isUpper = true from h) (by decide)

/-! ## Small letters -/

/-- A letter in lower case is a small letter, and digits stay. -/
theorem toLower_of_isAlphanum (h : c.isAlphanum = true) :
    c.toLower.isLower = true ∨ c.toLower.isDigit = true :=
  forall_plain (P := fun c => c.isAlphanum = true → c.toLower.isLower = true ∨
    c.toLower.isDigit = true) (by decide +kernel) (lt_of_isAlphanum h) h

theorem isAlphanum_toLower (h : c.isAlphanum = true) : c.toLower.isAlphanum = true :=
  isAlphanum_iff.mpr ((toLower_of_isAlphanum h).imp_left fun hc => isAlpha_iff.mpr (.inr hc))

theorem Underscored.map_toLower (h : Underscored cs) : Underscored (cs.map Char.toLower) := by
  induction h with
  | last hc => exact .last (isAlphanum_toLower hc)
  | next hc _ ih => exact .next (isAlphanum_toLower hc) ih
  | apart hc _ ih => exact .apart (isAlphanum_toLower hc) ih

theorem Underscored.plain (h : Underscored cs) : ∀ c ∈ cs, c < 'À' := fun c hc =>
  (h.mem c hc).elim lt_of_isAlphanum (by rintro rfl; decide)

/-- Where the two passes leave words and underscores, lower case is all that follows. -/
theorem toList_snakeCase {s : String} (h : Underscored (breakHumps (breakWords s.toList))) :
    (snakeCase s).toList = (breakHumps (breakWords s.toList)).map Char.toLower := by
  rw [snakeCase]
  generalize breakHumps (breakWords s.toList) = cs at h
  have hkept : cs.map (fun c => if c = '-' || c = ' ' then '_' else c) = cs := by
    refine (List.map_congr_left fun c hc => if_neg ?_).trans (List.map_id' _)
    rcases h.mem c hc with halphanum | rfl
    · simp only [Bool.or_eq_true, decide_eq_true_eq]
      rintro (rfl | rfl)
      · exact absurd halphanum (by decide)
      · exact absurd halphanum (by decide)
    · decide
  rw [hkept, toList_lower_of_plain (by rw [String.toList_ofList]; exact h.plain),
    String.toList_ofList]

/-- A word without capitals is its own spelling. -/
theorem snakeCase_eq_self {s : String} (h : Underscored s.toList)
    (hsmall : ∀ c ∈ s.toList, c.isUpper = false) : snakeCase s = s := by
  have hsame : breakHumps (breakWords s.toList) = s.toList := by
    rw [breakWords_of_no_capitals hsmall, breakHumps_of_no_capitals hsmall]
  rw [← String.toList_inj, toList_snakeCase (hsame.symm ▸ h), hsame]
  refine (List.map_congr_left fun c hc => ?_).trans (List.map_id' _)
  exact forall_plain (P := fun c => c.isUpper = false → c.toLower = c) (by decide +kernel)
    (h.plain c hc) (hsmall c hc)

end Text

open Text

theorem isAlphanum_of_isClassWord {cs : List Char} (h : isClassWord cs = true) :
    ∀ c ∈ cs, c.isAlphanum = true := by
  cases cs with
  | nil => cases h
  | cons c rest =>
    simp only [isClassWord, Bool.and_eq_true, List.all_eq_true] at h
    exact List.forall_mem_cons.mpr ⟨isAlphanum_of_isUpper h.1, h.2⟩

/-- **File names spell class names.** The spelling of a class name in small letters consists of
small letters, digits and underscores and starts with a letter. No underscore ends it and no two are
adjacent, without the underscores it is the name in lower case, and spelled again it stays as it
is. -/
theorem snakeCase_spells_class_name {name : String} (h : isClassWord name.toList = true) :
    (∀ c ∈ (snakeCase name).toList, c.isLower = true ∨ c.isDigit = true ∨ c = '_') ∧
      (∃ c ∈ (snakeCase name).toList.head?, c.isLower = true) ∧
      (snakeCase name).toList.getLast? ≠ some '_' ∧
      ¬ ['_', '_'] <:+: (snakeCase name).toList ∧
      (snakeCase name).toList.filter (· ≠ '_') = name.toList.map Char.toLower ∧
      snakeCase (snakeCase name) = snakeCase name := by
  have halphanum := isAlphanum_of_isClassWord h
  have hne : name.toList ≠ [] := by
    rintro hnil
    rw [hnil] at h
    cases h
  have hwords := breakHumps_underscored (breakWords_underscored halphanum hne)
  have hsnake := toList_snakeCase hwords
  have hspelled : Underscored (snakeCase name).toList := hsnake ▸ hwords.map_toLower
  have hchars : ∀ c ∈ (snakeCase name).toList,
      c.isLower = true ∨ c.isDigit = true ∨ c = '_' := by
    rw [hsnake]
    intro c hc
    obtain ⟨d, hd, rfl⟩ := List.mem_map.mp hc
    rcases hwords.mem d hd with hletter | rfl
    · exact (toLower_of_isAlphanum hletter).imp id .inl
    · exact .inr (.inr rfl)
  refine ⟨hchars, ?_, hspelled.getLast?_ne, hspelled.not_infix, ?_, ?_⟩
  · rw [hsnake, List.head?_map, head?_breakHumps, head?_breakWords]
    cases hname : name.toList with
    | nil => exact absurd hname hne
    | cons c rest =>
      rw [hname, isClassWord, Bool.and_eq_true] at h
      have hfirst : c < 'À' := lt_of_isAlphanum (isAlphanum_of_isUpper h.1)
      exact ⟨c.toLower, rfl, forall_plain (P := fun c => c.isUpper = true →
        c.toLower.isLower = true) (by decide +kernel) hfirst h.1⟩
  · have hkept : ∀ c ∈ breakHumps (breakWords name.toList),
        ((· ≠ '_') ∘ Char.toLower : Char → Bool) c = decide (c ≠ '_') := by
      intro c hc
      rcases hwords.mem c hc with hletter | rfl
      · simp [ne_underscore_of_isAlphanum hletter,
          ne_underscore_of_isAlphanum (isAlphanum_toLower hletter)]
      · rfl
    rw [hsnake, List.filter_map, List.filter_congr hkept, filter_breakHumps, filter_breakWords,
      List.filter_eq_self.mpr fun c hc => by simp [ne_underscore_of_isAlphanum (halphanum c hc)]]
  · refine snakeCase_eq_self hspelled fun c hc => ?_
    exact forall_plain (P := fun c => c.isLower = true ∨ c.isDigit = true ∨ c = '_' →
      c.isUpper = false) (by decide +kernel) (hspelled.plain c hc) (hchars c hc)

theorem macdCrossRsi2_spelled :
    isClassWord "MACDCrossRsi2".toList = true ∧
      (snakeCase "MACDCrossRsi2").toList.filter (· ≠ '_') = "macdcrossrsi2".toList ∧
      snakeCase (snakeCase "MACDCrossRsi2") = snakeCase "MACDCrossRsi2" := by
  have h : isClassWord "MACDCrossRsi2".toList = true := by decide
  obtain ⟨-, -, -, -, hspells, hagain⟩ := snakeCase_spells_class_name h
  exact ⟨h, hspells.trans (by decide), hagain⟩

-- The first underscore comes from the first pass, the second one from the second.
example : snakeCase "MACDCrossRsi2" = "macd_cross_rsi2" := by decide +kernel

end Stratagem
