import Mathlib.Data.List.Chain
import Stratagem.Proofs.Script.Printable
import Stratagem.Proofs.Text.Splitting
import Stratagem.Text.Comment

/-! Comments in normal form. A text is tidy if it is made of printable words with single spaces
between them. Collapsing makes every text tidy and leaves a tidy one as it is. The cut keeps it
tidy, since the dots behind it are no spaces, even where it falls behind a space. -/

namespace Stratagem.Text

variable {cs : List Char}

/-! ## Tidy texts -/

/-- Printable, with no space at the front and no two spaces side by side. -/
structure Spaced (cs : List Char) : Prop where
  printable : ∀ c ∈ cs, isPrintable c = true
  head : cs.head? ≠ some ' '
  single : cs.IsChain fun a b => ¬ (a = ' ' ∧ b = ' ')

/-- No space at the end either. -/
structure Tidy (cs : List Char) : Prop extends Spaced cs where
  last : cs.getLast? ≠ some ' '

theorem Spaced.take (h : Spaced cs) (n : Nat) : Spaced (cs.take n) where
  printable := fun c hc => h.printable c (List.mem_of_mem_take hc)
  head := by
    cases n with
    | zero => simp
    | succ n => simpa [List.head?_take] using h.head
  single := h.single.take n

/-- A space behind a tidy text is the only one at that place. -/
theorem Tidy.append_space (h : Tidy cs) (hne : cs ≠ []) :
    Spaced (cs ++ [' ']) where
  printable := List.forall_mem_append.mpr
    ⟨h.printable, List.forall_mem_singleton.mpr (isPrintable_of_ascii (by decide))⟩
  head := by
    rw [List.head?_append_of_ne_nil cs hne]
    exact h.head
  single := by
    refine h.single.append (List.isChain_singleton _) fun a ha b _ hab => ?_
    exact h.last (hab.1 ▸ ha)

theorem Spaced.append {xs ys : List Char} (hxs : Spaced xs) (hys : Tidy ys) (hne : ys ≠ []) :
    Tidy (xs ++ ys) where
  printable := List.forall_mem_append.mpr ⟨hxs.printable, hys.printable⟩
  head := by
    cases xs with
    | nil => exact hys.head
    | cons x xs => exact hxs.head
  single := by
    refine hxs.single.append hys.single fun a _ b hb hab => ?_
    exact hys.head (hab.2 ▸ hb)
  last := by
    rw [List.getLast?_append_of_ne_nil xs hne]
    exact hys.last

theorem tidy_of_no_space (hprintable : ∀ c ∈ cs, isPrintable c = true) (hspace : ' ' ∉ cs) :
    Tidy cs where
  printable := hprintable
  head := fun h => hspace (List.mem_of_head? h)
  single := by
    refine (List.pairwise_of_forall_mem_list fun a ha b _ hab => ?_).isChain
    exact hspace (hab.1 ▸ ha)
  last := fun h => hspace (List.mem_of_getLast? h)

theorem tidy_intercalate {words : List (List Char)}
    (h : ∀ word ∈ words, word ≠ [] ∧ (∀ c ∈ word, isPrintable c = true) ∧ ' ' ∉ word) :
    Tidy ([' '].intercalate words) ∧ (words ≠ [] → [' '].intercalate words ≠ []) := by
  induction words with
  | nil => exact ⟨tidy_of_no_space (by simp) (by simp), by simp⟩
  | cons word rest ih =>
    obtain ⟨⟨hne, hprintable, hspace⟩, hrest⟩ := List.forall_mem_cons.mp h
    have hword := tidy_of_no_space hprintable hspace
    cases rest with
    | nil => simpa using ⟨hword, hne⟩
    | cons next rest =>
      obtain ⟨htidy, hother⟩ := ih hrest
      rw [List.intercalate_cons_cons]
      exact ⟨(hword.append_space hne).append htidy (hother (by simp)), by simp⟩

/-! ## Collapsing -/

/-- A space for each character that is not printable. -/
def blanked (cs : List Char) : List Char := cs.map fun c => if isPrintable c then c else ' '

/-- What stands between spaces, with one space between each two. -/
def singleSpaced (cs : List Char) : List Char :=
  [' '].intercalate ((cs.splitOn ' ').filter (! ·.isEmpty))

theorem isPrintable_blanked (cs : List Char) : ∀ c ∈ blanked cs, isPrintable c = true := by
  refine List.forall_mem_map.mpr fun c _ => ?_
  split
  · assumption
  · exact isPrintable_of_ascii (by decide)

theorem blanked_of_printable (h : ∀ c ∈ cs, isPrintable c = true) : blanked cs = cs :=
  calc blanked cs
      = cs.map id := List.map_congr_left fun c hc => if_pos (h c hc)
    _ = cs := List.map_id cs

/-- Of the characters that words are split at only the space is printable. -/
theorem isBlank_of_isPrintable {c : Char} (h : isPrintable c = true) : isBlank c = (c == ' ') := by
  have htable : ∀ r ∈ spaces ++ [(0x1c, 0x1f)], r = (0x20, 0x20) ∨
      ∃ u ∈ unprintable, u.1 ≤ r.1 ∧ r.2 ≤ u.2 := by
    decide +kernel
  rw [Bool.eq_iff_iff, beq_iff_eq]
  constructor
  · intro hblank
    have hblank : inRanges (spaces ++ [(0x1c, 0x1f)]) c.toNat = true := by
      simpa [isBlank, isSpace, inRanges] using hblank
    obtain ⟨r, hr, hlow, hhigh⟩ := inRanges_iff.mp hblank
    rcases htable r hr with rfl | ⟨u, hu, hbelow, habove⟩
    · exact Char.toNat_inj.mp (le_antisymm hhigh hlow)
    · have hout : inRanges unprintable c.toNat = true :=
        inRanges_iff.mpr ⟨u, hu, hbelow.trans hlow, hhigh.trans habove⟩
      simp [isPrintable, hout] at h
  · rintro rfl
    decide

theorem collapse_eq (cs : List Char) : collapse cs = singleSpaced (blanked cs) := by
  have hsplit : splitWhere isBlank (blanked cs) = (blanked cs).splitOn ' ' := by
    rw [splitWhere_eq_splitOnP, List.splitOn_eq_splitOnP]
    exact splitOnP_congr fun c hc => isBlank_of_isPrintable (isPrintable_blanked cs c hc)
  rw [singleSpaced, ← hsplit]
  rfl

theorem tidy_collapse (cs : List Char) : Tidy (collapse cs) := by
  rw [collapse_eq]
  refine (tidy_intercalate fun word hword => ?_).1
  obtain ⟨hword, hne⟩ := List.mem_filter.mp hword
  rw [List.splitOn_eq_splitOnP] at hword
  have hchars := of_mem_splitOnP hword
  have hprintable : ∀ c ∈ word, isPrintable c = true := fun c hc =>
    isPrintable_blanked cs c (hchars c hc).1
  exact ⟨by simpa using hne, hprintable, fun hspace => by simpa using (hchars ' ' hspace).2⟩

theorem splitOn_cons_of_ne {c d : Char} (h : c ≠ d) (cs : List Char) :
    ∃ first others, cs.splitOn d = first :: others ∧
      (c :: cs).splitOn d = (c :: first) :: others := by
  obtain ⟨first, others, hsplit⟩ := List.exists_cons_of_ne_nil (List.splitOn_ne_nil d cs)
  refine ⟨first, others, hsplit, ?_⟩
  rw [List.splitOn_cons_eq_if_modifyHead, if_neg (by simpa using h), hsplit, List.modifyHead_cons]

/-- Where no space ends a text and no two are side by side, a word stands behind each. -/
theorem ne_nil_of_mem_tail_splitOn (hlast : cs.getLast? ≠ some ' ')
    (hsingle : cs.IsChain fun a b => ¬ (a = ' ' ∧ b = ' ')) :
    ∀ word ∈ (cs.splitOn ' ').tail, word ≠ [] := by
  induction cs with
  | nil => simp
  | cons c rest ih =>
    have hothers : ∀ word ∈ (rest.splitOn ' ').tail, word ≠ [] := by
      refine ih ?_ hsingle.tail
      cases rest with
      | nil => simp
      | cons d more => simpa using hlast
    by_cases hc : c = ' '
    · subst hc
      rw [List.splitOn_cons_eq_if_modifyHead, if_pos (by simp), List.tail_cons]
      cases rest with
      | nil => exact absurd rfl hlast
      | cons d more =>
        have hd : d ≠ ' ' := fun hd => hsingle.rel ⟨rfl, hd⟩
        obtain ⟨first, words, -, hsplit⟩ := splitOn_cons_of_ne hd more
        rw [hsplit] at hothers ⊢
        exact List.forall_mem_cons.mpr ⟨List.cons_ne_nil d first, hothers⟩
    · obtain ⟨first, words, hrest, hsplit⟩ := splitOn_cons_of_ne hc rest
      rw [hrest] at hothers
      rw [hsplit]
      exact hothers

theorem singleSpaced_of_tidy (h : Tidy cs) : singleSpaced cs = cs := by
  cases cs with
  | nil => rfl
  | cons c rest =>
    have hc : c ≠ ' ' := fun hc => h.head (congrArg some hc)
    obtain ⟨first, words, -, hsplit⟩ := splitOn_cons_of_ne hc rest
    have hwords := ne_nil_of_mem_tail_splitOn h.last h.single
    rw [hsplit] at hwords
    have hall : ∀ word ∈ (c :: rest).splitOn ' ', (!word.isEmpty) = true := by
      rw [hsplit]
      exact List.forall_mem_cons.mpr ⟨rfl, fun word hword => by simpa using hwords word hword⟩
    rw [singleSpaced, List.filter_eq_self.mpr hall, List.intercalate_splitOn]

theorem collapse_of_tidy (h : Tidy cs) : collapse cs = cs := by
  rw [collapse_eq, blanked_of_printable h.printable, singleSpaced_of_tidy h]

/-! ## The cut -/

theorem isPrintable_shorten (h : ∀ c ∈ cs, isPrintable c = true) (limit : Int) :
    ∀ c ∈ shorten limit cs, isPrintable c = true := by
  unfold shorten
  split
  · rw [List.forall_mem_append]
    exact ⟨fun c hc => h c (List.mem_of_mem_take hc), by decide +kernel⟩
  · exact h

theorem printable_comment (limit : Int) (s : String) : Printable (comment limit s) := by
  rw [Printable, comment, String.toList_ofList]
  exact isPrintable_shorten (tidy_collapse s.toList).printable limit

section Limit

variable {limit : Int} {cs : List Char}

theorem shorten_of_le (h : (cs.length : Int) ≤ limit) : shorten limit cs = cs := by
  rw [shorten, if_neg (Int.not_lt.mpr h)]

theorem shorten_of_lt (hlimit : 3 ≤ limit) (h : limit < cs.length) :
    shorten limit cs = cs.take (limit - 3).toNat ++ ['.', '.', '.'] := by
  rw [shorten, if_pos h, if_neg (Int.not_lt.mpr hlimit)]

theorem length_shorten_le (hlimit : 3 ≤ limit) (cs : List Char) :
    ((shorten limit cs).length : Int) ≤ limit := by
  rcases Int.lt_or_le limit cs.length with h | h
  · rw [shorten_of_lt hlimit h, List.length_append, List.length_take]
    simp only [List.length_cons, List.length_nil]
    omega
  · rwa [shorten_of_le h]

theorem tidy_shorten (hlimit : 3 ≤ limit) (hcs : Tidy cs) : Tidy (shorten limit cs) := by
  rcases Int.lt_or_le limit cs.length with h | h
  · rw [shorten_of_lt hlimit h]
    have hdots : Tidy ['.', '.', '.'] := tidy_of_no_space (by decide +kernel) (by decide)
    exact (hcs.toSpaced.take _).append hdots (by simp)
  · rwa [shorten_of_le h]

theorem comment_of_tidy {s : String} (h : Tidy s.toList) (hlength : (s.length : Int) ≤ limit) :
    comment limit s = s := by
  rw [comment, collapse_of_tidy h, shorten_of_le hlength, String.ofList_toList]

/-- **Comments are in normal form.** With room for three dots, a comment is no longer than the
limit and tidy, and as a comment it stays what it is. It is the text with spaces for what is not
printable and single spaces between the words if that fits, and otherwise its front and dots. -/
theorem comment_normal_form (hlimit : 3 ≤ limit) (s : String) :
    ((comment limit s).length : Int) ≤ limit ∧ Tidy (comment limit s).toList ∧
    comment limit (comment limit s) = comment limit s ∧
    (((singleSpaced (blanked s.toList)).length : Int) ≤ limit →
      (comment limit s).toList = singleSpaced (blanked s.toList)) ∧
    (limit < (singleSpaced (blanked s.toList)).length →
      (comment limit s).toList =
        (singleSpaced (blanked s.toList)).take (limit - 3).toNat ++ ['.', '.', '.']) := by
  have hcomment : (comment limit s).toList = shorten limit (collapse s.toList) := by
    rw [comment, String.toList_ofList]
  have hlength : ((comment limit s).length : Int) ≤ limit := by
    rw [← String.length_toList, hcomment]
    exact length_shorten_le hlimit _
  have htidy : Tidy (comment limit s).toList := by
    rw [hcomment]
    exact tidy_shorten hlimit (tidy_collapse _)
  refine ⟨hlength, htidy, comment_of_tidy htidy hlength, fun h => ?_, fun h => ?_⟩
  · rw [hcomment, collapse_eq, shorten_of_le h]
  · rw [hcomment, collapse_eq, shorten_of_lt hlimit h]

/-- Blanks at both ends, a tab, and a line separator from outside ASCII. -/
def ragged : String := " one\ttwo\u2028three "

/-- Here the cut falls behind a space. -/
theorem ragged_normal_form : (3 : Int) ≤ 7 ∧ comment 7 ragged = "one ..." ∧
    Tidy "one ...".toList ∧ comment 7 "one ..." = "one ..." := by
  have hcut : comment 7 ragged = "one ..." := by decide +kernel
  obtain ⟨-, htidy, hagain, -⟩ := comment_normal_form (by decide : (3 : Int) ≤ 7) ragged
  rw [hcut] at htidy hagain
  exact ⟨by decide, hcut, htidy, hagain⟩

end Limit

end Stratagem.Text
