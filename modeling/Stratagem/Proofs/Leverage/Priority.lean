import Mathlib.Data.List.Basic
import Stratagem.Leverage.Compile

/-! The order of the rules. Rules are tried from the highest priority down and in document order
among equals, so the first rule that applies is, of all that apply, the first in the document of
those with the highest priority. -/

namespace Stratagem.Leverage

variable {rules : List LeverageRule} {r : LeverageRule} {applies : LeverageRule → Bool}

theorem ordered_perm (rules : List LeverageRule) :
    (ordered rules).Perm (rules.filter LeverageRule.enabled) :=
  List.mergeSort_perm _ _

theorem mem_ordered : r ∈ ordered rules ↔ r ∈ rules ∧ r.enabled = true := by
  rw [(ordered_perm rules).mem_iff, List.mem_filter]

theorem filter_ordered_perm (p : LeverageRule → Bool) (rules : List LeverageRule) :
    ((ordered rules).filter p).Perm (rules.filter fun r => r.enabled && p r) := by
  have hperm := (ordered_perm rules).filter p
  rw [List.filter_filter] at hperm
  simpa only [Bool.and_comm] using hperm

private theorem precedes_trans (a b c : LeverageRule)
    (hab : decide (b.priority ≤ a.priority) = true)
    (hbc : decide (c.priority ≤ b.priority) = true) :
    decide (c.priority ≤ a.priority) = true := by
  simp only [decide_eq_true_eq] at *
  omega

private theorem precedes_total (a b : LeverageRule) :
    (decide (b.priority ≤ a.priority) || decide (a.priority ≤ b.priority)) = true := by
  simp only [Bool.or_eq_true, decide_eq_true_eq]
  omega

theorem ordered_pairwise (rules : List LeverageRule) :
    (ordered rules).Pairwise fun a b => b.priority ≤ a.priority :=
  (List.pairwise_mergeSort precedes_trans precedes_total _).imp of_decide_eq_true

/-- Rules of the same priority stay in document order. -/
theorem ordered_filter_priority (rules : List LeverageRule) (p : Int) :
    (ordered rules).filter (·.priority = p) =
      (rules.filter LeverageRule.enabled).filter (·.priority = p) := by
  have hperm := (ordered_perm rules).filter fun r => decide (r.priority = p)
  have hpairwise : ((rules.filter LeverageRule.enabled).filter (·.priority = p)).Pairwise
      fun a b => decide (b.priority ≤ a.priority) = true := by
    refine List.Pairwise.imp_of_mem (R := fun _ _ => True) (fun ha hb _ => ?_)
      (List.pairwise_of_forall fun _ _ => trivial)
    simp only [List.mem_filter, decide_eq_true_eq] at ha hb
    simp [ha.2, hb.2]
  have hsublist := List.sublist_mergeSort precedes_trans precedes_total hpairwise
    List.filter_sublist
  have hfiltered := hsublist.filter fun r => decide (r.priority = p)
  rw [List.filter_filter] at hfiltered
  simp only [Bool.and_self] at hfiltered
  exact (hfiltered.eq_of_length hperm.length_eq.symm).symm

/-- Of the rules that apply, `r` has the highest priority and is the first of those that have it. -/
def Decides (applies : LeverageRule → Bool) (rules : List LeverageRule) (r : LeverageRule) : Prop :=
  applies r = true ∧ ∃ before after, rules = before ++ r :: after ∧
    (∀ s ∈ before, applies s = true → s.priority < r.priority) ∧
    ∀ s ∈ after, applies s = true → s.priority ≤ r.priority

theorem Decides.unique {r' : LeverageRule} (h : Decides applies rules r)
    (h' : Decides applies rules r') : r = r' := by
  obtain ⟨hr, before, after, hrules, hbefore, hafter⟩ := h
  obtain ⟨hr', before', after', hrules', hbefore', hafter'⟩ := h'
  rcases List.append_eq_append_iff.mp (hrules.symm.trans hrules') with
    ⟨more, rfl, htail⟩ | ⟨more, rfl, htail⟩
  · cases more with
    | nil => exact (List.cons.inj htail).1
    | cons s more =>
      obtain ⟨rfl, rfl⟩ := List.cons.inj htail
      have hlt := hbefore' r (by simp) hr
      have hle := hafter r' (by simp) hr'
      omega
  · cases more with
    | nil => exact (List.cons.inj htail).1.symm
    | cons s more =>
      obtain ⟨rfl, rfl⟩ := List.cons.inj htail
      have hlt := hbefore r' (by simp) hr'
      have hle := hafter' r (by simp) hr
      omega

/-- The first rule in order that applies decides. -/
theorem decides_of_find? (h : (ordered rules).find? applies = some r) :
    Decides (fun s => s.enabled && applies s) rules r := by
  obtain ⟨hr, before, after, hsplit, hbefore⟩ := List.find?_eq_some_iff_append.mp h
  have henabled := (mem_ordered.mp (List.mem_of_find?_eq_some h)).2
  have hle : ∀ s ∈ rules, (s.enabled && applies s) = true → s.priority ≤ r.priority := by
    intro s hs happlies
    obtain ⟨hon, happlies⟩ := Bool.and_eq_true_iff.mp happlies
    have hmem : s ∈ ordered rules := mem_ordered.mpr ⟨hs, hon⟩
    have hpairwise := ordered_pairwise rules
    rw [hsplit] at hmem hpairwise
    rcases List.mem_append.mp hmem with hs | hs
    · have hno : applies s = false := by simpa using hbefore s hs
      rw [happlies] at hno
      cases hno
    · rcases List.mem_cons.mp hs with rfl | hs
      · exact Int.le_refl _
      · exact (List.pairwise_cons.mp (List.pairwise_append.mp hpairwise).2.1).1 s hs
  -- Among the rules of this priority the order is that of the document.
  have hfirst : ((rules.filter LeverageRule.enabled).filter (·.priority = r.priority)).find?
      applies = some r := by
    rw [← ordered_filter_priority, List.find?_filter, List.find?_eq_some_iff_append]
    refine ⟨by simp [hr], before, after, hsplit, fun s hs => ?_⟩
    have hno : applies s = false := by simpa using hbefore s hs
    simp [hno]
  rw [List.find?_filter, List.find?_filter] at hfirst
  obtain ⟨-, before, after, hrules, hbefore⟩ := List.find?_eq_some_iff_append.mp hfirst
  refine ⟨by simp [henabled, hr], before, after, hrules, fun s hs happlies => ?_,
    fun s hs => hle s (by simp [hrules, hs])⟩
  have hmost := hle s (by simp [hrules, hs]) happlies
  obtain ⟨hon, happlies⟩ := Bool.and_eq_true_iff.mp happlies
  have hother : s.priority ≠ r.priority := by simpa [hon, happlies] using hbefore s hs
  omega

/-- No rule in order applies, so none in the document does. -/
theorem forall_of_find?_eq_none (h : (ordered rules).find? applies = none) :
    ∀ s ∈ rules, (s.enabled && applies s) = false := by
  intro s hs
  cases hon : s.enabled with
  | false => rfl
  | true => simpa using List.find?_eq_none.mp h s (mem_ordered.mpr ⟨hs, hon⟩)

end Stratagem.Leverage
