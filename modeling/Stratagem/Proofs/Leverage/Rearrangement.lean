import Mathlib.Data.List.FinRange
import Mathlib.Logic.Equiv.Fin.Rotate
import Stratagem.Proofs.Leverage.Decision

/-! Rules in another order. Rules are compiled from the highest priority down, so of the order in
the document only that among equal priorities is left: two orders that agree there are compiled to
the same routine, or fail for the same reason. -/

namespace Stratagem.Leverage

variable {as bs : List LeverageRule}

/-- The one order is the other but for moves that keep rules of the same priority in line. -/
def Rearranges (as bs : List LeverageRule) : Prop :=
  ∃ move : Fin as.length ≃ Fin bs.length, (∀ i, bs.get (move i) = as.get i) ∧
    ∀ i j, i < j → (as.get i).priority = (as.get j).priority → move i < move j

/-! ## Rules of one priority -/

/-- The places of the rules of a priority. -/
def places (rules : List LeverageRule) (p : Int) : List (Fin rules.length) :=
  (List.finRange rules.length).filter fun i => (rules.get i).priority = p

theorem mem_places {rules : List LeverageRule} {p : Int} {i : Fin rules.length} :
    i ∈ places rules p ↔ (rules.get i).priority = p := by
  simp [places]

theorem places_pairwise (rules : List LeverageRule) (p : Int) :
    (places rules p).Pairwise (· < ·) :=
  (List.pairwise_lt_finRange _).filter _

theorem map_get_places (rules : List LeverageRule) (p : Int) :
    (places rules p).map rules.get = rules.filter (·.priority = p) := by
  conv_rhs => rw [← List.map_get_finRange rules, List.filter_map]
  rfl

/-- The move takes the places of a priority, in order, to its places in the other list. -/
theorem map_places {move : Fin as.length ≃ Fin bs.length} (hsame : ∀ i, bs.get (move i) = as.get i)
    (horder : ∀ i j, i < j → (as.get i).priority = (as.get j).priority → move i < move j)
    (p : Int) :
    (places as p).map move = places bs p := by
  have hsorted : ((places as p).map move).Pairwise (· < ·) := by
    rw [List.pairwise_map]
    refine (places_pairwise as p).imp_of_mem fun {i j} hi hj hij => horder i j hij ?_
    rw [mem_places.mp hi, mem_places.mp hj]
  have hmem : ∀ k, k ∈ (places as p).map move ↔ k ∈ places bs p := by
    intro k
    rw [List.mem_map, mem_places]
    constructor
    · rintro ⟨i, hi, rfl⟩
      rw [hsame, mem_places.mp hi]
    · intro hk
      refine ⟨move.symm k, mem_places.mpr ?_, move.apply_symm_apply k⟩
      rw [← hsame, move.apply_symm_apply, hk]
  have hperm := (List.perm_ext_iff_of_nodup hsorted.nodup (places_pairwise bs p).nodup).mpr hmem
  exact hperm.eq_of_pairwise (fun a b _ _ hab hba => absurd hab (not_lt_of_gt hba)) hsorted
    (places_pairwise bs p)

theorem Rearranges.filter_eq (h : Rearranges as bs) (p : Int) :
    as.filter (·.priority = p) = bs.filter (·.priority = p) := by
  obtain ⟨move, hsame, horder⟩ := h
  have hget : as.get = bs.get ∘ move := funext fun i => (hsame i).symm
  calc as.filter (·.priority = p)
      = (places as p).map as.get := (map_get_places as p).symm
    _ = ((places as p).map move).map bs.get := by rw [hget, List.map_map]
    _ = (places bs p).map bs.get := by rw [map_places hsame horder]
    _ = bs.filter (·.priority = p) := map_get_places bs p

/-! ## One order for all -/

theorem mem_of_filter_eq (h : ∀ p, as.filter (·.priority = p) = bs.filter (·.priority = p))
    {r : LeverageRule} (hr : r ∈ as) : r ∈ bs := by
  have hmem : r ∈ as.filter (·.priority = r.priority) := by simp [hr]
  rw [h] at hmem
  exact (List.mem_filter.mp hmem).1

/-- Rules that go down in priority are known from the rules of each priority. -/
theorem eq_of_pairwise_of_filter_eq (has : as.Pairwise fun a b => b.priority ≤ a.priority)
    (hbs : bs.Pairwise fun a b => b.priority ≤ a.priority)
    (h : ∀ p, as.filter (·.priority = p) = bs.filter (·.priority = p)) : as = bs := by
  induction as generalizing bs with
  | nil =>
    cases bs with
    | nil => rfl
    | cons b bs => simpa using h b.priority
  | cons a as ih =>
    cases bs with
    | nil => simpa using h a.priority
    | cons b bs =>
      obtain ⟨ha, hrest⟩ := List.pairwise_cons.mp has
      obtain ⟨hb, hrest'⟩ := List.pairwise_cons.mp hbs
      -- Each head stands in the other list, so neither has the lower priority.
      have hle : a.priority ≤ b.priority := by
        rcases List.mem_cons.mp (mem_of_filter_eq h List.mem_cons_self) with rfl | hmem
        · exact Int.le_refl _
        · exact hb a hmem
      have hge : b.priority ≤ a.priority := by
        rcases List.mem_cons.mp (mem_of_filter_eq (fun p => (h p).symm) List.mem_cons_self) with
          rfl | hmem
        · exact Int.le_refl _
        · exact ha b hmem
      have hsame : a.priority = b.priority := Int.le_antisymm hle hge
      have hhead := h a.priority
      rw [List.filter_cons_of_pos (by simp), List.filter_cons_of_pos (by simp [hsame])] at hhead
      obtain ⟨rfl, -⟩ := List.cons.inj hhead
      refine congrArg (a :: ·) (ih hrest hrest' fun p => ?_)
      by_cases hp : a.priority = p
      · simpa [hp] using h p
      · simpa [hp] using h p

theorem ordered_eq_of_rearranges
    (h : Rearranges (as.filter LeverageRule.enabled) (bs.filter LeverageRule.enabled)) :
    ordered as = ordered bs := by
  refine eq_of_pairwise_of_filter_eq (ordered_pairwise as) (ordered_pairwise bs) fun p => ?_
  rw [ordered_filter_priority, ordered_filter_priority, h.filter_eq]

/-- Settings with the same default and the same ceiling, and with the same enabled rules up to moves
that keep rules of the same priority in line, compile to the same routine or fail alike. -/
theorem compile_of_rearranged {a b : LeverageSettings}
    (hdefault : a.defaultLeverage = b.defaultLeverage) (hmax : a.maxLeverage = b.maxLeverage)
    (hrules : Rearranges (a.rules.filter LeverageRule.enabled)
      (b.rules.filter LeverageRule.enabled))
    (binding : Binding) (defaults : LeverageDefaults) (maxDepth : Int) :
    compile binding defaults maxDepth a = compile binding defaults maxDepth b := by
  have hordered := ordered_eq_of_rearranges hrules
  have htail : tailOf a = tailOf b := by
    funext fallback rules
    simp only [tailOf, hdefault]
  simp only [compile, hordered, htail, hmax]

/-- The rules of `layered` with the one for every trade in front, and another one switched off. -/
def relayered : LeverageSettings :=
  ⟨false, [flat 9 true 2, climbing, certain, flat 7 false 4], none,
    some (Binary64.ofRatio false 10 1)⟩

theorem layered_rearranges : Rearranges (layered.rules.filter LeverageRule.enabled)
    (relayered.rules.filter LeverageRule.enabled) := by
  show Rearranges [climbing, certain, flat 9 true 2] [flat 9 true 2, climbing, certain]
  refine ⟨finRotate 3, ?_, by decide⟩
  intro i
  fin_cases i <;> rfl

theorem relayered_compiles_alike :
    Rearranges (layered.rules.filter LeverageRule.enabled)
      (relayered.rules.filter LeverageRule.enabled) ∧
    compile Binding.empty {} 8 layered = compile Binding.empty {} 8 relayered :=
  ⟨layered_rearranges,
    compile_of_rearranged (a := layered) (b := relayered) rfl rfl layered_rearranges _ _ _⟩

end Stratagem.Leverage
