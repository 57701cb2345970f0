import Mathlib.Data.List.Nodup
import Stratagem.Indicator.Registry
import Stratagem.Proofs.Failure

/-! Columns of bound indicators. Binding lets declarations through one by one, each judged against
those before it; what it lets through are exactly the indicators that can be bound by themselves and
are pairwise apart. Every column stays away from the reserved ones, so a reference to an indicator
never means a column of market data. -/

namespace Stratagem

/-- The columns of market data. -/
def marketColumns : List String := ["date", "open", "high", "low", "close", "volume"]

def BoundIndicator.columnNames (i : BoundIndicator) : List String := i.columns.map Prod.snd

/-- An indicator that can be bound by itself. -/
structure BoundIndicator.Proper (i : BoundIndicator) : Prop where
  id : isIndicatorId i.id = true
  columns : i.columnNames.Nodup
  unreserved : ∀ column ∈ i.columnNames, Text.lower column ∉ reservedColumns

/-- Two indicators that can be bound together. -/
structure BoundIndicator.Apart (i j : BoundIndicator) : Prop where
  id : i.id ≠ j.id
  columns : i.columnNames.Disjoint j.columnNames

namespace Registry

variable {owners : Owners} {r : Registry} {bound : List BoundIndicator} {b : Binding}
  {declarations : List IndicatorDeclaration}

/-- What a declaration is bound to. -/
structure Settles (r : Registry) (d : IndicatorDeclaration) (i : BoundIndicator) : Prop where
  id : i.id = d.id
  spec : r.find? d.type = some i.spec
  params : i.spec.validate d = .ok i.params

/-- Columns are claimed that are neither reserved nor taken, each of them once. -/
theorem claim_eq_ok_iff {id : String} {owners' : Owners} {columns : List String} :
    claim id owners columns = .ok owners' ↔
      (∀ column ∈ columns, Text.lower column ∉ reservedColumns) ∧ columns.Nodup ∧
        (∀ column ∈ columns, owners.lookup column = none) ∧
        owners' = (columns.map (·, id)).reverse ++ owners := by
  induction columns generalizing owners with
  | nil =>
    simp only [claim, Except.ok.injEq, List.not_mem_nil, false_implies, implies_true,
      List.nodup_nil, List.map_nil, List.reverse_nil, List.nil_append, true_and]
    exact eq_comm
  | cons column rest ih =>
    rw [claim]
    split
    · next hreserved =>
      simp only [reduceCtorEq, false_iff]
      exact fun h => h.1 column List.mem_cons_self (by simpa using hreserved)
    next hunreserved =>
    split
    · next owner howner =>
      simp only [reduceCtorEq, false_iff]
      rintro ⟨-, -, hfree, -⟩
      rw [hfree column List.mem_cons_self] at howner
      cases howner
    · next hfree =>
      have hrest : (∀ c ∈ rest, List.lookup c ((column, id) :: owners) = none) ↔
          column ∉ rest ∧ ∀ c ∈ rest, owners.lookup c = none := by
        simp only [List.lookup_cons]
        grind
      rw [ih, hrest]
      simp only [List.contains_eq_mem, decide_eq_true_eq] at hunreserved
      simp only [List.forall_mem_cons, List.nodup_cons, hunreserved, hfree, not_false_eq_true,
        true_and, List.map_cons, List.reverse_cons, List.append_assoc, List.singleton_append]
      tauto

theorem bindOne_eq_ok_iff {d : IndicatorDeclaration} {i : BoundIndicator} :
    r.bindOne bound d = .ok i ↔
      isIndicatorId i.id = true ∧ (∀ j ∈ bound, j.id ≠ i.id) ∧ r.Settles d i := by
  constructor
  · intro h
    unfold bindOne at h
    split at h
    · cases h
    next hid =>
    split at h
    · cases h
    next spec hspec =>
    split at h
    · cases h
    next hfresh =>
    split at h
    · cases h
    next params hparams =>
    cases h
    exact ⟨by simpa using hid, by simpa using hfresh, rfl, hspec, hparams⟩
  · obtain ⟨id, spec, params⟩ := i
    rintro ⟨hid, hfresh, rfl, hspec, hparams⟩
    have hnew : bound.any (·.id == d.id) = false := by simpa using hfresh
    simp only at hid hspec hparams
    simp [bindOne, hid, hspec, hnew, hparams]

/-- The owners are those whose columns are bound. -/
def Owned (bound : List BoundIndicator) (owners : Owners) : Prop :=
  ∀ column, owners.lookup column = none ↔ ∀ j ∈ bound, column ∉ j.columnNames

theorem Owned.cons (h : Owned bound owners) (i : BoundIndicator) (id : String) :
    Owned (i :: bound) ((i.columnNames.map (·, id)).reverse ++ owners) := by
  intro column
  have hold := h column
  simp only [List.lookup_eq_none_iff] at hold ⊢
  simp only [List.forall_mem_append, List.mem_reverse, List.forall_mem_map, hold,
    List.forall_mem_cons]
  grind

/-- One declaration is let through if its indicator is proper and apart from those before it. -/
theorem bindFrom_cons_eq_ok_iff {d : IndicatorDeclaration} {rest : List IndicatorDeclaration}
    (howned : Owned bound owners) :
    r.bindFrom bound owners (d :: rest) = .ok b ↔
      ∃ i, r.Settles d i ∧ i.Proper ∧ (∀ j ∈ bound, j.Apart i) ∧
        r.bindFrom (i :: bound) ((i.columnNames.map (·, d.id)).reverse ++ owners) rest = .ok b := by
  simp only [bindFrom, bind_eq_ok_iff, bindOne_eq_ok_iff, claim_eq_ok_iff]
  constructor
  · rintro ⟨i, ⟨hid, hfresh, hsettles⟩, _, ⟨hunreserved, hnodup, hfree, rfl⟩, hrest⟩
    refine ⟨i, hsettles, ⟨hid, hnodup, hunreserved⟩, fun j hj => ⟨hfresh j hj, ?_⟩, hrest⟩
    exact fun column hold hnew => (howned column).mp (hfree column hnew) j hj hold
  · rintro ⟨i, hsettles, ⟨hid, hnodup, hunreserved⟩, hapart, hrest⟩
    refine ⟨i, ⟨hid, fun j hj => (hapart j hj).id, hsettles⟩, _, ⟨hunreserved, hnodup, ?_, rfl⟩,
      hrest⟩
    exact fun column hnew => (howned column).mpr fun j hj hold => (hapart j hj).columns hold hnew

theorem bindFrom_eq_ok_iff (howned : Owned bound owners) :
    r.bindFrom bound owners declarations = .ok b ↔
      ∃ settled, List.Forall₂ r.Settles declarations settled ∧ (∀ i ∈ settled, i.Proper) ∧
        settled.Pairwise BoundIndicator.Apart ∧ (∀ j ∈ bound, ∀ i ∈ settled, j.Apart i) ∧
        b = ⟨bound.reverse ++ settled⟩ := by
  induction declarations generalizing bound owners with
  | nil => simp [bindFrom, List.forall₂_nil_left_iff, eq_comm]
  | cons d rest ih =>
    rw [bindFrom_cons_eq_ok_iff howned]
    constructor
    · rintro ⟨i, hsettles, hproper, hapart, hrest⟩
      obtain ⟨settled, hall, hproper', hpairwise, hapart', rfl⟩ :=
        (ih (howned.cons i d.id)).mp hrest
      obtain ⟨hself, hbound⟩ := List.forall_mem_cons.mp hapart'
      refine ⟨i :: settled, .cons hsettles hall, List.forall_mem_cons.mpr ⟨hproper, hproper'⟩,
        List.pairwise_cons.mpr ⟨hself, hpairwise⟩, fun j hj => ?_, by simp⟩
      exact List.forall_mem_cons.mpr ⟨hapart j hj, hbound j hj⟩
    · rintro ⟨_, _ | ⟨hsettles, hall⟩, hproper, hpairwise, hapart, rfl⟩
      next i settled =>
      obtain ⟨hproper, hproper'⟩ := List.forall_mem_cons.mp hproper
      obtain ⟨hself, hpairwise⟩ := List.pairwise_cons.mp hpairwise
      refine ⟨i, hsettles, hproper, fun j hj => hapart j hj i List.mem_cons_self,
        (ih (howned.cons i d.id)).mpr ⟨settled, hall, hproper', hpairwise, ?_, by simp⟩⟩
      refine List.forall_mem_cons.mpr ⟨hself, fun j hj k hk => ?_⟩
      exact hapart j hj k (List.mem_cons_of_mem i hk)

/-- **What binding lets through.** -/
theorem bind_eq_ok_iff :
    r.bind declarations = .ok b ↔ List.Forall₂ r.Settles declarations b.indicators ∧
      (∀ i ∈ b.indicators, i.Proper) ∧ b.indicators.Pairwise BoundIndicator.Apart := by
  have hempty : Owned [] [] := by simp [Owned]
  rw [bind, bindFrom_eq_ok_iff hempty]
  constructor
  · rintro ⟨settled, hall, hproper, hpairwise, -, rfl⟩
    exact ⟨hall, hproper, hpairwise⟩
  · rintro ⟨hall, hproper, hpairwise⟩
    exact ⟨b.indicators, hall, hproper, hpairwise, by simp, rfl⟩

/-- What holds of every indicator that can be bound holds of all that are. -/
theorem bind_forall {P : BoundIndicator → Prop} (hone : ∀ d i, r.Settles d i → i.Proper → P i)
    (h : r.bind declarations = .ok b) : ∀ i ∈ b.indicators, P i := by
  obtain ⟨hall, hproper, -⟩ := bind_eq_ok_iff.mp h
  intro i hi
  obtain ⟨d, -, hsettles⟩ := exists_of_forall₂ hall.flip hi
  exact hone d i hsettles (hproper i hi)

/-- What binding has let through stays away from the reserved columns. -/
theorem bind_not_reserved (h : r.bind declarations = .ok b) :
    ∀ i ∈ b.indicators, ∀ p ∈ i.columns, Text.lower p.2 ∉ reservedColumns :=
  bind_forall (fun _ _ _ hproper _ hp => hproper.unreserved _ (List.mem_map_of_mem hp)) h

/-- **Binding keeps ids and columns distinct.** -/
theorem bind_distinct (h : r.bind declarations = .ok b) :
    b.indicators.Pairwise (fun i j => i.id ≠ j.id) ∧
      (b.indicators.flatMap BoundIndicator.columnNames).Nodup := by
  obtain ⟨-, hproper, hpairwise⟩ := bind_eq_ok_iff.mp h
  refine ⟨hpairwise.imp BoundIndicator.Apart.id, List.nodup_flatMap.mpr ⟨?_, ?_⟩⟩
  · exact fun i hi => (hproper i hi).columns
  · exact hpairwise.imp BoundIndicator.Apart.columns

end Registry

theorem BoundIndicator.column_mem {i : BoundIndicator} {field : Option String} {name : String}
    (h : i.column field = .ok name) : ∃ p ∈ i.columns, p.2 = name := by
  unfold BoundIndicator.column BoundIndicator.output at h
  dsimp only at h
  split at h
  · cases h
  · next output _ =>
    split at h
    · next hmem =>
      cases h
      exact ⟨_, List.mem_map_of_mem (List.mem_eraseDups.mpr (by simpa using hmem)), rfl⟩
    · cases h

theorem Binding.column_not_reserved {r : Registry} {declarations : List IndicatorDeclaration}
    {b : Binding} (h : r.bind declarations = .ok b) {id name : String} {field : Option String}
    (hcolumn : b.column id field = .ok name) : Text.lower name ∉ reservedColumns := by
  unfold Binding.column at hcolumn
  split at hcolumn
  · cases hcolumn
  · next i hi =>
    obtain ⟨p, hp, rfl⟩ := BoundIndicator.column_mem hcolumn
    exact Registry.bind_not_reserved h i (List.mem_of_find?_eq_some hi) p hp

end Stratagem
