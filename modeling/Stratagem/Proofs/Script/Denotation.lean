import Stratagem.Proofs.Failure
import Stratagem.Proofs.Script.Evaluation

/-! What values stand for. A value denotes a datum for each candle, present from some candle on: a
series has the cells one by one, and a single value is the same at every candle. Each elementwise
operation is described once, by what it does to the data of its operands. -/

namespace Stratagem.Script

variable {d : Datum} {first rows : Nat} {f : Nat → Datum} {v : Value}

def cell (first : Nat) (f : Nat → Datum) (i : Nat) : Cell := if first ≤ i then some (f i) else none

def cells (rows first : Nat) (f : Nat → Datum) : List Cell :=
  (List.range rows).map (cell first f)

/-- The value, a series or a single one, stands for the data from a candle on. -/
def Denotes (rows : Nat) (v : Value) (series : Bool) (first : Nat) (f : Nat → Datum) : Prop :=
  match series with
  | true => v = .series (cells rows first f)
  | false => first = 0 ∧ ∀ i, v = .single (f i)

/-- A datum counts as a number, and is one if it has to be. -/
def Counts (exact : Bool) (q : ℚ) (d : Datum) : Prop :=
  d.number? = some q ∧ (exact = true → d = .number q)

theorem counts_number (exact : Bool) (q : ℚ) : Counts exact q (.number q) := ⟨rfl, fun _ => rfl⟩

theorem Counts.amount {exact : Bool} {q : ℚ} (h : Counts exact q d) : d.amount = q := by
  rw [Datum.amount, h.1]
  rfl

/-- What counts as a number is one, or a truth value. -/
theorem Counts.cases {exact : Bool} {q : ℚ} (h : Counts exact q d) :
    d = .number q ∨ exact = false ∧ ∃ b : Bool, d = .truth b ∧ q = if b then 1 else 0 := by
  obtain ⟨hnumber, hexact⟩ := h
  cases d with
  | number p => exact .inl (by simpa [Datum.number?, Datum.plain] using hnumber)
  | truth b =>
    refine .inr ⟨by simpa using hexact, b, rfl, ?_⟩
    simpa [Datum.number?, Datum.plain, eq_comm] using hnumber
  | text | null => cases hnumber

/-- The value stands for numbers, truth values counting as such unless they have to be exact. -/
def DenotesNumbers (rows : Nat) (v : Value) (series : Bool) (first : Nat) (q : Nat → ℚ)
    (exact : Bool) : Prop :=
  ∃ f, Denotes rows v series first f ∧ ∀ i, Counts exact (q i) (f i)

@[simp]
theorem length_cells (rows first : Nat) (f : Nat → Datum) : (cells rows first f).length = rows := by
  simp [cells]

theorem cell_of_le {i : Nat} (h : first ≤ i) : cell first f i = some (f i) :=
  if_pos h

theorem cell_zero (f : Nat → Datum) (i : Nat) : cell 0 f i = some (f i) := if_pos (Nat.zero_le i)

theorem cells_const (h : ∀ i, f i = d) : cells rows 0 f = List.replicate rows (some d) := by
  rw [cells, List.eq_replicate_iff]
  simp [cell_zero, h]

theorem isSeries_eq {series : Bool} (h : Denotes rows v series first f) : isSeries v = series := by
  cases series with
  | true => cases h; rfl
  | false => rw [h.2 0]; rfl

/-! ## Elementwise operations -/

section

variable {rows first first' last : Nat} {v w : Value} {series series' : Bool}
  {f f' g : Nat → Datum} {takes : Cell → Bool}

theorem operands_eq (h : Denotes rows v series first f) (ht : ∀ i, takes (cell first f i) = true) :
    operands rows takes v = .ok (cells rows first f) := by
  cases series with
  | true =>
    cases h
    have hall : (cells rows first f).all takes = true := by simp [cells, ht]
    simp [operands, hall]
  | false =>
    obtain ⟨rfl, h⟩ := h
    have hd : ∀ i, f i = f 0 := fun i => by simpa using (h i).symm.trans (h 0)
    have hone : takes (some (f 0)) = true := by simpa [cell_zero] using ht 0
    rw [h 0, operands, if_pos hone, cells_const hd]

theorem lift_denotes {step : Cell → Except Fault Cell} (h : Denotes rows v series first f)
    (ht : ∀ i, takes (cell first f i) = true)
    (hs : ∀ i, (series = true → i < rows) → step (cell first f i) = .ok (cell first g i)) :
    ∃ u, lift rows takes step v = .ok u ∧ Denotes rows u series first g := by
  have ho := operands_eq h ht
  cases series with
  | true =>
    cases h
    refine ⟨_, ?_, rfl⟩
    have hm : (cells rows first f).mapM step = .ok (cells rows first g) := by
      rw [cells, List.mapM_map]
      exact mapM_ok fun i hi => hs i fun _ => List.mem_range.mp hi
    simp [lift, ho, hm, bind, Except.bind, pure, Except.pure]
  | false =>
    obtain ⟨rfl, h⟩ := h
    have hone : ∀ i, step (some (f 0)) = .ok (some (g i)) := by
      intro i
      have hd : f i = f 0 := by simpa using (h i).symm.trans (h 0)
      simpa [cell_zero, hd] using hs i nofun
    refine ⟨.single (g 0), ?_, rfl, fun i => ?_⟩
    · rw [h 0] at ho ⊢
      simp [lift, ho, hone 0, single, bind, Except.bind]
    · simpa using (hone 0).symm.trans (hone i)

theorem lift₂_denotes {step : Cell → Cell → Except Fault Cell}
    (h : Denotes rows v series first f) (h' : Denotes rows w series' first' f')
    (ht : ∀ i, takes (cell first f i) = true) (ht' : ∀ i, takes (cell first' f' i) = true)
    (hl : last ≤ max first first')
    (hs : ∀ i, ((series || series') = true → i < rows) →
      step (cell first f i) (cell first' f' i) = .ok (cell last g i)) :
    ∃ u, lift₂ rows takes step v w = .ok u ∧ Denotes rows u (series || series') last g := by
  have ho := operands_eq h ht
  have ho' := operands_eq h' ht'
  by_cases hsome : (series || series') = true
  · refine ⟨.series (cells rows last g), ?_, by rw [hsome]; rfl⟩
    have hm : ((cells rows first f).zip (cells rows first' f')).mapM (fun p => step p.1 p.2) =
        .ok (cells rows last g) := by
      rw [cells, cells, List.zip_map', List.mapM_map]
      exact mapM_ok fun i hi => hs i fun _ => List.mem_range.mp hi
    cases series <;> cases series' <;> cases hsome
    · cases h'; obtain ⟨_, h⟩ := h
      rw [h 0] at ho ⊢
      simp [lift₂, ho, ho', hm, bind, Except.bind, pure, Except.pure]
    · cases h; obtain ⟨_, h'⟩ := h'
      rw [h' 0] at ho' ⊢
      simp [lift₂, ho, ho', hm, bind, Except.bind, pure, Except.pure]
    · cases h; cases h'
      simp [lift₂, ho, ho', hm, bind, Except.bind, pure, Except.pure]
  · obtain ⟨rfl, rfl⟩ : series = false ∧ series' = false := by simpa using hsome
    obtain ⟨rfl, h⟩ := h
    obtain ⟨rfl, h'⟩ := h'
    obtain rfl : last = 0 := by simpa using hl
    have hone : ∀ i, step (some (f 0)) (some (f' 0)) = .ok (some (g i)) := by
      intro i
      have hd : f i = f 0 := by simpa using (h i).symm.trans (h 0)
      have hd' : f' i = f' 0 := by simpa using (h' i).symm.trans (h' 0)
      simpa [cell_zero, hd, hd'] using hs i (by simp)
    refine ⟨.single (g 0), ?_, rfl, fun i => ?_⟩
    · rw [h 0] at ho ⊢
      rw [h' 0] at ho' ⊢
      simp [lift₂, ho, ho', hone 0, single, bind, Except.bind]
    · simpa using (hone 0).symm.trans (hone i)

end

section

variable {rows first first' : Nat} {v w : Value} {series series' : Bool} {q q' : Nat → ℚ}
  {exact exact' : Bool}

theorem isNumeric_cell {f : Nat → Datum} (h : ∀ i, Counts exact (q i) (f i)) (i : Nat) :
    isNumeric (cell first f i) = true := by
  rw [cell]
  split <;> simp [isNumeric, (h i).1]

theorem pointwise_denotes (t : Table) (g : ℚ → ℚ) (g' : Bool → Bool)
    (h : DenotesNumbers t.rows v series first q exact)
    (hg : series = true → exact = false → ∀ b : Bool,
      g (if b then 1 else 0) = if g' b then 1 else 0) :
    ∃ u, pointwise t g g' v = .ok u ∧
      DenotesNumbers t.rows u series first (fun i => g (q i)) exact := by
  obtain ⟨f, h, hf⟩ := h
  have hcell : ∀ i, ∃ r, Counts exact (g (q i)) r ∧
      pointCell series g g' (some (f i)) = .ok (some r) := by
    intro i
    rcases (hf i).cases with hi | ⟨hexact, b, hi, hq⟩
    · exact ⟨_, counts_number .., by rw [hi]; cases series <;> rfl⟩
    · cases series with
      | false =>
        refine ⟨_, counts_number .., ?_⟩
        rw [← (hf i).amount, hi]
        rfl
      | true =>
        refine ⟨.truth (g' b), ⟨?_, by simp [hexact]⟩, by rw [hi]; rfl⟩
        rw [hq, hg rfl hexact]
        rfl
  choose r hr hstep using hcell
  have hcells : ∀ i, pointCell series g g' (cell first f i) = .ok (cell first r i) := by
    intro i
    rw [cell, cell]
    split
    · exact hstep i
    · rfl
  obtain ⟨u, hu, hd⟩ := lift_denotes h (isNumeric_cell hf) fun i _ => hcells i
  rw [← isSeries_eq h] at hu
  exact ⟨u, hu, r, hd, hr⟩

/-- An operation on two numbers at each candle. -/
theorem lift₂_numbers {step : Cell → Cell → Except Fault Cell} {op : ℚ → ℚ → ℚ}
    (h : DenotesNumbers rows v series first q exact)
    (h' : DenotesNumbers rows w series' first' q' exact')
    (hnone : ∀ x, step none x = .ok none ∧ step x none = .ok none)
    (hstep : ∀ i d d', Counts exact (q i) d → Counts exact' (q' i) d' →
      ∃ r, Counts (exact || exact') (op (q i) (q' i)) r ∧
        (((series || series') = true → i < rows) → first' ≤ i →
          step (some d) (some d') = .ok (some r))) :
    ∃ u, lift₂ rows isNumeric step v w = .ok u ∧
      DenotesNumbers rows u (series || series') (max first first') (fun i => op (q i) (q' i))
        (exact || exact') := by
  obtain ⟨f, h, hf⟩ := h
  obtain ⟨f', h', hf'⟩ := h'
  choose r hr hcell using fun i => hstep i (f i) (f' i) (hf i) (hf' i)
  have hcells : ∀ i, ((series || series') = true → i < rows) →
      step (cell first f i) (cell first' f' i) = .ok (cell (max first first') r i) := by
    intro i hi
    by_cases hl : first ≤ i
    · by_cases hr : first' ≤ i
      · simp [cell, hl, hr, hcell i hi hr]
      · simp [cell, hr, (hnone _).2]
    · simp [cell, hl, (hnone _).1]
  obtain ⟨u, hu, hd⟩ := lift₂_denotes h h' (isNumeric_cell hf) (isNumeric_cell hf') le_rfl hcells
  exact ⟨u, hu, r, hd, hr⟩

/-- Two truth values in series have a product only. -/
theorem arith_denotes (op : Arith) (h : DenotesNumbers rows v series first q exact)
    (h' : DenotesNumbers rows w series' first' q' exact')
    (hc : op = .mul ∨ ((series || series') = true → (exact || exact') = true))
    (hz : op = .div → ∀ i, ((series || series') = true → i < rows) → first' ≤ i → q' i ≠ 0) :
    ∃ u, lift₂ rows isNumeric (arithCell (isSeries v || isSeries w) op) v w = .ok u ∧
      DenotesNumbers rows u (series || series') (max first first')
        (fun i => op.apply (q i) (q' i)) (exact || exact') := by
  rw [isSeries_eq h.choose_spec.1, isSeries_eq h'.choose_spec.1]
  refine lift₂_numbers h h' (fun x => ⟨rfl, by cases x <;> rfl⟩) fun i d d' hd hd' => ?_
  have hplain (hcell : arithCell (series || series') op (some d) (some d') =
      if op = .div ∧ d'.amount = 0 then .error .zeroDivisor
      else .ok (some (.number (op.apply d.amount d'.amount)))) :
      ∃ r, Counts (exact || exact') (op.apply (q i) (q' i)) r ∧
        (((series || series') = true → i < rows) → first' ≤ i →
          arithCell (series || series') op (some d) (some d') = .ok (some r)) := by
    refine ⟨_, counts_number .., fun hi hr => ?_⟩
    rw [hcell, hd.amount, hd'.amount, if_neg fun ⟨ho, h0⟩ => hz ho i hi hr h0]
  rcases hd.cases with hn | ⟨he, b, rfl, hq⟩
  · exact hplain (by subst hn; cases series <;> cases series' <;> rfl)
  · rcases hd'.cases with hn | ⟨he', b', rfl, hq'⟩
    · exact hplain (by subst hn; cases series <;> cases series' <;> rfl)
    · cases hs : series || series' with
      | false => exact hs ▸ hplain (by rw [hs]; rfl)
      | true =>
        obtain rfl : op = .mul := hc.resolve_right fun h => by simpa [he, he'] using h hs
        refine ⟨.truth (b && b'), ⟨?_, by simp [he, he']⟩, fun _ _ => rfl⟩
        rw [hq, hq']
        cases b <;> cases b' <;> simp [Datum.number?, Datum.plain, Arith.apply]

theorem extremum_denotes (e : Extremum) (h : DenotesNumbers rows v series first q exact)
    (h' : DenotesNumbers rows w series' first' q' exact') :
    ∃ u, lift₂ rows isNumeric (extremumCell e) v w = .ok u ∧
      DenotesNumbers rows u (series || series') (max first first')
        (fun i => e.apply (q i) (q' i)) (exact || exact') := by
  refine lift₂_numbers h h' (fun x => ⟨rfl, by cases x <;> rfl⟩) fun i d d' hd hd' => ?_
  rcases hd.cases with rfl | ⟨he, b, rfl, hq⟩
  · refine ⟨_, counts_number .., fun _ _ => ?_⟩
    rw [← hd'.amount]
    cases d' <;> rfl
  · rcases hd'.cases with rfl | ⟨he', b', rfl, hq'⟩
    · refine ⟨_, counts_number .., fun _ _ => ?_⟩
      rw [← hd.amount]
      rfl
    · refine ⟨_, ⟨?_, by simp [he, he']⟩, fun _ _ => rfl⟩
      rw [hq, hq']
      cases e <;> cases b <;> cases b' <;> simp [Datum.number?, Datum.plain, Extremum.apply]

/-- A relation of data is a truth value at every candle, the one expected where both are there. -/
theorem relate_denotes (t : Table) (r : Relation) {f f' : Nat → Datum}
    (h : Denotes t.rows v series first f) (h' : Denotes t.rows w series' first' f')
    (hn : r.isOrder = true → ∀ i, (f i).number?.isSome ∧ (f' i).number?.isSome) :
    ∃ (u : Value) (b : Nat → Bool), relate t r v w = .ok u ∧
      Denotes t.rows u (series || series') 0 (fun i => .truth (b i)) ∧
      ∀ i, first ≤ i → first' ≤ i → b i = r.holds (f i) (f' i) := by
  let b (i : Nat) : Bool :=
    if first ≤ i ∧ first' ≤ i then r.holds (f i) (f' i) else r == .neq
  have hstep : ∀ i, relationCell r (cell first f i) (cell first' f' i) =
      .ok (cell 0 (fun i => .truth (b i)) i) := by
    intro i
    by_cases hl : first ≤ i
    · by_cases hr : first' ≤ i <;> simp [relationCell, cell, b, hl, hr]
    · simp [relationCell, cell, b, hl]
  have htake : ∀ (first : Nat) (f : Nat → Datum), (r.isOrder = true → ∀ i, (f i).number?.isSome) →
      ∀ i, (if r.isOrder then isNumeric else fun _ => true) (cell first f i) = true := by
    intro first f hf i
    by_cases hr : r.isOrder = true
    · rw [if_pos hr, cell]
      split <;> simp [isNumeric, hf hr]
    · rw [if_neg hr]
  obtain ⟨u, hu, hd⟩ := lift₂_denotes h h' (htake first f fun hr i => (hn hr i).1)
    (htake first' f' fun hr i => (hn hr i).2) (Nat.zero_le _) fun i _ => hstep i
  exact ⟨u, b, hu, hd, fun i hl hr => if_pos ⟨hl, hr⟩⟩

theorem isTruth_cell (b : Nat → Bool) (i : Nat) :
    isTruth (cell 0 (fun i => .truth (b i)) i) = true := by
  rw [cell_zero]; rfl

theorem isTrue_cell (b : Nat → Bool) (i : Nat) :
    isTrue (cell 0 (fun i => .truth (b i)) i) = b i := by
  rw [cell_zero]
  cases b i <;> rfl

theorem truths_denotes (g : Bool → Bool → Bool) {b b' : Nat → Bool}
    (h : Denotes rows v series 0 fun i => .truth (b i))
    (h' : Denotes rows w series' 0 fun i => .truth (b' i)) :
    ∃ u, lift₂ rows isTruth (truthCell g) v w = .ok u ∧
      Denotes rows u (series || series') 0 fun i => .truth (g (b i) (b' i)) := by
  refine lift₂_denotes h h' (isTruth_cell b) (isTruth_cell b') (Nat.zero_le _) fun i _ => ?_
  rw [truthCell, isTrue_cell, isTrue_cell, cell_zero]

theorem invert_denotes (t : Table) {b : Nat → Bool}
    (h : Denotes t.rows v true 0 fun i => .truth (b i)) :
    ∃ u, invert t v = .ok u ∧ Denotes t.rows u true 0 fun i => .truth (!b i) := by
  have hstep : ∀ i, invertCell (cell 0 (fun i => .truth (b i)) i) =
      .ok (cell 0 (fun i => .truth (!b i)) i) := by
    intro i
    rw [invertCell, isTrue_cell, cell_zero]
  obtain ⟨u, hu, hd⟩ := lift_denotes h (isTruth_cell b) fun i _ => hstep i
  cases h
  exact ⟨u, hu, hd⟩

end

/-! ## Shifts, choices and spreads -/

theorem shift_cells (rows first n : Nat) (f : Nat → Datum) :
    shift n (cells rows first f) = cells rows (first + n) fun i => f (i - n) := by
  refine List.ext_getElem (by simp [shift]) fun i hi hi' => ?_
  have hrows : i < rows := by simpa using hi'
  simp only [shift, cells, List.getElem_take, List.getElem_map, List.getElem_range]
  by_cases hn : i < n
  · rw [List.getElem_append_left (by simpa using hn)]
    simp [cell, show ¬first + n ≤ i by omega]
  · rw [List.getElem_append_right (by simpa using hn)]
    simp [cell, show first ≤ i - n ↔ first + n ≤ i by omega]

theorem fromEnd_cells {k : Nat} (f : Nat → Datum) (hk : 0 < k) (hrows : k ≤ rows) :
    fromEnd (cells rows 0 f) (-(k : ℚ)) = .ok (.single (f (rows - k))) := by
  have hneg : -(k : ℚ) < 0 := by simpa using hk
  have hget : (cells rows 0 f).getD (rows - k) none = some (f (rows - k)) := by
    simp [cells, cell_zero, List.getD, show rows - k < rows by omega]
  have hcount : (-(-(k : ℚ)).num).toNat = k := by simp
  rw [fromEnd, if_pos ⟨by simp, hneg, by simpa using hrows⟩, hcount, length_cells, hget]
  rfl

theorem select_eq (t : Table) {c w : Value} {s₁ s₂ s₃ : Bool} {b x y : Nat → Bool}
    (hc : Denotes t.rows c s₁ 0 fun i => .truth (b i))
    (hv : Denotes t.rows v s₂ 0 fun i => .truth (x i))
    (hw : Denotes t.rows w s₃ 0 fun i => .truth (y i)) (hs : (s₁ || s₂ || s₃) = true) :
    select t c v w = .ok (.array (cells t.rows 0 fun i => .truth (if b i then x i else y i))) := by
  have hany : (isSeries c || isSeries v || isSeries w) = true := by
    rw [isSeries_eq hc, isSeries_eq hv, isSeries_eq hw, hs]
  have hzip : ((cells t.rows 0 fun i => .truth (b i)).zip
      ((cells t.rows 0 fun i => .truth (x i)).zip (cells t.rows 0 fun i => .truth (y i)))).map
        (fun p => if isTrue p.1 then p.2.1 else p.2.2) =
      cells t.rows 0 fun i => .truth (if b i then x i else y i) := by
    rw [cells, cells, cells, List.zip_map', List.zip_map', List.map_map]
    refine List.map_congr_left fun i _ => ?_
    dsimp only [Function.comp]
    rw [isTrue_cell, cell_zero, cell_zero, cell_zero]
    split <;> rfl
  rw [select, operands_eq hc (isTruth_cell b), operands_eq hv fun _ => rfl,
    operands_eq hw fun _ => rfl]
  simp only [bind, Except.bind, hany, if_true]
  rw [hzip]
  rfl

theorem spread_single (t : Table) (h : Denotes t.rows v false 0 f) :
    spread t v = .ok (.series (cells t.rows 0 f)) := by
  obtain ⟨-, h⟩ := h
  have hd : ∀ i, f i = f 0 := fun i => by simpa using (h i).symm.trans (h 0)
  rw [h 0, spread, cells_const hd]

/-- The relations of a crossing: before, and now. -/
theorem crossing_denotes (t : Table) (above : Bool) {w : Value} {first' : Nat} {f' : Nat → Datum}
    (h : Denotes t.rows v true first f) (h' : Denotes t.rows w true first' f')
    (hn : ∀ i, (f i).number?.isSome ∧ (f' i).number?.isSome) :
    ∃ (u : Value) (b : Nat → Bool), crossing t above v w = .ok u ∧
      Denotes t.rows u true 0 (fun i => .truth (b i)) ∧
      ∀ i, max first first' + 1 ≤ i →
        b i = ((if above then Relation.gt else .lt).holds (f i) (f' i) &&
          (if above then Relation.lte else .gte).holds (f (i - 1)) (f' (i - 1))) := by
  have hb : Denotes t.rows (.series (shift 1 (cells t.rows first f))) true (first + 1)
      fun i => f (i - 1) := by rw [shift_cells]; rfl
  have hb' : Denotes t.rows (.series (shift 1 (cells t.rows first' f'))) true (first' + 1)
      fun i => f' (i - 1) := by rw [shift_cells]; rfl
  obtain ⟨now, b₁, he₁, hd₁, hv₁⟩ :=
    relate_denotes t (if above then .gt else .lt) h h' fun _ => hn
  obtain ⟨before, b₂, he₂, hd₂, hv₂⟩ :=
    relate_denotes t (if above then .lte else .gte) hb hb' fun _ i => hn (i - 1)
  obtain ⟨u, hu, hd⟩ := truths_denotes (· && ·) hd₁ hd₂
  refine ⟨u, fun i => b₁ i && b₂ i, ?_, hd, fun i hi => ?_⟩
  · cases h
    cases h'
    simp only [crossing, he₁, he₂, bind, Except.bind]
    exact hu
  · dsimp only
    rw [hv₁ i (by omega) (by omega), hv₂ i (by omega) (by omega)]

end Stratagem.Script
