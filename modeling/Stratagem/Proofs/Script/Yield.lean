import Stratagem.Proofs.Expression.Meaning
import Stratagem.Proofs.Script.Denotation
import Stratagem.Proofs.Script.Spelling

/-! What code yields, read as its script: for each form of code, the data that it stands for in
terms of the data of its parts. -/

namespace Stratagem

open Script

/-! ## Calls -/

namespace Script

variable {t : Table} {es : List Expr} {vs : List Value} {v : Value}

theorem evalAll_ofList (h : List.Forall₂ (fun e v => eval t e = .ok v) es vs) :
    evalAll t (.ofList es) = .ok (vs.map fun v => (none, v)) := by
  induction h with
  | nil => rfl
  | cons hv _ ih => simp [ArgList.ofList, evalAll, hv, ih, bind, Except.bind, pure, Except.pure]

theorem positional_map (vs : List Value) : positional (vs.map fun v => (none, v)) = .ok vs := by
  rw [positional, List.mapM_map]
  refine (mapM_ok (g := id) fun v _ => rfl).trans ?_
  rw [List.map_id]

theorem eval_np (f : String) (h : List.Forall₂ (fun e v => eval t e = .ok v) es vs) :
    eval t (.call (.attribute (.name "np") f) (.ofList es)) = arrayFunction t f vs := by
  rw [eval, evalAll_ofList h]
  show positional _ >>= arrayFunction t f = _
  rw [positional_map]
  rfl

theorem eval_qtpylib (f : String) (h : List.Forall₂ (fun e v => eval t e = .ok v) es vs) :
    eval t (.call (.attribute (.name "qtpylib") f) (.ofList es)) = crossingFunction t f vs := by
  rw [eval, evalAll_ofList h]
  show positional _ >>= crossingFunction t f = _
  rw [positional_map]
  rfl

/-- No library is a value. -/
theorem library_eq_none {o f : String} (h : named o = .ok v)
    (arguments : List (Option String × Value)) : library t o f arguments = none := by
  unfold library
  split
  · cases h
  · cases h
  · cases h
  · rfl

theorem eval_method {o : Expr} (f : String) (ho : eval t o = .ok v)
    (h : List.Forall₂ (fun e v => eval t e = .ok v) es vs) :
    eval t (.call (.attribute o f) (.ofList es)) = method v f vs := by
  have hvs := evalAll_ofList h
  cases o with
  | name s =>
    rw [eval] at ho
    rw [eval, hvs]
    simp only [bind, Except.bind]
    rw [library_eq_none ho, positional_map, ho]
  | _ =>
    rw [eval, hvs, ho]
    · simp only [bind, Except.bind]
      rw [positional_map]
    · intro s hs
      cases hs

theorem eval_signed {e : Expr} {q : ℚ} (negative : Bool)
    (h : eval t e = .ok (.single (.number q))) :
    eval t (signed negative e) = .ok (.single (.number (if negative then -q else q))) := by
  cases negative with
  | false => exact h
  | true =>
    rw [signed, if_pos rfl, eval, h]
    rfl

theorem eval_binary (op : Binary) {l r : Expr} {w : Value} (ha : op ≠ .and) (ho : op ≠ .or)
    (hl : eval t l = .ok v) (hr : eval t r = .ok w) :
    eval t (.binary op l r) = binary t op v w := by
  rw [eval, hl, hr]
  · rfl
  · exact ha
  · exact ho

end Script

theorem Binary64.toRat_eq (x : Binary64) :
    x.toRat = if x.isNegative then -x.magnitude.toRat else x.magnitude.toRat := by
  cases x with
  | finite negative m e h =>
    unfold toRat
    generalize (unit : ℚ) = u
    cases negative <;> simp [units?, isNegative, magnitude, neg_div]
  | _ => rfl

theorem Scalar.eval_script (t : Table) (s : Scalar) : eval t s.script = .ok (.single s.datum) := by
  cases s with
  | null => rfl
  | bool b => cases b <;> rfl
  | text s => rfl
  | int n =>
    rw [script, eval_signed (q := (n.natAbs : ℚ)) _ rfl, datum]
    congr 3
    by_cases hn : n < 0
    · simp [hn, abs_of_neg]
    · simp [hn, abs_of_nonneg (not_lt.mp hn)]
  | float x => rw [script, eval_signed _ rfl, datum, x.toRat_eq]

namespace Code

variable {t : Table} {c : Code} {first : Nat} {f : Nat → Datum}

/-- The code stands for the data from a candle on. -/
def Yields (t : Table) (c : Code) (series : Bool) (first : Nat) (f : Nat → Datum) : Prop :=
  ∃ v, eval t c.script = .ok v ∧ Denotes t.rows v series first f

def YieldsNumbers (t : Table) (c : Code) (series : Bool) (first : Nat) (q : Nat → ℚ)
    (exact : Bool) : Prop :=
  ∃ v, eval t c.script = .ok v ∧ DenotesNumbers t.rows v series first q exact

theorem Yields.single (h : c.Yields t false first f) (i : Nat) :
    eval t c.script = .ok (.single (f i)) := by
  obtain ⟨v, hv, -, hd⟩ := h
  rw [hv, hd i]

theorem yields_of_single (h : ∀ i, eval t c.script = .ok (.single (f i))) :
    c.Yields t false 0 f := by
  refine ⟨.single (f 0), h 0, rfl, fun i => ?_⟩
  simpa using (h 0).symm.trans (h i)

theorem Yields.numbers {series : Bool} {q : Nat → ℚ} {exact : Bool} (h : c.Yields t series first f)
    (hf : ∀ i, Counts exact (q i) (f i)) : c.YieldsNumbers t series first q exact := by
  obtain ⟨v, hv, hd⟩ := h
  exact ⟨v, hv, f, hd, hf⟩

/-! ## Literals and columns -/

theorem yields_scalar (s : Scalar) : (literal (.scalar s)).Yields t false 0 fun _ => s.datum :=
  ⟨.single s.datum, s.eval_script t, rfl, fun _ => rfl⟩

theorem eval_items (items : List Scalar) :
    eval t (literal (.list items)).script = .ok (.list (items.map Scalar.datum)) := by
  have h : List.Forall₂ (fun e v => eval t e = .ok v) (items.map Scalar.script)
      (items.map fun s => .single s.datum) := by
    rw [List.forall₂_map_left_iff, List.forall₂_map_right_iff]
    exact List.forall₂_same.mpr fun s _ => s.eval_script t
  rw [script, Constant.script, eval, evalAll_ofList h]
  simp only [bind, Except.bind]
  rw [positional_map]
  simp only [List.mapM_map]
  have hd : items.mapM (datum ∘ fun s => Value.single s.datum) = .ok (items.map Scalar.datum) :=
    mapM_ok fun s _ => rfl
  rw [hd]
  rfl

theorem yields_column {name : String} (h : name ≠ "date") :
    (column name).Yields t true 0 fun i => .number (t.column name i) := by
  refine ⟨Script.column t name, rfl, ?_⟩
  simp [Script.column, h, Denotes, cells, cell_zero]

theorem yields_shifted (n : Nat) (h : c.Yields t true first f) :
    (shifted c n).Yields t true (first + n) fun i => f (i - n) := by
  obtain ⟨v, hv, hd⟩ := h
  cases hd
  refine ⟨_, ?_, rfl⟩
  rw [script, eval_method "shift" hv (.cons rfl .nil)]
  simp [method, shift_cells]

theorem eval_candle {name : String} {ago : Nat} (hn : name ≠ "date") (ha : ago < t.rows) :
    eval t (candle name ago).script =
      .ok (.single (.number (t.column name (t.rows - 1 - ago)))) := by
  have hc : Script.candle t name ago =
      .ok (.single (.number (t.column name (t.rows - 1 - ago)))) := by
    rw [Script.candle, if_neg hn, if_pos ha]
  match ago with
  | 0 => exact hc
  | 1 => exact hc
  | ago + 2 =>
    obtain ⟨v, hv, hd⟩ := yields_column (t := t) hn
    cases hd
    have hpos : eval t (.unary .negative (.integer (ago + 2 + 1))) =
        .ok (.single (.number (-((ago + 2 + 1 : Nat) : ℚ)))) := rfl
    have hiat : eval t (.attribute (column name).script "iat") =
        .ok (.positions (cells t.rows 0 fun i => .number (t.column name i))) := by
      rw [eval, hv]; rfl
    have hlast : eval t (candle name (ago + 2)).script =
        fromEnd (cells t.rows 0 fun i => .number (t.column name i))
          (-((ago + 2 + 1 : Nat) : ℚ)) := by
      show eval t (.subscript (.attribute (column name).script "iat")
        (.unary .negative (.integer (ago + 2 + 1)))) = _
      rw [eval, hiat, hpos]
      rfl
    rw [hlast, fromEnd_cells _ (Nat.succ_pos _) ha, Nat.sub_sub, Nat.add_comm 1]

/-! ## Arithmetic -/

section

variable {l r e : Code} {series series' : Bool} {first first' : Nat} {q q' : Nat → ℚ}
  {exact exact' : Bool}

theorem yields_arith (op : Arith) (hl : l.YieldsNumbers t series first q exact)
    (hr : r.YieldsNumbers t series' first' q' exact')
    (hc : op = .mul ∨ ((series || series') = true → (exact || exact') = true))
    (hz : op = .div → ∀ i, ((series || series') = true → i < t.rows) → first' ≤ i → q' i ≠ 0) :
    (arith op l r).YieldsNumbers t (series || series') (max first first')
      (fun i => op.apply (q i) (q' i)) (exact || exact') := by
  obtain ⟨v, hv, hd⟩ := hl
  obtain ⟨w, hw, hd'⟩ := hr
  obtain ⟨u, hu, hy⟩ := arith_denotes op hd hd' hc hz
  exact ⟨u, (eval_binary (.arith op) nofun nofun hv hw).trans hu, hy⟩

/-- The negation of a truth value in a series is no number. -/
theorem yields_negative (h : e.YieldsNumbers t series first q exact)
    (hc : series = true → exact = true) :
    (negative e).YieldsNumbers t series first (fun i => -q i) exact := by
  obtain ⟨v, hv, hd⟩ := h
  obtain ⟨u, hu, hy⟩ := pointwise_denotes t (fun q => -q) (! ·) hd fun hs he => by
    simp [hc hs] at he
  refine ⟨u, ?_, hy⟩
  rw [script, eval, hv]
  exact hu

theorem yields_pointwise (f : Pointwise) (h : e.YieldsNumbers t series first q exact) :
    (pointwise f e).YieldsNumbers t series first (fun i => f.apply (q i)) exact := by
  obtain ⟨v, hv, hd⟩ := h
  obtain ⟨u, hu, hy⟩ := pointwise_denotes t f.apply id hd fun _ _ b => by
    cases f <;> cases b <;> simp [Pointwise.apply, roundEven]
  refine ⟨u, ?_, hy⟩
  rw [script, eval_np f.name (.cons hv .nil)]
  cases f <;> exact hu

theorem yields_pairwise (f : Extremum) (hl : l.YieldsNumbers t series first q exact)
    (hr : r.YieldsNumbers t series' first' q' exact') :
    (pairwise f l r).YieldsNumbers t (series || series') (max first first')
      (fun i => f.apply (q i) (q' i)) (exact || exact') := by
  obtain ⟨v, hv, hd⟩ := hl
  obtain ⟨w, hw, hd'⟩ := hr
  obtain ⟨u, hu, hy⟩ := extremum_denotes f hd hd'
  refine ⟨u, ?_, hy⟩
  rw [script, eval_np _ (.cons hv (.cons hw .nil))]
  cases f <;> exact hu

end

/-! ## Truth values -/

/-- The code stands for truth values, of which those from a candle on are known. -/
def YieldsTruth (t : Table) (c : Code) (series : Bool) (first : Nat) (holds : Nat → Bool) : Prop :=
  ∃ b : Nat → Bool, c.Yields t series 0 (fun i => .truth (b i)) ∧ ∀ i, first ≤ i → b i = holds i

section

variable {l r e : Code} {series series' : Bool} {first first' : Nat} {h h' : Nat → Bool}
  {f : Nat → Datum}

theorem yields_compare (rel : Relation) {f' : Nat → Datum} (hl : l.Yields t series first f)
    (hr : r.Yields t series' first' f')
    (hn : rel.isOrder = true → ∀ i, (f i).number?.isSome ∧ (f' i).number?.isSome) :
    (compare rel l r).YieldsTruth t (series || series') (max first first') fun i =>
      rel.holds (f i) (f' i) := by
  obtain ⟨v, hv, hd⟩ := hl
  obtain ⟨w, hw, hd'⟩ := hr
  obtain ⟨u, b, hu, hy, hb⟩ := relate_denotes t rel hd hd' hn
  exact ⟨b, ⟨u, (eval_binary (.relation rel) nofun nofun hv hw).trans hu, hy⟩,
    fun i hi => hb i (by omega) (by omega)⟩

/-- The truth function of a connective. -/
def truthOf : Connective → Bool → Bool → Bool
  | .seriesAnd, b, b' | .and, b, b' => b && b'
  | .seriesOr, b, b' | .or, b, b' => b || b'

theorem yields_join (c : Connective) (hl : l.YieldsTruth t series first h)
    (hr : r.YieldsTruth t series' first' h')
    (hc : c = .and ∨ c = .or → series = false ∧ series' = false) :
    (join c l r).YieldsTruth t (series || series') (max first first') fun i =>
      truthOf c (h i) (h' i) := by
  obtain ⟨b, hl, hb⟩ := hl
  obtain ⟨b', hr, hb'⟩ := hr
  refine ⟨fun i => truthOf c (b i) (b' i), ?_, fun i hi => ?_⟩
  · cases c with
    | seriesAnd =>
      obtain ⟨v, hv, hd⟩ := hl
      obtain ⟨w, hw, hd'⟩ := hr
      obtain ⟨u, hu, hy⟩ := truths_denotes (· && ·) hd hd'
      exact ⟨u, (eval_binary .bitAnd nofun nofun hv hw).trans hu, hy⟩
    | seriesOr =>
      obtain ⟨v, hv, hd⟩ := hl
      obtain ⟨w, hw, hd'⟩ := hr
      obtain ⟨u, hu, hy⟩ := truths_denotes (· || ·) hd hd'
      exact ⟨u, (eval_binary .bitOr nofun nofun hv hw).trans hu, hy⟩
    | and =>
      obtain ⟨rfl, rfl⟩ := hc (.inl rfl)
      refine yields_of_single fun i => ?_
      rw [script, Connective.binary, eval, hl.single i, hr.single i]
      dsimp only
      cases b i <;> rfl
    | or =>
      obtain ⟨rfl, rfl⟩ := hc (.inr rfl)
      refine yields_of_single fun i => ?_
      rw [script, Connective.binary, eval, hl.single i, hr.single i]
      dsimp only
      cases b i <;> rfl
  · dsimp only
    rw [hb i (by omega), hb' i (by omega)]

theorem yields_invert (he : e.YieldsTruth t true first h) :
    (invert e).YieldsTruth t true first fun i => !h i := by
  obtain ⟨b, ⟨v, hv, hd⟩, hb⟩ := he
  obtain ⟨u, hu, hy⟩ := invert_denotes t hd
  refine ⟨fun i => !b i, ⟨u, ?_, hy⟩, fun i hi => congrArg _ (hb i hi)⟩
  rw [script, eval, hv]
  exact hu

theorem yields_not (he : e.YieldsTruth t false first h) :
    (not e).YieldsTruth t false first fun i => !h i := by
  obtain ⟨b, he, hb⟩ := he
  refine ⟨fun i => !b i, yields_of_single fun i => ?_, fun i hi => congrArg _ (hb i hi)⟩
  rw [script, eval, he.single i]
  rfl

theorem yields_isIn {items : Code} {ds : List Datum} (he : e.Yields t true first f)
    (hi : eval t items.script = .ok (.list ds)) :
    (isIn e items).YieldsTruth t true first fun i => ds.any (f i).same := by
  obtain ⟨v, hv, hd⟩ := he
  cases hd
  refine ⟨fun i => isMember ds (cell first f i), ⟨_, ?_, rfl⟩, fun i hi => ?_⟩
  · rw [script, eval_method "isin" hv (.cons hi .nil)]
    simp [method, cells, cell_zero, Function.comp_def]
  · dsimp only
    rw [cell_of_le hi]
    rfl

theorem yields_member (negated : Bool) {items : Code} {ds : List Datum}
    (he : e.Yields t false first f) (hi : eval t items.script = .ok (.list ds)) :
    (member negated e items).YieldsTruth t false first fun i => ds.any (f i).same != negated := by
  refine ⟨_, yields_of_single fun i => ?_, fun i _ => rfl⟩
  rw [script, eval_binary (.member negated) nofun nofun (he.single i) hi]
  rfl

theorem yields_broadcast (he : e.YieldsTruth t false first h) :
    (broadcast e).YieldsTruth t true first h := by
  obtain ⟨b, ⟨v, hv, hd⟩, hb⟩ := he
  refine ⟨b, ⟨_, ?_, rfl⟩, hb⟩
  rw [script, eval, evalAll, hv]
  exact spread_single t hd

theorem yields_choose {c d : Code} {s₁ s₂ s₃ : Bool} {n₁ n₂ n₃ : Nat} {h₁ h₂ h₃ : Nat → Bool}
    (hc : c.YieldsTruth t s₁ n₁ h₁) (hd : d.YieldsTruth t s₂ n₂ h₂) (he : e.YieldsTruth t s₃ n₃ h₃)
    (hs : (s₁ || s₂ || s₃) = true) :
    (broadcast (choose c d e)).YieldsTruth t true (max n₁ (max n₂ n₃)) fun i =>
      if h₁ i then h₂ i else h₃ i := by
  obtain ⟨b₁, ⟨v₁, hv₁, hd₁⟩, hb₁⟩ := hc
  obtain ⟨b₂, ⟨v₂, hv₂, hd₂⟩, hb₂⟩ := hd
  obtain ⟨b₃, ⟨v₃, hv₃, hd₃⟩, hb₃⟩ := he
  refine ⟨fun i => if b₁ i then b₂ i else b₃ i, ⟨_, ?_, rfl⟩, fun i hi => ?_⟩
  · rw [script, eval, evalAll, script, eval_np "where" (.cons hv₁ (.cons hv₂ (.cons hv₃ .nil)))]
    have hw : arrayFunction t "where" [v₁, v₂, v₃] = _ := select_eq t hd₁ hd₂ hd₃ hs
    rw [hw]
    rfl
  · dsimp only
    rw [hb₁ i (by omega), hb₂ i (by omega), hb₃ i (by omega)]

theorem yields_ifElse {c d : Code} {n₁ n₂ n₃ : Nat} {h₁ h₂ h₃ : Nat → Bool}
    (hc : c.YieldsTruth t false n₁ h₁) (hd : d.YieldsTruth t false n₂ h₂)
    (he : e.YieldsTruth t false n₃ h₃) :
    (ifElse d c e).YieldsTruth t false (max n₁ (max n₂ n₃)) fun i =>
      if h₁ i then h₂ i else h₃ i := by
  obtain ⟨b₁, hc, hb₁⟩ := hc
  obtain ⟨b₂, hd, hb₂⟩ := hd
  obtain ⟨b₃, he, hb₃⟩ := he
  refine ⟨fun i => if b₁ i then b₂ i else b₃ i, yields_of_single fun i => ?_, fun i hi => ?_⟩
  · rw [script, eval, hc.single i]
    dsimp only
    cases b₁ i with
    | true => exact hd.single i
    | false => exact he.single i
  · dsimp only
    rw [hb₁ i (by omega), hb₂ i (by omega), hb₃ i (by omega)]

theorem yields_crossed (above : Bool) {f' : Nat → Datum} (hl : l.Yields t true first f)
    (hr : r.Yields t true first' f') (hn : ∀ i, (f i).number?.isSome ∧ (f' i).number?.isSome) :
    (crossed above l r).YieldsTruth t true (max first first' + 1) fun i =>
      (if above then Relation.gt else .lt).holds (f i) (f' i) &&
        (if above then Relation.lte else .gte).holds (f (i - 1)) (f' (i - 1)) := by
  obtain ⟨v, hv, hd⟩ := hl
  obtain ⟨w, hw, hd'⟩ := hr
  obtain ⟨u, b, hu, hy, hb⟩ := crossing_denotes t above hd hd' hn
  refine ⟨b, ⟨u, ?_, hy⟩, hb⟩
  rw [script, eval_qtpylib _ (.cons hv (.cons hw .nil))]
  cases above <;> exact hu

end

end Code

end Stratagem
