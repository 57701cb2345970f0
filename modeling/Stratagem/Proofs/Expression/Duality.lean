import Stratagem.Proofs.Expression.Meaning
import Stratagem.Proofs.Expression.Mirroring

/-! Mirroring as the dual of an order. A valuation gives every operand a number, now and one candle
earlier. Turning all numbers round turns every ordering and every crossing round, so a mirrored
condition says of the negated numbers what the condition says of the numbers themselves. -/

namespace Stratagem

/-! ## Meaning under a valuation -/

/-- A number for each operand, at a candle and at the one before. -/
structure Valuation where
  now : Operand → ℚ
  before : Operand → ℚ

instance : Neg Valuation where
  neg v := ⟨fun o => -v.now o, fun o => -v.before o⟩

@[simp] theorem Valuation.neg_now (v : Valuation) (o : Operand) : (-v).now o = -v.now o := rfl

@[simp] theorem Valuation.neg_before (v : Valuation) (o : Operand) :
    (-v).before o = -v.before o := rfl

/-- What the operands amount to at a candle of a table. -/
def Valuation.ofTable (t : Table) (b : Binding) (i : Nat) : Valuation where
  now o := o.amount t b i
  before o := o.amount t b (i - 1)

section

variable (v : Valuation)

mutual

/-- Whether a condition holds when its operands have these numbers. -/
def Condition.holdsUnder : Condition → Bool
  | .all _ children => Condition.allHoldUnder children
  | .any _ children => Condition.anyHoldsUnder children
  | .not _ child => !child.holdsUnder
  | .ifThen _ c d => if c.holdsUnder then d.holdsUnder else false
  | .ifThenElse _ c d e => if c.holdsUnder then d.holdsUnder else e.holdsUnder
  | .compare _ left op right => op.holds (.number (v.now left)) (.number (v.now right)) right.items
  | .crossover _ x y => v.before x ≤ v.before y ∧ v.now x > v.now y
  | .crossunder _ x y => v.before x ≥ v.before y ∧ v.now x < v.now y
  | .inRange _ x low high true => v.now low ≤ v.now x ∧ v.now x ≤ v.now high
  | .inRange _ x low high false => v.now low < v.now x ∧ v.now x < v.now high

def Condition.allHoldUnder : List Condition → Bool
  | [] => true
  | c :: rest => c.holdsUnder && Condition.allHoldUnder rest

def Condition.anyHoldsUnder : List Condition → Bool
  | [] => false
  | c :: rest => c.holdsUnder || Condition.anyHoldsUnder rest

end

theorem Condition.allHoldUnder_eq (cs : List Condition) :
    Condition.allHoldUnder v cs = (cs.map (Condition.holdsUnder v)).all id := by
  induction cs with
  | nil => rfl
  | cons c rest ih => rw [Condition.allHoldUnder, ih, List.map_cons, List.all_cons, id]

theorem Condition.anyHoldsUnder_eq (cs : List Condition) :
    Condition.anyHoldsUnder v cs = (cs.map (Condition.holdsUnder v)).any id := by
  induction cs with
  | nil => rfl
  | cons c rest ih => rw [Condition.anyHoldsUnder, ih, List.map_cons, List.any_cons, id]

end

/-! ## The dual -/

/-- Membership and ranges are no orderings between two operands. -/
def Condition.Orders (c : Condition) : Prop :=
  c.kind ≠ .inRange ∧ c.operator? ≠ some .in_ ∧ c.operator? ≠ some .notIn

theorem Datum.same_number (x y : ℚ) : (Datum.number x).same (.number y) = decide (x = y) := by
  have hiff : (Datum.number x == Datum.number y) = true ↔ x = y := by simp
  exact Bool.eq_iff_iff.mpr (hiff.trans (decide_eq_true_iff).symm)

theorem Datum.amount_number (x : ℚ) : (Datum.number x).amount = x := rfl

/-- An operator asks of two numbers what its opposite asks of their negations. -/
theorem Comparison.holds_inverse_neg {op : Comparison} (hin : op ≠ .in_) (hnot : op ≠ .notIn)
    (x y : ℚ) (items : List Datum) :
    op.inverse.holds (.number (-x)) (.number (-y)) items =
      op.holds (.number x) (.number y) items := by
  cases op with
  | in_ => exact absurd rfl hin
  | notIn => exact absurd rfl hnot
  | eq | neq => simp [Comparison.inverse, Comparison.holds, Datum.same_number]
  | gt | lt => exact decide_eq_decide.mpr neg_lt_neg_iff
  | gte | lte => exact decide_eq_decide.mpr neg_le_neg_iff

theorem Condition.holdsUnder_mirror (v : Valuation) {c : Condition}
    (h : ∀ d ∈ c.conditions, d.Orders) : (c.mirror {}).holdsUnder (-v) = c.holdsUnder v := by
  induction c using Condition.partsInduction with
  | step c ih =>
    rw [Condition.conditions_eq] at h
    obtain ⟨⟨hrange, hin, hnot⟩, hbelow⟩ := List.forall_mem_cons.mp h
    have hparts : ∀ d ∈ c.parts, (d.mirror {}).holdsUnder (-v) = d.holdsUnder v := fun d hd =>
      ih d hd fun e he => hbelow e (List.mem_flatMap.mpr ⟨d, hd, he⟩)
    rw [Condition.mirror_eq]
    cases c with
    | all mark children =>
      simp only [rebuild, parts, holdsUnder, allHoldUnder_eq, List.map_map]
      exact congrArg (List.all · id) (List.map_congr_left hparts)
    | any mark children =>
      simp only [rebuild, parts, holdsUnder, anyHoldsUnder_eq, List.map_map]
      exact congrArg (List.any · id) (List.map_congr_left hparts)
    | not mark child =>
      simp [parts, rebuild, holdsUnder, hparts child (by simp [parts])]
    | ifThen mark c d =>
      simp [parts, rebuild, holdsUnder, hparts c (by simp [parts]), hparts d (by simp [parts])]
    | ifThenElse mark c d e =>
      simp [parts, rebuild, holdsUnder, hparts c (by simp [parts]), hparts d (by simp [parts]),
        hparts e (by simp [parts])]
    | compare mark left op right =>
      exact Comparison.holds_inverse_neg (by simpa [operator?] using hin)
        (by simpa [operator?] using hnot) _ _ _
    | crossover mark x y =>
      show (crossunder mark x y).holdsUnder (-v) = _
      simp only [holdsUnder, Valuation.neg_now, Valuation.neg_before, neg_le_neg_iff,
        neg_lt_neg_iff, ge_iff_le, gt_iff_lt]
    | crossunder mark x y =>
      show (crossover mark x y).holdsUnder (-v) = _
      simp only [holdsUnder, Valuation.neg_now, Valuation.neg_before, neg_le_neg_iff,
        neg_lt_neg_iff, ge_iff_le, gt_iff_lt]
    | inRange => exact absurd rfl hrange

theorem Condition.allHold_eq_all (t : Table) (b : Binding) (cs : List Condition) (i : Nat) :
    Condition.allHold t b cs i = (cs.map (Condition.holds t b · i)).all id := by
  induction cs with
  | nil => rfl
  | cons c rest ih => rw [Condition.allHold, ih, List.map_cons, List.all_cons, id]

theorem Condition.anyHolds_eq_any (t : Table) (b : Binding) (cs : List Condition) (i : Nat) :
    Condition.anyHolds t b cs i = (cs.map (Condition.holds t b · i)).any id := by
  induction cs with
  | nil => rfl
  | cons c rest ih => rw [Condition.anyHolds, ih, List.map_cons, List.any_cons, id]

/-- The meaning at a candle of a table is that under what the operands amount to there. -/
theorem Condition.holds_eq_holdsUnder {t : Table} {b : Binding} {i : Nat} {c : Condition}
    (h : ∀ d ∈ c.conditions, ∀ o ∈ d.operands, ∃ q, o.datum t b i = .number q) :
    c.holds t b i = c.holdsUnder (.ofTable t b i) := by
  induction c using Condition.partsInduction with
  | step c ih =>
    rw [Condition.conditions_eq] at h
    obtain ⟨hown, hbelow⟩ := List.forall_mem_cons.mp h
    have hparts : ∀ d ∈ c.parts, d.holds t b i = d.holdsUnder (.ofTable t b i) := fun d hd =>
      ih d hd fun e he => hbelow e (List.mem_flatMap.mpr ⟨d, hd, he⟩)
    have hnumber : ∀ o ∈ c.operands, o.datum t b i = .number (o.amount t b i) := by
      intro o ho
      obtain ⟨q, hq⟩ := hown o ho
      rw [Operand.amount, hq, Datum.amount_number]
    cases c with
    | all mark children =>
      rw [Condition.holds, holdsUnder, allHold_eq_all, allHoldUnder_eq]
      exact congrArg (List.all · id) (List.map_congr_left hparts)
    | any mark children =>
      rw [Condition.holds, holdsUnder, anyHolds_eq_any, anyHoldsUnder_eq]
      exact congrArg (List.any · id) (List.map_congr_left hparts)
    | not mark child => simp [Condition.holds, holdsUnder, hparts child (by simp [parts])]
    | ifThen mark c d =>
      simp [Condition.holds, holdsUnder, hparts c (by simp [parts]), hparts d (by simp [parts])]
    | ifThenElse mark c d e =>
      simp [Condition.holds, holdsUnder, hparts c (by simp [parts]), hparts d (by simp [parts]),
        hparts e (by simp [parts])]
    | compare mark left op right =>
      rw [Condition.holds, hnumber left (by simp [operands]), hnumber right (by simp [operands])]
      rfl
    | crossover mark x y | crossunder mark x y => rfl
    | inRange mark x low high inclusive => cases inclusive <;> rfl

/-- A condition without ranges and membership tests holds under a valuation exactly when its mirror
holds under the negated one; where the operands are numbers, what it means at a candle is its
meaning under what they amount to there. -/
theorem Condition.mirror_order_dual {c : Condition} (h : ∀ d ∈ c.conditions, d.Orders) :
    (∀ v : Valuation, (c.mirror {}).holdsUnder (-v) = c.holdsUnder v) ∧
    ∀ (t : Table) (b : Binding) (i : Nat),
      (∀ d ∈ c.conditions, ∀ o ∈ d.operands, ∃ q, o.datum t b i = .number q) →
      c.holds t b i = c.holdsUnder (.ofTable t b i) :=
  ⟨fun v => Condition.holdsUnder_mirror v h, fun _ _ _ => Condition.holds_eq_holdsUnder⟩

-- A range is not turned round: two lies between one and three, but minus two is not between minus
-- one and minus three.
example :
    let number : Operand → ℚ
      | .price .. => 2
      | .constant (.scalar (.int n)) => n
      | _ => 0
    let v : Valuation := ⟨number, number⟩
    let c : Condition := .inRange ⟨none, none⟩ (.price .close 0) (.constant (.scalar (.int 1)))
      (.constant (.scalar (.int 3))) true
    c.holdsUnder v = true ∧ (c.mirror {}).holdsUnder (-v) = false := by decide +kernel

/-- The close crosses the open if it is not below the open before, and else it differs from that. -/
def turning : Condition :=
  .ifThenElse ⟨none, none⟩ (.compare ⟨none, none⟩ (.price .close 0) .gte (.price .open_ 1))
    (.crossover ⟨none, none⟩ (.price .close 0) (.price .open_ 0))
    (.not ⟨none, none⟩ (.compare ⟨none, none⟩ (.price .close 0) .eq (.price .open_ 1)))

theorem conditions_turning : turning.conditions =
    [turning, .compare ⟨none, none⟩ (.price .close 0) .gte (.price .open_ 1),
      .crossover ⟨none, none⟩ (.price .close 0) (.price .open_ 0),
      .not ⟨none, none⟩ (.compare ⟨none, none⟩ (.price .close 0) .eq (.price .open_ 1)),
      .compare ⟨none, none⟩ (.price .close 0) .eq (.price .open_ 1)] := rfl

theorem turning_order_dual : (∀ d ∈ turning.conditions, d.Orders) ∧
    (∀ v : Valuation, (turning.mirror {}).holdsUnder (-v) = turning.holdsUnder v) ∧
    ∀ (t : Table) (b : Binding) (i : Nat),
      turning.holds t b i = turning.holdsUnder (.ofTable t b i) := by
  have horders : ∀ d ∈ turning.conditions, d.Orders := by
    rw [conditions_turning]
    simp [turning, Condition.Orders, Condition.kind, Condition.operator?]
  have hnumbers : ∀ t b i, ∀ d ∈ turning.conditions, ∀ o ∈ d.operands,
      ∃ q, o.datum t b i = .number q := by
    rw [conditions_turning]
    simp [turning, Condition.operands, Operand.datum]
  obtain ⟨hdual, htable⟩ := Condition.mirror_order_dual horders
  exact ⟨horders, hdual, fun t b i => htable t b i (hnumbers t b i)⟩

end Stratagem
