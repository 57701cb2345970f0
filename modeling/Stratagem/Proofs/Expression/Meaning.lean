import Mathlib.Algebra.BigOperators.Group.List.Basic
import Stratagem.Proofs.Emission.Typing
import Stratagem.Proofs.Script.Evaluation

/-! What expression trees mean at a candle of a table, by recursion on the tree and without regard
to code. An offset reads so many candles back, and a crossing looks one candle back as well;
`reach` is how many earlier candles a tree needs for that. -/

namespace Stratagem

/-! ## Operands -/

def Scalar.datum : Scalar → Datum
  | .null => .null
  | .bool b => .truth b
  | .int n => .number n
  | .float x => .number x.toRat
  | .text s => .text s

def PriceField.value (t : Table) (i : Nat) : PriceField → ℚ
  | .open_ => t.column "open" i
  | .high => t.column "high" i
  | .low => t.column "low" i
  | .close => t.column "close" i
  | .volume => t.column "volume" i
  | .hl2 => (t.column "high" i + t.column "low" i) / 2
  | .hlc3 => (t.column "high" i + t.column "low" i + t.column "close" i) / 3
  | .ohlc4 =>
    (t.column "open" i + t.column "high" i + t.column "low" i + t.column "close" i) / 4

def TimeField.datum (t : Table) (zone : Option String) (i : Nat) : TimeField → Datum
  | .hour => .number (t.clock zone .hour i)
  | .minute => .number (t.clock zone .minute i)
  | .dayOfWeek => .number (t.clock zone .dayOfWeek i)
  | .dayOfMonth => .number (t.clock zone .dayOfMonth i)
  | .month => .number (t.clock zone .month i)
  | .isWeekend => .truth (5 ≤ t.clock zone .dayOfWeek i)

/-- The result of an operation on as many numbers as it takes. -/
def Operation.apply : Operation → List ℚ → ℚ
  | .add, qs | .sum, qs => qs.sum
  | .mul, qs => qs.prod
  | .sub, [a, b] => a - b
  | .div, [a, b] => a / b
  | .min, q :: qs => qs.foldl Min.min q
  | .max, q :: qs => qs.foldl Max.max q
  | .abs, [a] => |a|
  | .neg, [a] => -a
  | .round, [a] => roundEven a
  | .floor, [a] => ⌊a⌋
  | .ceil, [a] => ⌈a⌉
  | .percentChange, [a, b] => (a - b) / b * 100
  | .average, qs => qs.sum / qs.length
  | _, _ => 0

/-- The column of an indicator. -/
def Binding.columnOf (b : Binding) (id : String) (field : Option String) : String :=
  match b.column id field with
  | .ok name => name
  | .error _ => ""

section

variable (t : Table) (b : Binding)

mutual

/-- The value of an operand at a candle; a list has none, and there is nothing to read outside the
table. -/
def Operand.datum : Operand → Nat → Datum
  | .constant (.scalar s), _ => s.datum
  | .indicator id field offset, i => .number (t.column (b.columnOf id field) (i - offset))
  | .price field offset, i => .number (field.value t (i - offset))
  | .time field zone, i => field.datum t zone i
  | .computed operation operands, i => .number (operation.apply (Operand.amounts operands i))
  | _, _ => .null

def Operand.amounts : List Operand → Nat → List ℚ
  | [], _ => []
  | o :: rest, i => (o.datum i).amount :: Operand.amounts rest i

end

theorem Operand.amounts_eq_map (operands : List Operand) (i : Nat) :
    Operand.amounts t b operands i = operands.map fun o => (o.datum t b i).amount := by
  induction operands with
  | nil => rfl
  | cons o rest ih => rw [Operand.amounts, ih, List.map_cons]

/-- The value of a computed operand comes from those of its parts at the same candle. -/
theorem Operand.datum_computed (operation : Operation) (operands : List Operand) (i : Nat) :
    (Operand.computed operation operands).datum t b i =
      .number (operation.apply (operands.map fun o => (o.datum t b i).amount)) := by
  rw [Operand.datum, Operand.amounts_eq_map]

end

def Operand.items : Operand → List Datum
  | .constant (.list items) => items.map Scalar.datum
  | _ => []

mutual

def Operand.reach : Operand → Nat
  | .indicator _ _ offset | .price _ offset => offset
  | .computed _ operands => Operand.reaches operands
  | _ => 0

def Operand.reaches : List Operand → Nat
  | [] => 0
  | o :: rest => max o.reach (Operand.reaches rest)

end

/-! ## Conditions -/

def Comparison.holds (a b : Datum) (items : List Datum) : Comparison → Bool
  | .eq => a.same b
  | .neq => !a.same b
  | .gt => a.amount > b.amount
  | .gte => a.amount ≥ b.amount
  | .lt => a.amount < b.amount
  | .lte => a.amount ≤ b.amount
  | .in_ => items.any a.same
  | .notIn => !items.any a.same

section

variable (t : Table) (b : Binding)

/-- The number that an operand is at a candle. -/
def Operand.amount (o : Operand) (i : Nat) : ℚ := (o.datum t b i).amount

mutual

/-- Whether a condition holds at a candle. -/
def Condition.holds : Condition → Nat → Bool
  | .all _ children, i => Condition.allHold children i
  | .any _ children, i => Condition.anyHolds children i
  | .not _ child, i => !child.holds i
  | .ifThen _ c d, i => if c.holds i then d.holds i else false
  | .ifThenElse _ c d e, i => if c.holds i then d.holds i else e.holds i
  | .compare _ left op right, i => op.holds (left.datum t b i) (right.datum t b i) right.items
  | .crossover _ x y, i =>
    x.amount t b (i - 1) ≤ y.amount t b (i - 1) ∧ x.amount t b i > y.amount t b i
  | .crossunder _ x y, i =>
    x.amount t b (i - 1) ≥ y.amount t b (i - 1) ∧ x.amount t b i < y.amount t b i
  | .inRange _ x low high true, i =>
    low.amount t b i ≤ x.amount t b i ∧ x.amount t b i ≤ high.amount t b i
  | .inRange _ x low high false, i =>
    low.amount t b i < x.amount t b i ∧ x.amount t b i < high.amount t b i

def Condition.allHold : List Condition → Nat → Bool
  | [], _ => true
  | c :: rest, i => c.holds i && Condition.allHold rest i

def Condition.anyHolds : List Condition → Nat → Bool
  | [], _ => false
  | c :: rest, i => c.holds i || Condition.anyHolds rest i

end

end

mutual

def Condition.reach : Condition → Nat
  | .all _ children | .any _ children => Condition.reaches children
  | .not _ child => child.reach
  | .ifThen _ c d => max c.reach d.reach
  | .ifThenElse _ c d e => max c.reach (max d.reach e.reach)
  | .compare _ left _ right => max left.reach right.reach
  | .crossover _ x y | .crossunder _ x y => max x.reach y.reach + 1
  | .inRange _ x low high _ => max x.reach (max low.reach high.reach)

def Condition.reaches : List Condition → Nat
  | [] => 0
  | c :: rest => max c.reach (Condition.reaches rest)

end

/-- Of the first two values at least one is a number, if there are two. -/
def startsExact : List Bool → Bool
  | a :: b :: _ => a || b
  | _ => true

/-- Whether an operation gives its result on numbers and truth values in series, given which of its
operands are numbers. It does so on truth values alone if that is a product, an extremum or one
that leaves them as they are. -/
def Operation.counts : Operation → List Bool → Bool
  | .mul, _ | .min, _ | .max, _ | .abs, _ | .round, _ | .floor, _ | .ceil, _ => true
  | .neg, exact => exact == [true]
  | _, exact => startsExact exact

/-- Some leaf is not the truth value of a weekend. -/
def Operand.hasNumber : Operand → Bool :=
  Operand.anyLeaf fun
    | .time .isWeekend _ => false
    | _ => true

/-- No computed operand of the tree makes a number of truth values alone, where they are none. -/
def Node.Counts (root : Node) : Prop :=
  ∀ operation operands, .operand (.computed operation operands) ∈ root.preorder →
    operation.counts (operands.map Operand.hasNumber) = true

/-- No divisor of the tree is zero at a candle where its operands can be read. -/
def Node.NoZeroDivisor (t : Table) (b : Binding) (root : Node) : Prop :=
  ∀ operation x y, operation = .div ∨ operation = .percentChange →
    Node.operand (.computed operation [x, y]) ∈ root.preorder →
    ∀ i, (y.varies = true → i < t.rows) → y.reach ≤ i → y.amount t b i ≠ 0

theorem Node.NoZeroDivisor.of_mem_children {t : Table} {b : Binding} {n k : Node}
    (h : n.NoZeroDivisor t b) (hk : k ∈ n.children) : k.NoZeroDivisor t b :=
  fun operation x y ho hm => h operation x y ho ((Node.mem_preorder n).mpr (.inr ⟨k, hk, hm⟩))

theorem Node.Counts.of_mem_children {n k : Node} (h : n.Counts) (hk : k ∈ n.children) : k.Counts :=
  fun operation operands hm => h operation operands ((Node.mem_preorder n).mpr (.inr ⟨k, hk, hm⟩))

end Stratagem
