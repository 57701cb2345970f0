import Mathlib.Data.Rat.Floor
import Stratagem.Proofs.Script.Grammar

/-! Values of generated expressions over a table of candles. Numbers are exact. A series has one
cell for each candle, which may be missing; operators and the functions of the libraries act on
each cell, with single values on every one. A truth value counts as a number beside a number and
where all values are single; two of them in series are combined as truth values. What is not defined
here is a fault, in particular: `not`, `and`, `or`, a choice or `in` on a series, `~` or `isin` on a
single value, and arithmetic on anything but numbers and truth values. -/

namespace Stratagem

/-- Candles, from the earliest on: numbers in named columns, and parts of the time of each in some
zone. -/
structure Table where
  rows : Nat
  column : String → Nat → ℚ
  clock : Option String → TimePart → Nat → Int

inductive Datum where
  | number (q : ℚ)
  | truth (b : Bool)
  | text (s : String)
  | null
  deriving DecidableEq

/-- Truth values count as the numbers one and zero. -/
def Datum.plain : Datum → Datum
  | .truth b => .number (if b then 1 else 0)
  | d => d

def Datum.number? (d : Datum) : Option ℚ :=
  match d.plain with
  | .number q => some q
  | _ => none

def Datum.amount (d : Datum) : ℚ := d.number?.getD 0

def Datum.same (a b : Datum) : Bool := a.plain == b.plain

/-! ## Operations on numbers -/

def Arith.apply : Arith → ℚ → ℚ → ℚ
  | .add, a, b => a + b
  | .sub, a, b => a - b
  | .mul, a, b => a * b
  | .div, a, b => a / b

/-- The nearest integer; a half goes to the even neighbour. -/
def roundEven (q : ℚ) : ℤ :=
  let rest := q - ⌊q⌋
  if rest < 1 / 2 then ⌊q⌋
  else if 1 / 2 < rest then ⌊q⌋ + 1
  else if ⌊q⌋ % 2 = 0 then ⌊q⌋ else ⌊q⌋ + 1

def Pointwise.apply : Pointwise → ℚ → ℚ
  | .abs, q => |q|
  | .round, q => roundEven q
  | .floor, q => ⌊q⌋
  | .ceil, q => ⌈q⌉

def Extremum.apply : Extremum → ℚ → ℚ → ℚ
  | .min, a, b => Min.min a b
  | .max, a, b => Max.max a b

def Relation.isOrder : Relation → Bool
  | .eq | .neq => false
  | _ => true

/-- Relations of order are those of numbers. -/
def Relation.holds (r : Relation) (a b : Datum) : Bool :=
  match r with
  | .eq => a.same b
  | .neq => !a.same b
  | .gt => b.amount < a.amount
  | .gte => b.amount ≤ a.amount
  | .lt => a.amount < b.amount
  | .lte => a.amount ≤ b.amount

namespace Binary64

def toRat (x : Binary64) : ℚ := (x.units?.getD 0 : ℚ) / unit

end Binary64

namespace Script

/-- A missing value is none. -/
abbrev Cell := Option Datum

inductive Fault where
  | type | name | index | zeroDivisor
  deriving DecidableEq

inductive Value where
  | single (d : Datum)
  | series (cells : List Cell)
  | array (cells : List Cell)
  | list (items : List Datum)
  | times (zone : Option String)
  | timeParts (zone : Option String)
  | positions (cells : List Cell)
  | table
  | index
  | row (ago : Nat)

/-! ## Elementwise operations -/

def isNumeric (c : Cell) : Bool := c.all fun d => d.number?.isSome

def isTruth : Cell → Bool
  | some (.truth _) => true
  | _ => false

def isSeries : Value → Bool
  | .series _ => true
  | _ => false

def isTrue (c : Cell) : Bool := c == some (.truth true)

/-- One cell for each candle, if an operation takes each of them. -/
def operands (rows : Nat) (takes : Cell → Bool) : Value → Except Fault (List Cell)
  | .single d => if takes (some d) then .ok (List.replicate rows (some d)) else .error .type
  | .series cells => if cells.length = rows ∧ cells.all takes then .ok cells else .error .type
  | _ => .error .type

def single : Cell → Except Fault Value
  | some d => .ok (.single d)
  | none => .error .type

def lift (rows : Nat) (takes : Cell → Bool) (f : Cell → Except Fault Cell) (v : Value) :
    Except Fault Value := do
  let xs ← operands rows takes v
  match v with
  | .single a => single (← f (some a))
  | _ => return .series (← xs.mapM f)

def lift₂ (rows : Nat) (takes : Cell → Bool) (f : Cell → Cell → Except Fault Cell)
    (v w : Value) : Except Fault Value := do
  let xs ← operands rows takes v
  let ys ← operands rows takes w
  match v, w with
  | .single a, .single b => single (← f (some a) (some b))
  | _, _ => return .series (← (xs.zip ys).mapM fun (x, y) => f x y)

/-- Two truth values in series: either of them for a sum, both for a product. -/
def truthArith : Arith → Bool → Bool → Except Fault Cell
  | .add, a, b => .ok (some (.truth (a || b)))
  | .mul, a, b => .ok (some (.truth (a && b)))
  | _, _, _ => .error .type

def arithCell (series : Bool) (op : Arith) : Cell → Cell → Except Fault Cell
  | none, _ | _, none => .ok none
  | some x, some y =>
    match series, x, y with
    | true, .truth a, .truth b => truthArith op a b
    | _, x, y =>
      if op = .div ∧ y.amount = 0 then .error .zeroDivisor
      else .ok (some (.number (op.apply x.amount y.amount)))

def extremumCell (f : Extremum) : Cell → Cell → Except Fault Cell
  | none, _ | _, none => .ok none
  | some (.truth a), some (.truth b) =>
    .ok (some (.truth (match f with | .min => a && b | .max => a || b)))
  | some x, some y => .ok (some (.number (f.apply x.amount y.amount)))

/-- A function of a number, and one of a truth value in a series. -/
def pointCell (series : Bool) (f : ℚ → ℚ) (g : Bool → Bool) : Cell → Except Fault Cell
  | none => .ok none
  | some x =>
    match series, x with
    | true, .truth b => .ok (some (.truth (g b)))
    | _, x => .ok (some (.number (f x.amount)))

/-- A missing value differs from everything and is on no side of anything. -/
def relationCell (r : Relation) (x y : Cell) : Except Fault Cell :=
  .ok (some (.truth (match x, y with
    | some a, some b => r.holds a b
    | _, _ => r == .neq)))

def truthCell (f : Bool → Bool → Bool) (x y : Cell) : Except Fault Cell :=
  .ok (some (.truth (f (isTrue x) (isTrue y))))

def invertCell (x : Cell) : Except Fault Cell := .ok (some (.truth (!isTrue x)))

/-! ## Attributes, methods and functions -/

variable (t : Table)

def column (name : String) : Value :=
  if name = "date" then .times none
  else .series ((List.range t.rows).map fun i => some (.number (t.column name i)))

/-- A cell of the candle some rows before the last one. -/
def candle (name : String) (ago : Nat) : Except Fault Value :=
  if name = "date" then .error .type
  else if ago < t.rows then .ok (.single (.number (t.column name (t.rows - 1 - ago))))
  else .error .index

def time (zone : Option String) (part : TimePart) : Value :=
  .series ((List.range t.rows).map fun i => some (.number (t.clock zone part i)))

def named : String → Except Fault Value
  | "True" => .ok (.single (.truth true))
  | "False" => .ok (.single (.truth false))
  | "None" => .ok (.single .null)
  | "dataframe" => .ok .table
  | "last_candle" => .ok (.row 0)
  | "prev_candle" => .ok (.row 1)
  | _ => .error .name

def attributeOf : Value → String → Except Fault Value
  | .table, "index" => .ok .index
  | .series cells, "iat" => .ok (.positions cells)
  | .times zone, "dt" => .ok (.timeParts zone)
  | .timeParts zone, "hour" => .ok (time t zone .hour)
  | .timeParts zone, "minute" => .ok (time t zone .minute)
  | .timeParts zone, "dayofweek" => .ok (time t zone .dayOfWeek)
  | .timeParts zone, "day" => .ok (time t zone .dayOfMonth)
  | .timeParts zone, "month" => .ok (time t zone .month)
  | _, _ => .error .name

/-- The cell that a negative number counts from the end. -/
def fromEnd (cells : List Cell) (q : ℚ) : Except Fault Value :=
  if q.den = 1 ∧ q < 0 ∧ -q.num ≤ cells.length then
    single (cells.getD (cells.length - (-q.num).toNat) none)
  else .error .index

def subscript : Value → Value → Except Fault Value
  | .table, .single (.text name) => .ok (column t name)
  | .row ago, .single (.text name) => candle t name ago
  | .positions cells, .single (.number q) => fromEnd cells q
  | _, _ => .error .type

/-- The cells move down, and the first ones are missing. -/
def shift (n : Nat) (cells : List Cell) : List Cell :=
  (List.replicate n none ++ cells).take cells.length

def isMember (items : List Datum) (c : Cell) : Bool := c.any fun d => items.any d.same

def method : Value → String → List Value → Except Fault Value
  | .series cells, "shift", [.single (.number q)] =>
    if q.den = 1 ∧ 0 ≤ q then .ok (.series (shift q.num.toNat cells)) else .error .type
  | .series cells, "isin", [.list items] =>
    .ok (.series (cells.map fun c => some (.truth (isMember items c))))
  | .timeParts _, "tz_convert", [.single (.text zone)] => .ok (.times (some zone))
  | _, _, _ => .error .name

def positional (arguments : List (Option String × Value)) : Except Fault (List Value) :=
  arguments.mapM fun
    | (none, v) => .ok v
    | _ => .error .type

/-- One of two values for each candle, of which at least one part is a series. -/
def select (c v w : Value) : Except Fault Value := do
  let cs ← operands t.rows isTruth c
  let xs ← operands t.rows (fun _ => true) v
  let ys ← operands t.rows (fun _ => true) w
  if isSeries c || isSeries v || isSeries w then
    return .array ((cs.zip (xs.zip ys)).map fun (c, x, y) => if isTrue c then x else y)
  else .error .type

def relate (r : Relation) : Value → Value → Except Fault Value :=
  lift₂ t.rows (if r.isOrder then isNumeric else fun _ => true) (relationCell r)

/-- Whether the first series is now on the one side of the second and was not one candle ago. -/
def crossing (above : Bool) : Value → Value → Except Fault Value
  | .series xs, .series ys => do
    let now ← relate t (if above then .gt else .lt) (.series xs) (.series ys)
    let before ← relate t (if above then .lte else .gte) (.series (shift 1 xs))
      (.series (shift 1 ys))
    lift₂ t.rows isTruth (truthCell (· && ·)) now before
  | _, _ => .error .type

/-- One cell for each candle. -/
def spread : Value → Except Fault Value
  | .single d => .ok (.series (List.replicate t.rows (some d)))
  | .array cells => .ok (.series cells)
  | _ => .error .type

def pointwise (f : ℚ → ℚ) (g : Bool → Bool) (v : Value) : Except Fault Value :=
  lift t.rows isNumeric (pointCell (isSeries v) f g) v

def arrayFunction : String → List Value → Except Fault Value
  | "abs", [v] => pointwise t Pointwise.abs.apply id v
  | "round", [v] => pointwise t Pointwise.round.apply id v
  | "floor", [v] => pointwise t Pointwise.floor.apply id v
  | "ceil", [v] => pointwise t Pointwise.ceil.apply id v
  | "minimum", [v, w] => lift₂ t.rows isNumeric (extremumCell .min) v w
  | "maximum", [v, w] => lift₂ t.rows isNumeric (extremumCell .max) v w
  | "where", [c, v, w] => select t c v w
  | _, _ => .error .name

def crossingFunction : String → List Value → Except Fault Value
  | "crossed_above", [v, w] => crossing t true v w
  | "crossed_below", [v, w] => crossing t false v w
  | _, _ => .error .name

def amount : Value → Except Fault ℚ
  | .single d => match d.number? with
    | some q => .ok q
    | none => .error .type
  | _ => .error .type

/-- The extremum of two single numbers or more. -/
def extremum (f : Extremum) (vs : List Value) : Except Fault Value := do
  match ← vs.mapM amount with
  | q :: q' :: rest => return .single (.number (rest.foldl f.apply (f.apply q q')))
  | _ => .error .type

def builtin : String → List Value → Except Fault Value
  | "min", vs => extremum .min vs
  | "max", vs => extremum .max vs
  | _, _ => .error .name

/-- Call a function by its name and the library that it is in. -/
def library : String → String → List (Option String × Value) → Option (Except Fault Value)
  | "np", f, arguments => some (positional arguments >>= arrayFunction t f)
  | "qtpylib", f, arguments => some (positional arguments >>= crossingFunction t f)
  | "pd", f, arguments => some (match f, arguments with
    | "Series", [(none, v), (some "index", .index)] => spread t v
    | _, _ => .error .name)
  | _, _, _ => none

/-! ## Expressions -/

def invert : Value → Except Fault Value
  | .series cells => lift t.rows isTruth invertCell (.series cells)
  | _ => .error .type

def truth : Value → Except Fault Bool
  | .single (.truth b) => .ok b
  | _ => .error .type

def unary : Unary → Value → Except Fault Value
  | .negative, v => pointwise t (fun q => -q) (! ·) v
  | .invert, v => invert t v
  | .not, v => return .single (.truth (!(← truth v)))

/-- Operators that take the values of both sides. -/
def binary : Binary → Value → Value → Except Fault Value
  | .relation r, v, w => relate t r v w
  | .member negated, .single d, .list items =>
    .ok (.single (.truth (isMember items (some d) != negated)))
  | .bitOr, v, w => lift₂ t.rows isTruth (truthCell (· || ·)) v w
  | .bitAnd, v, w => lift₂ t.rows isTruth (truthCell (· && ·)) v w
  | .arith op, v, w => lift₂ t.rows isNumeric (arithCell (isSeries v || isSeries w) op) v w
  | _, _, _ => .error .type

def datum : Value → Except Fault Datum
  | .single d => .ok d
  | _ => .error .type

mutual

@[simp] def eval : Expr → Except Fault Value
  | .name s => named s
  | .integer n => .ok (.single (.number n))
  | .float x => .ok (.single (.number x.toRat))
  | .text s => .ok (.single (.text s))
  | .list arguments => do return .list (← (← positional (← evalAll arguments)).mapM datum)
  | .attribute e name => do attributeOf t (← eval e) name
  | .subscript e index => do subscript t (← eval e) (← eval index)
  | .call (.name f) arguments => do builtin f (← positional (← evalAll arguments))
  | .call (.attribute (.name o) f) arguments => do
    let vs ← evalAll arguments
    match library t o f vs with
    | some result => result
    | none => method (← named o) f (← positional vs)
  | .call (.attribute o f) arguments => do
    method (← eval o) f (← positional (← evalAll arguments))
  | .call _ _ => .error .type
  | .unary op e => do unary t op (← eval e)
  | .binary .and left right => do
    if ← truth (← eval left) then return .single (.truth (← truth (← eval right)))
    else return .single (.truth false)
  | .binary .or left right => do
    if ← truth (← eval left) then return .single (.truth true)
    else return .single (.truth (← truth (← eval right)))
  | .binary op left right => do binary t op (← eval left) (← eval right)
  | .choice then_ condition else_ => do
    if ← truth (← eval condition) then eval then_ else eval else_

@[simp] def evalAll : ArgList → Except Fault (List (Option String × Value))
  | .nil => .ok []
  | .cons keyword e rest => do return (keyword, ← eval e) :: (← evalAll rest)

end

end Script

end Stratagem
