import Stratagem.Expression.Basic

/-!
Expressions of the generated language. A column is a series over the candles of the table; the
leverage callback reads single candles instead. Grouping is explicit: nothing but `paren` writes
parentheses around an operator.
-/

namespace Stratagem

/-- The parts of a point in time. -/
inductive TimePart where
  | hour | minute | dayOfWeek | dayOfMonth | month
  deriving DecidableEq, Repr

inductive Arith where
  | add | sub | mul | div
  deriving DecidableEq, Repr

/-- Functions that act on each element. -/
inductive Pointwise where
  | abs | round | floor | ceil
  deriving DecidableEq, Repr

inductive Extremum where
  | min | max
  deriving DecidableEq, Repr

inductive Relation where
  | eq | neq | gt | gte | lt | lte
  deriving DecidableEq, Repr

/-- Connectives of series, and of single truth values. -/
inductive Connective where
  | seriesAnd | seriesOr | and | or
  deriving DecidableEq, Repr

inductive Code where
  | literal (value : Constant)
  | variable (name : String)
  | column (name : String)
  | shifted (e : Code) (candles : Nat)
  | candle (column : String) (ago : Nat)
  | seriesZone (e : Code) (zone : String)
  | seriesPart (e : Code) (part : TimePart)
  | momentZone (e : Code) (zone : String)
  | momentPart (e : Code) (part : TimePart)
  | paren (e : Code)
  | arith (op : Arith) (left right : Code)
  | negative (e : Code)
  | pointwise (f : Pointwise) (e : Code)
  | pairwise (f : Extremum) (left right : Code)
  | also (left right : Code)
  | extremum (f : Extremum) (arguments : Code)
  | compare (r : Relation) (left right : Code)
  | join (c : Connective) (left right : Code)
  | invert (e : Code)
  | not (e : Code)
  | isIn (e items : Code)
  | member (negated : Bool) (e items : Code)
  | choose (condition then_ else_ : Code)
  | broadcast (e : Code)
  | crossed (above : Bool) (left right : Code)
  | ifElse (then_ condition else_ : Code)
  deriving DecidableEq

/-! ## Spelling -/

def Arith.symbol : Arith → String
  | .add => "+"
  | .sub => "-"
  | .mul => "*"
  | .div => "/"

def Pointwise.name : Pointwise → String
  | .abs => "abs"
  | .round => "round"
  | .floor => "floor"
  | .ceil => "ceil"

def Extremum.name : Extremum → String
  | .min => "min"
  | .max => "max"

def Relation.symbol : Relation → String
  | .eq => "=="
  | .neq => "!="
  | .gt => ">"
  | .gte => ">="
  | .lt => "<"
  | .lte => "<="

def Connective.symbol : Connective → String
  | .seriesAnd => "&"
  | .seriesOr => "|"
  | .and => "and"
  | .or => "or"

/-- The part of each element of a series of times. -/
def TimePart.ofSeries : TimePart → String
  | .hour => ".dt.hour"
  | .minute => ".dt.minute"
  | .dayOfWeek => ".dt.dayofweek"
  | .dayOfMonth => ".dt.day"
  | .month => ".dt.month"

/-- The part of one point in time. -/
def TimePart.ofMoment : TimePart → String
  | .hour => ".hour"
  | .minute => ".minute"
  | .dayOfWeek => ".weekday()"
  | .dayOfMonth => ".day"
  | .month => ".month"

namespace Code

def infixed (left symbol right : String) : String := left ++ " " ++ symbol ++ " " ++ right

def subscript (table column : String) : String := table ++ "[" ++ Text.quoted column ++ "]"

/-- One candle of a column: the last one, the one before, or one further back. -/
def candleText (column : String) : Nat → String
  | 0 => subscript "last_candle" column
  | 1 => subscript "prev_candle" column
  | ago => subscript "dataframe" column ++ ".iat[-" ++ natText (ago + 1) ++ "]"

def render : Code → String
  | .literal value => value.toValue.written
  | .variable name => name
  | .column name => subscript "dataframe" name
  | .shifted e candles => e.render ++ ".shift(" ++ natText candles ++ ")"
  | .candle name ago => candleText name ago
  | .seriesZone e zone => e.render ++ ".dt.tz_convert(" ++ Text.quoted zone ++ ")"
  | .seriesPart e part => e.render ++ part.ofSeries
  | .momentZone e zone => e.render ++ ".astimezone(ZoneInfo(" ++ Text.quoted zone ++ "))"
  | .momentPart e part => e.render ++ part.ofMoment
  | .paren e => "(" ++ e.render ++ ")"
  | .arith op left right => infixed left.render op.symbol right.render
  | .negative e => "-" ++ e.render
  | .pointwise f e => "np." ++ f.name ++ "(" ++ e.render ++ ")"
  | .pairwise f left right =>
    "np." ++ f.name ++ "imum(" ++ left.render ++ ", " ++ right.render ++ ")"
  | .also left right => left.render ++ ", " ++ right.render
  | .extremum f arguments => f.name ++ "(" ++ arguments.render ++ ")"
  | .compare r left right => infixed left.render r.symbol right.render
  | .join c left right => infixed left.render c.symbol right.render
  | .invert e => "~" ++ e.render
  | .not e => "not " ++ e.render
  | .isIn e items => e.render ++ ".isin(" ++ items.render ++ ")"
  | .member negated e items =>
    infixed e.render (if negated then "not in" else "in") items.render
  | .choose condition then_ else_ =>
    "np.where(" ++ condition.render ++ ", " ++ then_.render ++ ", " ++ else_.render ++ ")"
  | .broadcast e => "pd.Series(" ++ e.render ++ ", index=dataframe.index)"
  | .crossed above left right =>
    "qtpylib.crossed_" ++ (if above then "above" else "below") ++ "(" ++ left.render ++ ", " ++
      right.render ++ ")"
  | .ifElse then_ condition else_ =>
    then_.render ++ " if " ++ condition.render ++ " else " ++ else_.render

def truth (b : Bool) : Code := .literal (.scalar (.bool b))

def number (n : Nat) : Code := .literal (.scalar (.int n))

def float (x : Binary64) : Code := .literal (.scalar (.float x))

/-- Combine terms from the left; of no terms there is nothing. -/
def chain (combine : Code → Code → Code) : List Code → Code
  | [] => .literal (.scalar .null)
  | e :: rest => rest.foldl combine e

end Code

end Stratagem
