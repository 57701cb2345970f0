import Stratagem.Module.Render
import Stratagem.Proofs.Script.Evaluation
import Stratagem.Proofs.Script.Lexing

/-! Methods as lines of code. A line is blank, binds names, tests a condition or returns a value,
and a test has one deeper line behind it, which returns. A call runs the statements from the top. It
knows how many candles there are and what expressions come to, whatever they are; of its own it
reads numbers, the name `max_leverage`, the smaller of two values and the number of candles. -/

namespace Stratagem.Script

/-! ## Lines -/

inductive Line where
  | blank
  | assign (indent : Nat) (names value : String)
  | test (indent : Nat) (condition : String)
  | finish (indent : Nat) (value : String)

/-- Both sides of the first equals sign between blanks. -/
def equation? : List Char → Option (List Char × List Char)
  | [] => none
  | ' ' :: '=' :: ' ' :: rest => some ([], rest)
  | c :: rest => (equation? rest).map fun (names, value) => (c :: names, value)

/-- What a line does, the blanks before it left aside. Comments do nothing. -/
def Line.ofChars? (indent : Nat) : List Char → Option Line
  | [] | '#' :: _ => some .blank
  | 'i' :: 'f' :: ' ' :: rest =>
    if rest.getLast? = some ':' then some (.test indent (String.ofList rest.dropLast)) else none
  | 'r' :: 'e' :: 't' :: 'u' :: 'r' :: 'n' :: ' ' :: rest =>
    some (.finish indent (String.ofList rest))
  | cs => (equation? cs).map fun (names, value) =>
    .assign indent (String.ofList names) (String.ofList value)

def Line.ofText? (s : String) : Option Line :=
  ofChars? (s.toList.takeWhile (· == ' ')).length (s.toList.dropWhile (· == ' '))

/-! ## Statements -/

/-- The name of the most leverage that may be taken. -/
def maxLeverage : String := "max_leverage"

inductive Statement where
  | assign (names : String)
  | limit (value : Expr)
  | branch (condition value : Expr)
  | finish (value : Expr)

/-- What is bound to names; only that of `max_leverage` matters here. -/
def assignment? (names value : String) : Option Statement :=
  if names = maxLeverage then (read value).map .limit else some (.assign names)

/-- The statements at a level of indentation. -/
def statements? (level : Nat) : List Line → Option (List Statement)
  | [] => some []
  | .blank :: rest => statements? level rest
  | .assign indent names value :: rest =>
    if indent = level then do
      return (← assignment? names value) :: (← statements? level rest)
    else none
  | .test indent condition :: .finish deeper value :: rest =>
    if indent = level ∧ level < deeper then do
      return .branch (← read condition) (← read value) :: (← statements? level rest)
    else none
  | .finish indent value :: rest =>
    if indent = level then do return .finish (← read value) :: (← statements? level rest)
    else none
  | .test .. :: _ => none

/-- The lines behind a signature, which ends in a colon. -/
def body (lines : List String) : List String :=
  (lines.dropWhile fun s => s.toList.getLast? != some ':').tail

/-- A method of a class has its body at the second level. -/
def bodyIndent : Nat := 8

def program? (lines : List String) : Option (List Statement) :=
  ((body lines).mapM Line.ofText?).bind (statements? bodyIndent)

/-! ## Calls -/

/-- One call of a method: the number of candles, and what expressions come to when `max_leverage`
has some value. -/
structure Call where
  candles : Nat
  truth : ℚ → Expr → Bool
  worth : ℚ → Expr → ℚ

namespace Call

/-- Literals and `max_leverage` are what they say. -/
def operand (q : Call) (limit : ℚ) : Expr → ℚ
  | .float x => x.toRat
  | .unary .negative (.float x) => -x.toRat
  | .name s => if s = maxLeverage then limit else q.worth limit (.name s)
  | e => q.worth limit e

def amount (q : Call) (limit : ℚ) : Expr → ℚ
  | .call (.name "min") (.cons none x (.cons none y .nil)) =>
    min (q.operand limit x) (q.operand limit y)
  | e => q.operand limit e

def holds (q : Call) (limit : ℚ) : Expr → Bool
  | .binary (.relation .lt) (.call (.name "len") (.cons none (.name "dataframe") .nil))
      (.integer n) => q.candles < n
  | e => q.truth limit e

/-- The value that is returned, if any is. -/
def run (q : Call) (limit : ℚ) : List Statement → Option ℚ
  | [] => none
  | .assign _ :: rest => q.run limit rest
  | .limit value :: rest => q.run (q.amount limit value) rest
  | .branch condition value :: rest =>
    if q.holds limit condition then some (q.amount limit value) else q.run limit rest
  | .finish value :: _ => some (q.amount limit value)

/-- What the lines of a method return, given the most leverage that may be taken. -/
def returns (q : Call) (most : ℚ) (lines : List String) : Option ℚ :=
  (program? lines).bind (q.run most)

end Call

end Stratagem.Script
