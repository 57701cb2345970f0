import Stratagem.Module.Scan
import Stratagem.Text.Blank

/-!
A check of generated text: it has to scan, and to hold one strategy class of the right name with
the methods every strategy needs.
-/

namespace Stratagem

inductive OutputProblem where
  | scan (fault : Scan.Fault)
  | colonExpected (line : Nat)
  | classCount (count : Nat)
  | className (found expected : String)
  | methodMissing (name : String)
  | importMissing
  deriving DecidableEq

def OutputProblem.message : OutputProblem → String
  | .scan (.unterminated line) =>
    s!"Syntax error at line {line}: unterminated string literal (detected at line {line})"
  | .scan (.tooManyBrackets line) => s!"Syntax error at line {line}: too many nested parentheses"
  | .colonExpected line => s!"Syntax error at line {line}: expected ':'"
  | .classCount count => s!"Expected one IStrategy subclass, found {count}"
  | .className found expected => s!"Strategy class is named {found}, expected {expected}"
  | .methodMissing name => s!"Missing {name} method"
  | .importMissing => "Missing required import: IStrategy"

namespace OutputCheck

def baseName : String := "IStrategy"

def importLine : String := "from freqtrade.strategy import IStrategy"

def requiredMethods : List String :=
  ["populate_indicators", "populate_entry_trend", "populate_exit_trend"]

def isNameChar (c : Char) : Bool := c.isAlphanum || c = '_' || 0x7f < c.toNat

/-- What follows a keyword. -/
def afterWord? (word : String) (text : List Char) : Option (List Char) :=
  if word.toList.isPrefixOf text then
    let rest := text.drop word.length
    match rest with
    | c :: _ => if Text.isBlank c then some (rest.dropWhile Text.isBlank) else none
    | [] => some []
  else none

/-- The head of a class: its name, and its bases as they are written. -/
structure ClassHead where
  name : String
  bases : List String

/-- The text up to the bracket that closes the one before it, and what follows. -/
def untilClosed (depth : Nat) : List Char → List Char × List Char
  | [] => ([], [])
  | c :: rest =>
    if Scan.isClosing c && depth = 0 then ([], rest)
    else
      let depth := if Scan.isOpening c then depth + 1
        else if Scan.isClosing c then depth - 1 else depth
      let (inside, after) := untilClosed depth rest
      (c :: inside, after)

def basesOf (inside : List Char) : List String :=
  (Text.splitWhere (· = ',') inside).map fun part =>
    String.ofList (Text.trimWhere Text.isBlank part)

/-- The head of a class, after the keyword; none if the colon is missing. -/
def classHead? (text : List Char) : Option ClassHead :=
  let name := String.ofList (text.takeWhile isNameChar)
  let rest := (text.dropWhile isNameChar).dropWhile Text.isBlank
  let (bases, rest) := match rest with
    | '(' :: inside =>
      let (inside, after) := untilClosed 0 inside
      (basesOf inside, after.dropWhile Text.isBlank)
    | rest => ([], rest)
  match rest with
  | ':' :: _ => some ⟨name, bases⟩
  | _ => none

/-- A class and the lines of its body. -/
structure ClassBlock where
  head : ClassHead
  body : List Scan.LogicalLine

/-- The classes at the outermost level, in order; the error is the line of a head that lacks its
colon. -/
def classes : List Scan.LogicalLine → Except Nat (List ClassBlock)
  | [] => .ok []
  | line :: rest =>
    match (if line.indent = 0 then afterWord? "class" line.text else none) with
    | none => classes rest
    | some text =>
      match classHead? text with
      | none => .error line.number
      | some head => do
        let body := rest.takeWhile fun l => l.indent ≠ 0
        return ⟨head, body⟩ :: (← classes rest)

/-- The methods in the body itself. -/
def ClassBlock.methods (b : ClassBlock) : List String :=
  match b.body with
  | [] => []
  | first :: _ => b.body.filterMap fun line =>
    if line.indent = first.indent then
      (afterWord? "def" line.text).map fun t => String.ofList (t.takeWhile isNameChar)
    else none

/-- A text occurs somewhere in another. -/
def occurs (word : List Char) : List Char → Bool
  | [] => word.isEmpty
  | c :: rest => word.isPrefixOf (c :: rest) || occurs word rest

/-- The problems of the one strategy class. -/
def blockProblems (code : String) (expected : Option String) (b : ClassBlock) :
    List OutputProblem :=
  let name := match expected with
    | some e => if b.head.name = e then [] else [.className b.head.name e]
    | none => []
  let missing := requiredMethods.filter (! b.methods.contains ·)
  let imported := occurs importLine.toList code.toList
  name ++ missing.map .methodMissing ++ (if imported then [] else [.importMissing])

/-- The problems of a generated text; one that does not scan has no others. -/
def problems (code : String) (expected : Option String) : List OutputProblem :=
  match Scan.logicalLines code with
  | .error fault => [.scan fault]
  | .ok lines =>
    match classes lines with
    | .error line => [.colonExpected line]
    | .ok blocks =>
      match blocks.filter (·.head.bases.contains baseName) with
      | [b] => blockProblems code expected b
      | found => [.classCount found.length]

end OutputCheck

end Stratagem
