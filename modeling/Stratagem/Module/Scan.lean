import Stratagem.Number.Layout

/-!
Logical lines of the generated language. A logical line goes on while a bracket is open; comments
are dropped and the insides of texts are blanked out, so brackets and words in them do not count.
-/

namespace Stratagem

namespace Scan

/-- The first thing wrong with a text, as far as brackets and texts go. -/
inductive Fault where
  | unterminated (line : Nat)
  | tooManyBrackets (line : Nat)
  deriving DecidableEq, Repr

/-- A logical line: where it starts, its indentation, and its text. -/
structure LogicalLine where
  number : Nat
  indent : Nat
  text : List Char
  deriving DecidableEq, Repr

inductive Mode where
  | code
  | comment
  | quoted (quote : Char)
  | tripleQuoted (quote : Char)
  deriving DecidableEq, Repr

structure State where
  mode : Mode := .code
  line : Nat := 1
  depth : Nat := 0
  start : Nat := 1
  current : List Char := []
  done : List LogicalLine := []

/-- Brackets that may be open at once. -/
def maxBrackets : Nat := 200

def isOpening (c : Char) : Bool := c = '(' || c = '[' || c = '\x7b'

def isClosing (c : Char) : Bool := c = ')' || c = ']' || c = '\x7d'

def isQuote (c : Char) : Bool := c = '\x27' || c = '"'

def isIndent (c : Char) : Bool := c = ' ' || c = '\t'

namespace State

/-- Keep a character of the current line. -/
def keep (s : State) (c : Char) : State := { s with current := c :: s.current }

/-- Close the logical line; a line of blanks is none. -/
def close (s : State) : State :=
  let text := s.current.reverse
  let body := text.dropWhile isIndent
  let done := if body.isEmpty then s.done
    else ⟨s.start, (text.takeWhile isIndent).length, body⟩ :: s.done
  { s with current := [], done }

/-- A line break: the logical line ends, unless a bracket is open. -/
def newline (s : State) : State :=
  let next := { s with mode := .code, line := s.line + 1 }
  if s.depth = 0 then { next.close with start := s.line + 1 } else next.keep ' '

end State

/-- Scan a text with line feeds as line breaks. -/
def scan (s : State) : List Char → Except Fault (List LogicalLine)
  | [] => match s.mode with
    | .quoted _ => .error (.unterminated s.line)
    | _ => .ok s.close.done.reverse
  | c :: rest =>
    match s.mode with
    | .comment => if c = '\n' then scan s.newline rest else scan s rest
    | .quoted quote =>
      if c = '\n' then .error (.unterminated s.line)
      else if c = '\\' then
        match rest with
        | d :: rest => scan { s with line := if d = '\n' then s.line + 1 else s.line } rest
        | [] => .error (.unterminated s.line)
      else if c = quote then scan { s.keep c with mode := .code } rest
      else scan s rest
    | .tripleQuoted quote =>
      if c = '\\' then
        match rest with
        | d :: rest => scan { s with line := if d = '\n' then s.line + 1 else s.line } rest
        | [] => .ok s.close.done.reverse
      else match c, rest with
        | '\n', rest => scan { s with line := s.line + 1 } rest
        | c, d :: e :: rest =>
          if c = quote ∧ d = quote ∧ e = quote then scan { s.keep c with mode := .code } rest
          else scan s (d :: e :: rest)
        | _, rest => scan s rest
    | .code =>
      if c = '\n' then scan s.newline rest
      else if c = '#' then scan { s with mode := .comment } rest
      else if isQuote c then
        match rest with
        | d :: e :: rest' =>
          if d = c ∧ e = c then scan { s.keep c with mode := .tripleQuoted c } rest'
          else scan { s.keep c with mode := .quoted c } (d :: e :: rest')
        | rest => scan { s.keep c with mode := .quoted c } rest
      else if isOpening c then
        if maxBrackets ≤ s.depth then .error (.tooManyBrackets s.line)
        else scan { s.keep c with depth := s.depth + 1 } rest
      else if isClosing c then scan { s.keep c with depth := s.depth - 1 } rest
      else if c = '\\' then
        match rest with
        | '\n' :: rest => scan { s.keep ' ' with line := s.line + 1 } rest
        | rest => scan (s.keep c) rest
      else scan (s.keep c) rest

/-- Every kind of line break as a line feed. -/
def unifyBreaks : List Char → List Char
  | '\r' :: '\n' :: rest => '\n' :: unifyBreaks rest
  | '\r' :: rest => '\n' :: unifyBreaks rest
  | c :: rest => c :: unifyBreaks rest
  | [] => []

def logicalLines (text : String) : Except Fault (List LogicalLine) :=
  scan {} (unifyBreaks text.toList)

end Scan

end Stratagem
