import Stratagem.Yaml.Scalar

/-!
Lexical items of YAML. Indentation shows as items of its own: a block collection starts where a
key or a dash stands further right than the collection around it, and ends where something stands
further left. A scalar is a key when a colon follows it on its line and keys are allowed there.
-/

namespace Stratagem.Yaml

inductive Token where
  | documentStart | documentEnd
  | sequenceStart | mappingStart | blockEnd
  | openSequence | closeSequence | openMapping | closeMapping
  | comma | dash | key | colon
  | plain (text : List Char)
  | quoted (text : List Char)
  deriving DecidableEq, Repr

/-- Where in the text we are. -/
structure Cursor where
  rest : List Char
  line : Nat
  column : Nat

def isBreak (c : Char) : Bool :=
  c = '\n' || c = '\r' || c = '\x85' || c.toNat = 0x2028 || c.toNat = 0x2029

def isBlank (c : Char) : Bool := c = ' ' || c = '\t' || isBreak c

/-- A blank, or the end of the text. -/
def blankNext : List Char → Bool
  | [] => true
  | c :: _ => isBlank c

/-- The characters a text may hold. -/
def isAllowed (c : Char) : Bool :=
  let n := c.toNat
  n = 0x9 || n = 0xa || n = 0xd || (0x20 ≤ n && n ≤ 0x7e) || n = 0x85 ||
    (0xa0 ≤ n && n ≤ 0xd7ff) || (0xe000 ≤ n && n ≤ 0xfffd) || 0x10000 ≤ n

/-- What a line break stands for in a scalar. -/
def breakText (c : Char) : Char := if c.toNat = 0x2028 || c.toNat = 0x2029 then c else '\n'

namespace Cursor

def advance (c : Cursor) (n : Nat) : Cursor :=
  { c with rest := c.rest.drop n, column := c.column + n }

/-- A mark of three characters at the start of a line, and then a blank. -/
def atMark (c : Cursor) (mark : String) : Bool :=
  c.column = 0 && mark.toList.isPrefixOf c.rest && blankNext (c.rest.drop 3)

def atDocumentMark (c : Cursor) : Bool := c.atMark "---" || c.atMark "..."

end Cursor

/-- Skip blanks, comments and line breaks; tells whether a line break was passed. -/
def skipFrom (line column : Nat) (comment broke : Bool) : List Char → Cursor × Bool
  | [] => (⟨[], line, column⟩, broke)
  | c :: rest =>
    if isBreak c then
      match c, rest with
      | '\r', '\n' :: rest => skipFrom (line + 1) 0 false true rest
      | _, rest => skipFrom (line + 1) 0 false true rest
    else if comment then skipFrom line (column + 1) true broke rest
    else if c = ' ' then skipFrom line (column + 1) false broke rest
    else if c = '#' then skipFrom line (column + 1) true broke rest
    else (⟨c :: rest, line, column⟩, broke)

def Cursor.skip (c : Cursor) : Cursor × Bool := skipFrom c.line c.column false false c.rest

/-- Skip spaces only. -/
def Cursor.skipSpaces (c : Cursor) : Cursor :=
  c.advance (c.rest.takeWhile (· = ' ')).length

/-! ## Folding -/

/-- Line breaks and the blanks around them, up to the next text; none at a document mark. Gives
the breaks after the first one. -/
def breaksFrom (tabs : Bool) (line column : Nat) (breaks : List Char) :
    List Char → Option (List Char × Cursor)
  | [] => some (breaks.reverse, ⟨[], line, column⟩)
  | c :: rest =>
    if (Cursor.mk (c :: rest) line column).atDocumentMark then none
    else if isBreak c then
      match c, rest with
      | '\r', '\n' :: rest => breaksFrom tabs (line + 1) 0 ('\n' :: breaks) rest
      | c, rest => breaksFrom tabs (line + 1) 0 (breakText c :: breaks) rest
    else if c = ' ' || (tabs && c = '\t') then breaksFrom tabs line (column + 1) breaks rest
    else some (breaks.reverse, ⟨c :: rest, line, column⟩)

/-- One line break folds to a space, more of them to one less. -/
def folded (first : Char) (breaks : List Char) : List Char :=
  if first ≠ '\n' then first :: breaks
  else if breaks.isEmpty then [' '] else breaks

/-- Past the line break at the cursor and all that follows it, with what it folds to. -/
def foldBreak (tabs : Bool) (c : Cursor) : Option (List Char × Cursor) :=
  match c.rest with
  | '\r' :: '\n' :: rest => (breaksFrom tabs (c.line + 1) 0 [] rest).map
      fun (breaks, next) => (folded '\n' breaks, next)
  | b :: rest => (breaksFrom tabs (c.line + 1) 0 [] rest).map
      fun (breaks, next) => (folded (breakText b) breaks, next)
  | [] => some ([], c)

/-! ## Plain scalars -/

def isFlowMark (c : Char) : Bool :=
  c = ',' || c = '[' || c = ']' || c = '\x7b' || c = '\x7d'

/-- A colon that divides a key from its value. -/
def endsKey (flow : Bool) : List Char → Bool
  | [] => true
  | c :: _ => isBlank c || (flow && isFlowMark c)

/-- The run of a plain scalar without blanks. -/
def plainRun (flow : Bool) : List Char → List Char
  | [] => []
  | c :: rest =>
    if isBlank c || (c = ':' && endsKey flow rest) || (flow && (isFlowMark c || c = '?')) then []
    else c :: plainRun flow rest

/-- The text of a plain scalar; it goes on over lines that are indented enough. `spaces` is what
stands between the last run and here. -/
def plainFrom (flow : Bool) (indent : Nat) : Nat → List Char → List Char → Cursor →
    List Char × Cursor
  | 0, text, _, c => (text, c)
  | fuel + 1, text, spaces, c =>
    let run := if c.rest.head? = some '#' then [] else plainRun flow c.rest
    if run.isEmpty then (text, c)
    else
      let text := text ++ spaces ++ run
      let after := c.advance run.length
      let blanks := after.rest.takeWhile (· = ' ')
      let beyond := after.advance blanks.length
      match beyond.rest with
      | [] => (text, beyond)
      | b :: _ =>
        if isBreak b then
          match foldBreak false beyond with
          | none => (text, ⟨beyond.rest.drop 1, beyond.line + 1, 0⟩)
          | some (spaces, next) =>
            if !flow && next.column < indent then (text, next)
            else plainFrom flow indent fuel text spaces next
        else if blanks.isEmpty then (text, beyond)
        else plainFrom flow indent fuel text blanks beyond

/-! ## Quoted scalars -/

def escapes : List (Char × Nat) :=
  [('0', 0), ('a', 7), ('b', 8), ('t', 9), ('\t', 9), ('n', 10), ('v', 11), ('f', 12), ('r', 13),
   ('e', 27), (' ', 32), ('"', 34), ('\\', 92), ('/', 47), ('N', 0x85), ('_', 0xa0),
   ('L', 0x2028), ('P', 0x2029)]

/-- How many digits an escape by code takes. -/
def codeWidth? : Char → Option Nat
  | 'x' => some 2
  | 'u' => some 4
  | 'U' => some 8
  | _ => none

/-- An escape after its backslash: the character, and how much it takes up. -/
def escape? : List Char → Option (Char × Nat)
  | [] => none
  | c :: rest =>
    match escapes.lookup c, codeWidth? c with
    | some n, _ => some (Char.ofNat n, 1)
    | none, some width =>
      let digits := rest.take width
      if digits.length = width && digits.all isHexDigit then
        some (Char.ofNat (inBase 16 digits), width + 1)
      else none
    | none, none => none

/-- The text of a quoted scalar, from after its opening quote to after its closing one. -/
def quotedFrom (double : Bool) : Nat → List Char → Cursor → Option (List Char × Cursor)
  | 0, _, _ => none
  | fuel + 1, text, c =>
    match c.rest with
    | [] => none
    | '\x27' :: rest =>
      if double then quotedFrom double fuel ('\x27' :: text) (c.advance 1)
      else if rest.head? = some '\x27' then quotedFrom double fuel ('\x27' :: text) (c.advance 2)
      else some (text.reverse, c.advance 1)
    | '"' :: _ =>
      if double then some (text.reverse, c.advance 1)
      else quotedFrom double fuel ('"' :: text) (c.advance 1)
    | '\\' :: rest =>
      if !double then quotedFrom double fuel ('\\' :: text) (c.advance 1)
      else if (rest.head?.any isBreak) then
        match foldBreak true (c.advance 1) with
        | none => none
        | some (spaces, next) =>
          let kept := if spaces = [' '] then [] else spaces
          quotedFrom double fuel (kept.reverse ++ text) next
      else match escape? rest with
        | none => none
        | some (e, width) => quotedFrom double fuel (e :: text) (c.advance (width + 1))
    | b :: _ =>
      if b = ' ' || b = '\t' || isBreak b then
        let blanks := c.rest.takeWhile fun d => d = ' ' || d = '\t'
        let beyond := c.advance blanks.length
        match beyond.rest with
        | [] => none
        | d :: _ =>
          if isBreak d then
            match foldBreak true beyond with
            | none => none
            | some (spaces, next) => quotedFrom double fuel (spaces.reverse ++ text) next
          else quotedFrom double fuel (blanks.reverse ++ text) beyond
      else quotedFrom double fuel (b :: text) (c.advance 1)

/-! ## The scan -/

structure Scan where
  cursor : Cursor
  indents : List Nat := []
  flow : List Token := []
  keyAllowed : Bool := true
  tokens : List Token := []

namespace Scan

def emit (s : Scan) (t : Token) : Scan := { s with tokens := t :: s.tokens }

def inFlow (s : Scan) : Bool := !s.flow.isEmpty

/-- End every block collection that stands right of a column. -/
def unwindTo (column : Nat) (tokens : List Token) : List Nat → List Nat × List Token
  | [] => ([], tokens)
  | i :: rest =>
    if column < i then unwindTo column (.blockEnd :: tokens) rest else (i :: rest, tokens)

def unwind (s : Scan) (column : Nat) : Scan :=
  if s.inFlow then s
  else
    let (indents, tokens) := unwindTo column s.tokens s.indents
    { s with indents, tokens }

/-- End every block collection. -/
def unwindAll (s : Scan) : Scan :=
  { s with indents := [], tokens := s.indents.map (fun _ => Token.blockEnd) ++ s.tokens }

/-- The least column of what belongs to the innermost block collection. -/
def innerColumn (s : Scan) : Nat :=
  match s.indents with
  | [] => 0
  | i :: _ => i + 1

/-- Start a block collection at a column, unless one is there already. -/
def indentAt (s : Scan) (column : Nat) (start : Token) : Scan :=
  if s.inFlow then s
  else if s.innerColumn ≤ column then
    { s with indents := column :: s.indents, tokens := start :: s.tokens }
  else s

/-- The longest key. -/
def maxKeyLength : Nat := 1024

/-- A colon at the cursor that divides a key from its value. -/
def atColon (s : Scan) (c : Cursor) : Bool :=
  match c.rest with
  | ':' :: rest => s.inFlow || blankNext rest
  | _ => false

/-- Put a scalar down, as a key if a colon follows it on its line. -/
def putScalar (s : Scan) (t : Token) (after : Cursor) : Scan :=
  let start := s.cursor
  let colon := after.skipSpaces
  if s.keyAllowed && colon.line = start.line && colon.column ≤ start.column + maxKeyLength &&
      s.atColon colon then
    let s := ((s.indentAt start.column .mappingStart).emit .key).emit t
    { s.emit .colon with cursor := colon.advance 1, keyAllowed := false }
  else
    let broke := start.line < after.line && match t with
      | .plain _ => true
      | _ => false
    { s.emit t with cursor := after, keyAllowed := broke && !s.inFlow }

def openFlow (s : Scan) (t : Token) : Scan :=
  { s.emit t with cursor := s.cursor.advance 1, flow := t :: s.flow, keyAllowed := true }

def closeFlow (s : Scan) (t : Token) : Except ReadError Scan :=
  match s.flow with
  | [] => .error .malformed
  | _ :: flow => .ok { s.emit t with cursor := s.cursor.advance 1, flow, keyAllowed := false }

/-- A dash starts an element of a block sequence. -/
def dash (s : Scan) : Except ReadError Scan :=
  if !s.inFlow && !s.keyAllowed then .error .malformed
  else
    let s := s.indentAt s.cursor.column .sequenceStart
    .ok { s.emit .dash with cursor := s.cursor.advance 1, keyAllowed := true }

/-- A question mark starts a key of any kind. -/
def question (s : Scan) : Except ReadError Scan :=
  if !s.inFlow && !s.keyAllowed then .error .malformed
  else
    let s := s.indentAt s.cursor.column .mappingStart
    .ok { s.emit .key with cursor := s.cursor.advance 1, keyAllowed := !s.inFlow }

/-- A colon without a key before it on its line. -/
def colon (s : Scan) : Except ReadError Scan :=
  if !s.inFlow && !s.keyAllowed then .error .malformed
  else
    let s := s.indentAt s.cursor.column .mappingStart
    .ok { s.emit .colon with cursor := s.cursor.advance 1, keyAllowed := !s.inFlow }

def documentMark (s : Scan) (t : Token) : Scan :=
  let s := s.unwindAll
  { s.emit t with cursor := s.cursor.advance 3, keyAllowed := false }

/-- Characters that no plain scalar starts with. -/
def isIndicator (c : Char) : Bool :=
  "-?:,[]\x7b\x7d#&*!|>\x27\"%@`".toList.contains c || isBlank c

def startsPlain (s : Scan) (c : Char) (rest : List Char) : Bool :=
  !isIndicator c ||
    (!blankNext rest && (c = '-' || (!s.inFlow && (c = '?' || c = ':'))))

/-- Scan the item at the cursor, which is at most `size` characters long. -/
def item (size : Nat) (s : Scan) (c : Char) (rest : List Char) : Except ReadError Scan :=
  if s.cursor.atMark "---" then .ok (s.documentMark .documentStart)
  else if s.cursor.atMark "..." then .ok (s.documentMark .documentEnd)
  else if c = '[' then .ok (s.openFlow .openSequence)
  else if c = '\x7b' then .ok (s.openFlow .openMapping)
  else if c = ']' then s.closeFlow .closeSequence
  else if c = '\x7d' then s.closeFlow .closeMapping
  else if c = ',' then
    .ok { s.emit .comma with cursor := s.cursor.advance 1, keyAllowed := true }
  else if c = '-' && blankNext rest then s.dash
  else if c = '?' && (s.inFlow || blankNext rest) then s.question
  else if c = ':' && (s.inFlow || blankNext rest) then s.colon
  else if c = '\x27' || c = '"' then
    match quotedFrom (c = '"') size [] (s.cursor.advance 1) with
    | none => .error .malformed
    | some (text, after) => .ok (s.putScalar (.quoted text) after)
  else if s.startsPlain c rest then
    let (text, after) := plainFrom s.inFlow s.innerColumn size [] [] s.cursor
    .ok (s.putScalar (.plain text) after)
  else .error .malformed

/-- Scan everything; every item takes up at least one character, so there are never more
characters left than fuel. -/
def run : Nat → Scan → Except ReadError (List Token)
  | 0, _ => .error .malformed
  | fuel + 1, s =>
    let (cursor, broke) := s.cursor.skip
    let s := { s with cursor, keyAllowed := s.keyAllowed || (broke && !s.inFlow) }
    match cursor.rest with
    | [] => .ok s.unwindAll.tokens.reverse
    | c :: rest => do run fuel (← item fuel (s.unwind cursor.column) c rest)

end Scan

/-- Every item of a text. -/
def tokens (text : String) : Except ReadError (List Token) :=
  let cs := match text.toList with
    | c :: rest => if c.toNat = 0xfeff then rest else c :: rest
    | [] => []
  if cs.all isAllowed then Scan.run (cs.length + 1) { cursor := ⟨cs, 0, 0⟩ }
  else .error .malformed

end Stratagem.Yaml
