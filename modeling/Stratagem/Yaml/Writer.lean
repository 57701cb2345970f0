import Stratagem.Value.Written
import Stratagem.Yaml.Tag

/-!
Writing a value as YAML text: block style, ASCII only, a list at the column of its key, lines
folded at spaces once they are longer than the width. A text is written plain where it reads back
as the same text, else in single quotes, and in double quotes where it holds a character that
only an escape can write.
-/

namespace Stratagem.Yaml

/-- The longest line that is left alone. -/
def width : Nat := 80

/-- A key longer than this, or with a line break, has a mark of its own. -/
def simpleKeyLimit : Nat := 122

def isPlainAscii (c : Char) : Bool := 0x20 ≤ c.toNat && c.toNat ≤ 0x7e

/-- A blank as the marks of the format see it. -/
def isSeparator (c : Char) : Bool := c = ' ' || c = '\n' || c = '\t' || c = '\r' || c = '\x00'

def separatorNext : List Char → Bool
  | [] => true
  | c :: _ => isSeparator c

/-- Marks inside a text that would be read as structure. -/
def hasInnerMark (afterBlank : Bool) : List Char → Bool
  | [] => false
  | c :: rest =>
    (c = ':' && separatorNext rest) || (c = '#' && afterBlank) ||
      hasInnerMark (isSeparator c) rest

/-- A text that would be read as structure in a block. -/
def hasMark (cs : List Char) : Bool :=
  "---".toList.isPrefixOf cs || "...".toList.isPrefixOf cs ||
    match cs with
    | [] => false
    | c :: rest =>
      "#,[]\x7b\x7d&*!|>\x27\"%@`".toList.contains c ||
        ((c = '?' || c = ':' || c = '-') && separatorNext rest) ||
        hasInnerMark (isSeparator c) rest

/-- Some two characters in a row satisfy two conditions. -/
def hasPair (p q : Char → Bool) : List Char → Bool
  | c :: d :: rest => (p c && q d) || hasPair p q (d :: rest)
  | _ => false

inductive Style where
  | plain | single | double
  deriving DecidableEq, Repr

/-- How a text is written, as a key or elsewhere. -/
def styleOf (key : Bool) (cs : List Char) : Style :=
  let special := cs.any fun c => c != '\n' && !isPlainAscii c
  let broken := cs.contains '\n'
  let edge := cs.head? = some ' ' || cs.getLast? = some ' '
  let spaceBreak := hasPair (· = ' ') (· = '\n') cs
  let breakSpace := hasPair (· = '\n') (· = ' ') cs
  if tagOf cs = .text && !special && !broken && !edge && !hasMark cs then .plain
  else if !special && !spaceBreak && !breakSpace && !(key && broken) then .single
  else .double

/-! ## Folding -/

def margin (column : Nat) : List Char := List.replicate column ' '

/-- Text written so far, in reverse, and the column it ends at. -/
structure Line where
  written : List Char
  column : Nat

namespace Line

def put (l : Line) (cs : List Char) : Line := ⟨cs.reverse ++ l.written, l.column + cs.length⟩

/-- Go on at a column of a new line. -/
def wrap (l : Line) (column : Nat) : Line := ⟨margin column ++ '\n' :: l.written, column⟩

def isFull (l : Line) : Bool := width < l.column

end Line

/-- How texts are folded: not at all, or at spaces, going on at a column. -/
abbrev Fold := Option Nat

/-- Words and the blanks between them; a run of one space in a full line becomes a line break. -/
def writePlain (fold : Fold) (run : List Char) (l : Line) : List Char → Line
  | [] => l.put run.reverse
  | ' ' :: rest =>
    if run.head? = some ' ' then writePlain fold (' ' :: run) l rest
    else writePlain fold [' '] (l.put run.reverse) rest
  | c :: rest =>
    match run, fold with
    | [' '], some column =>
      if l.isFull then writePlain fold [c] (l.wrap column) rest
      else writePlain fold [c] (l.put [' ']) rest
    | ' ' :: more, _ => writePlain fold [c] (l.put (' ' :: more)) rest
    | run, _ => writePlain fold (c :: run) l rest

/-- The state inside single quotes: in a word, after spaces, or after line breaks. -/
inductive Run where
  | word
  | spaces (count : Nat) (first : Bool)
  | breaks (count : Nat)

/-- End a run of blanks before a word or, with `last`, before the end. -/
def Run.close (fold : Fold) (last : Bool) (l : Line) : Run → Line
  | .word => l
  | .spaces 1 false =>
    match fold with
    | some column => if l.isFull && !last then l.wrap column else l.put [' ']
    | none => l.put [' ']
  | .spaces n _ => l.put (margin n)
  | .breaks n =>
    let column := fold.getD 0
    ⟨margin column ++ List.replicate (n + 1) '\n' ++ l.written, column⟩

/-- The inside of single quotes: a quote is written twice, a line break as an empty line. -/
def writeSingle (fold : Fold) (start : Bool) (run : Run) (l : Line) : List Char → Line
  | [] => run.close fold true l
  | c :: rest =>
    if c = ' ' then
      match run with
      | .spaces n first => writeSingle fold false (.spaces (n + 1) first) l rest
      | run => writeSingle fold false (.spaces 1 start) (run.close fold false l) rest
    else if c = '\n' then
      match run with
      | .breaks n => writeSingle fold false (.breaks (n + 1)) l rest
      | run => writeSingle fold false (.breaks 1) (run.close fold false l) rest
    else
      let l := run.close fold false l
      writeSingle fold false .word (l.put (if c = '\x27' then ['\x27', '\x27'] else [c])) rest

def shortEscapes : List (Char × Char) :=
  [('\x00', '0'), ('\x07', 'a'), ('\x08', 'b'), ('\t', 't'), ('\n', 'n'), ('\x0b', 'v'),
   ('\x0c', 'f'), ('\r', 'r'), ('\x1b', 'e'), ('"', '"'), ('\\', '\\'), ('\u0085', 'N'),
   ('\u00a0', '_'), ('\u2028', 'L'), ('\u2029', 'P')]

def upperHex (count n : Nat) : List Char := (Text.hex count n).map Char.toUpper

/-- The escape of a character that cannot stand for itself. -/
def escapeOf? (c : Char) : Option (List Char) :=
  match shortEscapes.lookup c with
  | some e => some ['\\', e]
  | none =>
    let n := c.toNat
    if isPlainAscii c then none
    else if n ≤ 0xff then some ('\\' :: 'x' :: upperHex 2 n)
    else if n ≤ 0xffff then some ('\\' :: 'u' :: upperHex 4 n)
    else some ('\\' :: 'U' :: upperHex 8 n)

/-- The inside of double quotes. `run` holds what is read and not yet written; a line is folded
before a space or after an escape, with a backslash at its end, and a second one before a space
that starts the next line. -/
def writeDouble (fold : Fold) (start : Bool) (run : List Char) (l : Line) : List Char → Line
  | [] => l.put run.reverse
  | c :: rest =>
    match escapeOf? c with
    | some e =>
      let l := (l.put run.reverse).put e
      match fold, rest with
      | some column, d :: _ =>
        if !start && width + 1 < l.column then
          let l := (l.put ['\\']).wrap column
          writeDouble fold false [] (if d = ' ' then l.put ['\\'] else l) rest
        else writeDouble fold false [] l rest
      | _, _ => writeDouble fold false [] l rest
    | none =>
      match fold with
      | some column =>
        if !start && !rest.isEmpty && (c = ' ' || run.isEmpty) && width < l.column + run.length then
          let l := ((l.put run.reverse).put ['\\']).wrap column
          writeDouble fold false [c] (if c = ' ' then l.put ['\\'] else l) rest
        else writeDouble fold false (c :: run) l rest
      | none => writeDouble fold false (c :: run) l rest

/-- A text in its style, from a column on. -/
def writeText (key : Bool) (fold : Fold) (column : Nat) (cs : List Char) : List Char :=
  let l := match styleOf key cs with
    | .plain => writePlain fold [] ⟨[], column⟩ cs
    | .single => (writeSingle fold true .word ⟨['\x27'], column + 1⟩ cs).put ['\x27']
    | .double => (writeDouble fold true [] ⟨['"'], column + 1⟩ cs).put ['"']
  l.written.reverse

/-! ## Values -/

/-- An exponent needs a point before it to be read as a number. -/
def floatScalar (x : Binary64) : List Char :=
  match x with
  | .nan => ".nan".toList
  | .infinite negative => (if negative then "-.inf" else ".inf").toList
  | x =>
    let cs := x.text.toList
    if cs.contains '.' then cs
    else cs.takeWhile (· ≠ 'e') ++
      (match cs.dropWhile (· ≠ 'e') with
      | [] => []
      | exponent => '.' :: '0' :: exponent)

/-- A value without parts, from a column on; `indent` is the column of what it belongs to. -/
def scalarText (indent column : Nat) : Value → List Char
  | .null => "null".toList
  | .bool b => (if b then "true" else "false").toList
  | .int n => (intText n).toList
  | .float x => floatScalar x
  | .text s => writeText false (some (indent + 2)) column s.toList
  | v => v.written.toList

/-- Whether a key needs no mark of its own. -/
def isSimpleKey (cs : List Char) : Bool :=
  !cs.isEmpty && cs.length ≤ simpleKeyLimit && !cs.contains '\n'

def keyText : Key → List Char
  | .text s => writeText true none 0 s.toList
  | key => key.written.toList

/-- Put lines under one another at a column. -/
def stack (indent : Nat) (parts : List (List Char)) : List Char :=
  List.intercalate ('\n' :: margin indent) parts

mutual

/-- A value on the line of a dash or a mark, whose inside stands at a column. -/
def inlineNode (indent : Nat) : Value → List Char
  | .list [] => ['[', ']']
  | .object [] => ['\x7b', '\x7d']
  | .list items => stack (indent + 2) (dashed (indent + 2) items)
  | .object fields => stack (indent + 2) (entries (indent + 2) fields)
  | v => scalarText indent (indent + 2) v

/-- A value after its key, which ends at a column. -/
def keyedNode (indent column : Nat) : Value → List Char
  | .list [] => [' ', '[', ']']
  | .object [] => [' ', '\x7b', '\x7d']
  | .list items => '\n' :: margin indent ++ stack indent (dashed indent items)
  | .object fields =>
    '\n' :: margin (indent + 2) ++ stack (indent + 2) (entries (indent + 2) fields)
  | v => ' ' :: scalarText indent (column + 1) v

def dashed (indent : Nat) : List Value → List (List Char)
  | [] => []
  | v :: rest => ('-' :: ' ' :: inlineNode indent v) :: dashed indent rest

def entries (indent : Nat) : Fields → List (List Char)
  | [] => []
  | (key, v) :: rest =>
    let line :=
      if isSimpleKey (key.label.toList) then
        let cs := keyText key ++ [':']
        cs ++ keyedNode indent (indent + cs.length) v
      else
        '?' :: ' ' :: writeText false (some (indent + 2)) (indent + 2) (key.label.toList) ++
          '\n' :: margin indent ++ ':' :: ' ' :: inlineNode indent v
    line :: entries indent rest

end

/-- A whole text. -/
def write (v : Value) : String :=
  let body := match v with
    | .list [] => ['[', ']']
    | .object [] => ['\x7b', '\x7d']
    | .list items => stack 0 (dashed 0 items)
    | .object fields => stack 0 (entries 0 fields)
    | v => scalarText 0 0 v
  String.ofList (body ++ ['\n'])

end Stratagem.Yaml
