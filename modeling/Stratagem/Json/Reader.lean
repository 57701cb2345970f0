import Stratagem.Json.Token
import Stratagem.Value.Basic

/-!
Reading JSON text into a value. The reader is a machine over the lexical items: it keeps the
containers that are open and what the grammar expects next, so nesting costs no recursion and the
deepest nesting that is accepted is a plain parameter.
-/

namespace Stratagem.Json

inductive ReadError where
  | malformed (fault : Fault) (line column offset : Nat)
  | tooDeep
  | overlong (digits : Nat)
  deriving DecidableEq, Repr

def ReadError.message : ReadError → String
  | .malformed fault line column offset =>
    s!"{fault.message}: line {line} column {column} (char {offset})"
  | .tooDeep => "nested too deeply"
  | .overlong digits => unreadText digits

/-- A container that is still open, its parts in reverse. -/
inductive Frame where
  | list (items : List Value)
  | object (fields : List (Key × Value))
  | entry (fields : List (Key × Value)) (key : String)

/-- What comes next: a value (or the end of an empty list), a name (or the end of an empty
mapping), a colon, a comma or a closing bracket, or nothing more. -/
inductive Expect where
  | value
  | valueOrClose
  | name
  | nameOrClose
  | colon
  | comma
  | done (v : Value)

structure Machine where
  frames : List Frame
  expect : Expect

/-- Put a finished value into the innermost open container. -/
def Machine.finish (frames : List Frame) (v : Value) : Machine :=
  match frames with
  | [] => ⟨[], .done v⟩
  | .list items :: rest => ⟨.list (v :: items) :: rest, .comma⟩
  | .entry fields key :: rest => ⟨.object ((.text key, v) :: fields) :: rest, .comma⟩
  | .object fields :: rest => ⟨.object fields :: rest, .comma⟩

def Atom.value : Atom → Value
  | .null => .null
  | .bool b => .bool b
  | .int n => .int n
  | .float x => .float x

/-- Where the faults of one text lie. -/
structure Source where
  text : List Char

def Source.fail (s : Source) (fault : Fault) (offset : Nat) : ReadError :=
  let before := s.text.take offset
  let line := before.count '\n' + 1
  let column := (before.reverse.takeWhile (· != '\n')).length + 1
  .malformed fault line column offset

/-- Open a container, unless that nests too deeply. -/
def Machine.enter (limit : Nat) (frames : List Frame) (frame : Frame) (expect : Expect) :
    Except ReadError Machine :=
  if limit ≤ frames.length then .error .tooDeep else .ok ⟨frame :: frames, expect⟩

def closeList (frames : List Frame) : Option Machine :=
  match frames with
  | .list items :: rest => some (Machine.finish rest (.list items.reverse))
  | _ => none

def closeObject (frames : List Frame) : Option Machine :=
  match frames with
  | .object fields :: rest => some (Machine.finish rest (.object (Fields.ofPairs fields.reverse)))
  | _ => none

def orFail (s : Source) (fault : Fault) (offset : Nat) : Option Machine → Except ReadError Machine
  | some m => .ok m
  | none => .error (s.fail fault offset)

def Machine.value (s : Source) (limit : Nat) (frames : List Frame) (offset : Nat) :
    Token → Except ReadError Machine
  | .openList => Machine.enter limit frames (.list []) .valueOrClose
  | .openObject => Machine.enter limit frames (.object []) .nameOrClose
  | .atom a =>
    match a with
    | .int n => if isLong n then .error (.overlong (digitCount n)) else .ok (finish frames (.int n))
    | a => .ok (finish frames a.value)
  | .text t => .ok (Machine.finish frames (.text t))
  | .badText fault at_ => .error (s.fail fault at_)
  | _ => .error (s.fail .expectingValue offset)

def Machine.name (s : Source) (frames : List Frame) (offset : Nat) :
    Token → Except ReadError Machine
  | .text key => match frames with
    | .object fields :: rest => .ok ⟨.entry fields key :: rest, .colon⟩
    | _ => .error (s.fail .expectingName offset)
  | .badText fault at_ => .error (s.fail fault at_)
  | _ => .error (s.fail .expectingName offset)

/-- Take one item. -/
def Machine.step (s : Source) (limit : Nat) (m : Machine) (item : Nat × Token) :
    Except ReadError Machine :=
  let (offset, token) := item
  match m.expect, token with
  | .value, _ => Machine.value s limit m.frames offset token
  | .valueOrClose, .closeList => orFail s .expectingValue offset (closeList m.frames)
  | .valueOrClose, _ => Machine.value s limit m.frames offset token
  | .name, _ => Machine.name s m.frames offset token
  | .nameOrClose, .closeObject => orFail s .expectingName offset (closeObject m.frames)
  | .nameOrClose, _ => Machine.name s m.frames offset token
  | .colon, .colon => .ok ⟨m.frames, .value⟩
  | .colon, _ => .error (s.fail .expectingColon offset)
  | .comma, .comma => match m.frames with
    | .object _ :: _ => .ok ⟨m.frames, .name⟩
    | _ => .ok ⟨m.frames, .value⟩
  | .comma, .closeList => orFail s .expectingComma offset (closeList m.frames)
  | .comma, .closeObject => orFail s .expectingComma offset (closeObject m.frames)
  | .comma, _ => .error (s.fail .expectingComma offset)
  | .done _, _ => .error (s.fail .extraData offset)

/-- The value of a machine at the end of its text. -/
def Machine.result (s : Source) (m : Machine) : Except ReadError Value :=
  let stop := s.text.length
  match m.expect with
  | .done v => .ok v
  | .value | .valueOrClose => .error (s.fail .expectingValue stop)
  | .name | .nameOrClose => .error (s.fail .expectingName stop)
  | .colon => .error (s.fail .expectingColon stop)
  | .comma => .error (s.fail .expectingComma stop)

/-- Read a text that nests at most `limit` containers. -/
def read (limit : Nat) (text : String) : Except ReadError Value := do
  let s : Source := ⟨text.toList⟩
  match s.text with
  | '\ufeff' :: _ => .error (s.fail .byteOrderMark 0)
  | _ =>
    let m ← (tokens s.text).foldlM (Machine.step s limit) ⟨[], .value⟩
    m.result s

end Stratagem.Json
