import Stratagem.Value.Written
import Stratagem.Yaml.Token

/-!
Trees of YAML nodes: which item opens what, and where a missing node stands for null. Block
collections end with an item of their own; a sequence right under a key may stand at the key's
own column, and then ends where its dashes do.
-/

namespace Stratagem.Yaml

inductive Node where
  | plain (text : List Char)
  | quoted (text : List Char)
  | sequence (items : List Node)
  | mapping (entries : List (Node × Node))

/-- What a missing node stands for. -/
def Node.empty : Node := .plain []

/-- Where a node stands. -/
inductive Spot where
  | block
  | afterKey
  | flow
  deriving DecidableEq

/-- Items before which a node in a block is missing. -/
def endsEntry : List Token → Bool
  | .key :: _ | .colon :: _ | .blockEnd :: _ => true
  | _ => false

/-- Items before which a node in a flow collection is missing. -/
def endsFlowEntry : List Token → Bool
  | .comma :: _ | .closeSequence :: _ | .closeMapping :: _ => true
  | _ => false

mutual

/-- A node; `room` is how many collections may still nest. Each step takes an item. -/
def node : Nat → Nat → Spot → List Token → Except ReadError (Node × List Token)
  | 0, _, _, _ => .error .malformed
  | fuel + 1, room, spot, tokens =>
    match tokens with
    | .plain text :: rest => .ok (.plain text, rest)
    | .quoted text :: rest => .ok (.quoted text, rest)
    | t :: rest =>
      match room with
      | 0 => .error .tooDeep
      | room + 1 =>
        match t with
        | .openSequence => do
          let (items, rest) ← flowItems fuel room true [] rest
          return (.sequence items, rest)
        | .openMapping => do
          let (entries, rest) ← flowEntries fuel room true [] rest
          return (.mapping entries, rest)
        | .sequenceStart =>
          if spot = .flow then .error .malformed
          else do
            match ← blockItems fuel room [] rest with
            | (items, .blockEnd :: rest) => return (.sequence items, rest)
            | _ => .error .malformed
        | .mappingStart =>
          if spot = .flow then .error .malformed
          else do
            match ← blockEntries fuel room [] rest with
            | (entries, .blockEnd :: rest) => return (.mapping entries, rest)
            | _ => .error .malformed
        | .dash =>
          if spot = .afterKey then do
            let (items, rest) ← blockItems fuel room [] (.dash :: rest)
            return (.sequence items, rest)
          else .error .malformed
        | _ => .error .malformed
    | [] => .error .malformed

/-- Elements that start with dashes. -/
def blockItems : Nat → Nat → List Node → List Token → Except ReadError (List Node × List Token)
  | 0, _, _, _ => .error .malformed
  | fuel + 1, room, done, tokens =>
    match tokens with
    | .dash :: .dash :: rest => blockItems fuel room (.empty :: done) (.dash :: rest)
    | .dash :: rest =>
      if endsEntry rest then blockItems fuel room (.empty :: done) rest
      else do
        let (item, rest) ← node fuel room .block rest
        blockItems fuel room (item :: done) rest
    | rest => .ok (done.reverse, rest)

/-- A node of an entry in a block, or nothing. -/
def entryNode : Nat → Nat → List Token → Except ReadError (Node × List Token)
  | 0, _, _ => .error .malformed
  | fuel + 1, room, tokens =>
    if endsEntry tokens then .ok (.empty, tokens) else node fuel room .afterKey tokens

def blockEntries : Nat → Nat → List (Node × Node) → List Token →
    Except ReadError (List (Node × Node) × List Token)
  | 0, _, _, _ => .error .malformed
  | fuel + 1, room, done, tokens =>
    match tokens with
    | .key :: rest => do
      match ← entryNode fuel room rest with
      | (key, .colon :: rest) =>
        let (value, rest) ← entryNode fuel room rest
        blockEntries fuel room ((key, value) :: done) rest
      | (key, rest) => blockEntries fuel room ((key, .empty) :: done) rest
    | rest => .ok (done.reverse, rest)

/-- A node of an entry in a flow collection, or nothing. -/
def flowNode : Nat → Nat → List Token → Except ReadError (Node × List Token)
  | 0, _, _ => .error .malformed
  | fuel + 1, room, tokens =>
    if endsFlowEntry tokens then .ok (.empty, tokens) else node fuel room .flow tokens

/-- The key and the value of an entry in a flow collection, after the mark of a key. -/
def flowPair : Nat → Nat → List Token → Except ReadError ((Node × Node) × List Token)
  | 0, _, _ => .error .malformed
  | fuel + 1, room, tokens => do
    let (key, rest) ← match tokens with
      | .colon :: _ => pure (Node.empty, tokens)
      | _ => flowNode fuel room tokens
    match rest with
    | .colon :: rest =>
      let (value, rest) ← flowNode fuel room rest
      return ((key, value), rest)
    | rest => return ((key, .empty), rest)

/-- Elements between brackets; a key among them makes a mapping of one entry. -/
def flowItems : Nat → Nat → Bool → List Node → List Token →
    Except ReadError (List Node × List Token)
  | 0, _, _, _, _ => .error .malformed
  | fuel + 1, room, first, done, tokens =>
    let element (tokens : List Token) : Except ReadError (List Node × List Token) :=
      match tokens with
      | .closeSequence :: rest => .ok (done.reverse, rest)
      | .key :: rest => do
        let (pair, rest) ← flowPair fuel (room - 1) rest
        flowItems fuel room false (.mapping [pair] :: done) rest
      | tokens => do
        let (item, rest) ← node fuel room .flow tokens
        flowItems fuel room false (item :: done) rest
    match tokens with
    | .closeSequence :: rest => .ok (done.reverse, rest)
    | .comma :: rest => if first then .error .malformed else element rest
    | tokens => if first then element tokens else .error .malformed

def flowEntries : Nat → Nat → Bool → List (Node × Node) → List Token →
    Except ReadError (List (Node × Node) × List Token)
  | 0, _, _, _, _ => .error .malformed
  | fuel + 1, room, first, done, tokens =>
    let entry (tokens : List Token) : Except ReadError (List (Node × Node) × List Token) :=
      match tokens with
      | .closeMapping :: rest => .ok (done.reverse, rest)
      | .key :: rest => do
        let (pair, rest) ← flowPair fuel room rest
        flowEntries fuel room false (pair :: done) rest
      | tokens => do
        let (key, rest) ← node fuel room .flow tokens
        flowEntries fuel room false ((key, .empty) :: done) rest
    match tokens with
    | .closeMapping :: rest => .ok (done.reverse, rest)
    | .comma :: rest => if first then .error .malformed else entry rest
    | tokens => if first then entry tokens else .error .malformed

end

/-- The end of the only document: nothing but marks of its end. -/
def onlyEnds (tokens : List Token) : Bool := tokens.all (· = .documentEnd)

/-- The only document of a text; nothing at all is an empty node. -/
def document (room : Nat) (tokens : List Token) : Except ReadError Node := do
  let fuel := 3 * tokens.length + 2
  match tokens with
  | [] => return .empty
  | [.documentStart] => return .empty
  | .documentStart :: .documentEnd :: rest =>
    if onlyEnds rest then return .empty else .error .malformed
  | .documentStart :: rest =>
    let (root, rest) ← node fuel room .block rest
    if onlyEnds rest then return root else .error .malformed
  | tokens =>
    let (root, rest) ← node fuel room .block tokens
    if onlyEnds rest then return root else .error .malformed

/-! ## Values -/

/-- The key that a value stands for; a collection is none. -/
def keyOf? : Value → Option Key
  | .text s => some (.text s)
  | .list _ | .tuple _ | .object _ | .set _ => none
  | v => some (if v.hasLong then .overlong else .other v.written)

mutual

def Node.value : Node → Except ReadError Value
  | .plain text => plainValue text
  | .quoted text => .ok (.text (String.ofList text))
  | .sequence items => do return .list (← itemValues items)
  | .mapping entries => do return .object (Fields.ofPairs (← entryValues entries))

def itemValues : List Node → Except ReadError (List Value)
  | [] => .ok []
  | item :: rest => do
    let v ← item.value
    return v :: (← itemValues rest)

def entryValues : List (Node × Node) → Except ReadError (List (Key × Value))
  | [] => .ok []
  | (k, v) :: rest => do
    match keyOf? (← k.value) with
    | none => .error .malformed
    | some key =>
      let value ← v.value
      return (key, value) :: (← entryValues rest)

end

/-- How many collections may nest in a text. -/
def deepest : Nat := 470

def read (text : String) : Except ReadError Value := do
  (← document deepest (← tokens text)).value

end Stratagem.Yaml
