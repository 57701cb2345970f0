import Stratagem.Value.Written

/-!
Writing a value as JSON text: two more columns of indentation for each level, ASCII only, empty
containers without a break.
-/

namespace Stratagem.Json

/-- A code point beyond the first plane takes two escapes. -/
def unicodeEscape (n : Nat) : List Char :=
  if n < 0x10000 then '\\' :: 'u' :: Text.hex 4 n
  else
    let m := n - 0x10000
    '\\' :: 'u' :: Text.hex 4 (0xd800 + m / 0x400) ++
      '\\' :: 'u' :: Text.hex 4 (0xdc00 + m % 0x400)

def textChar (c : Char) : List Char :=
  match c with
  | '"' => ['\\', '"']
  | '\\' => ['\\', '\\']
  | '\n' => ['\\', 'n']
  | '\r' => ['\\', 'r']
  | '\t' => ['\\', 't']
  | '\x08' => ['\\', 'b']
  | '\x0c' => ['\\', 'f']
  | _ => if 0x20 ≤ c.toNat && c.toNat ≤ 0x7e then [c] else unicodeEscape c.toNat

def textLiteral (s : String) : String :=
  "\"" ++ String.ofList (s.toList.flatMap textChar) ++ "\""

def floatText : Binary64 → String
  | .nan => "NaN"
  | .infinite negative => if negative then "-Infinity" else "Infinity"
  | x => x.text

def margin (depth : Nat) : String := String.ofList (List.replicate (2 * depth) ' ')

/-- Parts of a container, each on a line of its own. -/
def block (opening closing : String) (depth : Nat) (parts : List String) : String :=
  if parts.isEmpty then opening ++ closing
  else
    let inner := "\n" ++ margin (depth + 1)
    opening ++ inner ++ ("," ++ inner).intercalate parts ++ "\n" ++ margin depth ++ closing

mutual

def writeAt (depth : Nat) : Value → String
  | .null => "null"
  | .bool b => if b then "true" else "false"
  | .int n => intText n
  | .float x => floatText x
  | .text s => textLiteral s
  | .bytes s => textLiteral s
  | .date s => textLiteral s
  | .moment s => textLiteral s
  | .list items => block "[" "]" depth (writeItems (depth + 1) items)
  | .tuple items => block "[" "]" depth (writeItems (depth + 1) items)
  | .set items => block "[" "]" depth (writeItems (depth + 1) items)
  | .object fields => block "\x7b" "\x7d" depth (writeFields (depth + 1) fields)

def writeItems (depth : Nat) : List Value → List String
  | [] => []
  | item :: rest => writeAt depth item :: writeItems depth rest

def writeFields (depth : Nat) : Fields → List String
  | [] => []
  | (key, value) :: rest =>
    (textLiteral key.label ++ ": " ++ writeAt depth value) :: writeFields depth rest

end

def write (v : Value) : String := writeAt 0 v

end Stratagem.Json
