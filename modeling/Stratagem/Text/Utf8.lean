import Stratagem.Text.Quoted

/-! Reading bytes as UTF-8, and where and why that fails. -/

namespace Stratagem.Text

inductive Utf8Fault where
  | badStart | badContinuation | cutShort
  deriving DecidableEq, Repr

/-- The bytes that cannot be read, and where they start. -/
structure Utf8Error where
  fault : Utf8Fault
  start : Nat
  first : UInt8
  count : Nat
  deriving DecidableEq, Repr

def Utf8Fault.message : Utf8Fault → String
  | .badStart => "invalid start byte"
  | .badContinuation => "invalid continuation byte"
  | .cutShort => "unexpected end of data"

def Utf8Error.message (e : Utf8Error) : String :=
  let place :=
    if e.count = 1 then
      "byte 0x" ++ String.ofList (hex 2 e.first.toNat) ++ s!" in position {e.start}"
    else s!"bytes in position {e.start}-{e.start + e.count - 1}"
  "'utf-8' codec can't decode " ++ place ++ ": " ++ e.fault.message

/-- How many bytes a first byte announces; none if it cannot be first. -/
def utf8Width? (b : UInt8) : Option Nat :=
  if b < 0x80 then some 1
  else if b < 0xc2 then none
  else if b < 0xe0 then some 2
  else if b < 0xf0 then some 3
  else if b < 0xf5 then some 4
  else none

def isContinuation (b : UInt8) : Bool := 0x80 ≤ b && b < 0xc0

/-- A second byte, given the first: no code point has two spellings, none is a surrogate, and
none lies beyond the last. -/
def isSecond (first b : UInt8) : Bool :=
  isContinuation b &&
    (if first = 0xe0 then 0xa0 ≤ b
    else if first = 0xed then b < 0xa0
    else if first = 0xf0 then 0x90 ≤ b
    else if first = 0xf4 then b < 0x90
    else true)

/-- The code point spelt by the low bits of some bytes. -/
def codePoint (lead : Nat) (tail : List UInt8) : Char :=
  Char.ofNat (tail.foldl (fun n b => n * 64 + b.toNat % 64) lead)

def utf8From (offset : Nat) (done : List Char) : List UInt8 → Except Utf8Error (List Char)
  | [] => .ok done.reverse
  | a :: rest =>
    let fail (fault : Utf8Fault) (count : Nat) : Except Utf8Error (List Char) :=
      .error ⟨fault, offset, a, count⟩
    match utf8Width? a with
    | none => fail .badStart 1
    | some 1 => utf8From (offset + 1) (Char.ofNat a.toNat :: done) rest
    | some width =>
      match rest with
      | [] => fail .cutShort 1
      | b :: rest =>
        if !isSecond a b then fail .badContinuation 1
        else if width = 2 then utf8From (offset + 2) (codePoint (a.toNat % 32) [b] :: done) rest
        else match rest with
        | [] => fail .cutShort 2
        | c :: rest =>
          if !isContinuation c then fail .badContinuation 2
          else if width = 3 then
            utf8From (offset + 3) (codePoint (a.toNat % 16) [b, c] :: done) rest
          else match rest with
          | [] => fail .cutShort 3
          | d :: rest =>
            if !isContinuation d then fail .badContinuation 3
            else utf8From (offset + 4) (codePoint (a.toNat % 8) [b, c, d] :: done) rest

def ofUtf8 (bytes : List UInt8) : Except Utf8Error String :=
  (utf8From 0 [] bytes).map String.ofList

end Stratagem.Text
