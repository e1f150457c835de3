import Reckoner.Text.Hex

namespace Reckoner.Text

inductive Utf8Fault where
  | start
  | continuation
  | truncated
  deriving DecidableEq, Repr

/-- An ill-formed sequence: its first byte, its position and its length. -/
structure Utf8Error where
  fault : Utf8Fault
  first : UInt8
  position : Nat
  length : Nat
  deriving DecidableEq, Repr

namespace Utf8

def width? (b : UInt8) : Option Nat :=
  let n := b.toNat
  if n < 0x80 then some 1
  else if n < 0xC2 then none
  else if n < 0xE0 then some 2
  else if n < 0xF0 then some 3
  else if n < 0xF5 then some 4
  else none

def follows (first second : UInt8) : Bool :=
  let s := second.toNat
  let low := if first = 0xE0 then 0xA0 else if first = 0xF0 then 0x90 else 0x80
  let high := if first = 0xED then 0x9F else if first = 0xF4 then 0x8F else 0xBF
  low ≤ s && s ≤ high

def isContinuation (b : UInt8) : Bool := 0x80 ≤ b.toNat && b.toNat ≤ 0xBF

/-- How many of the bytes after the first continue the sequence, at most `need`. -/
def continued (first : UInt8) (rest : List UInt8) (need : Nat) : Nat :=
  match need, rest with
  | 0, _ => 0
  | _, [] => 0
  | need + 1, b :: bs =>
    if follows first b then 1 + ((bs.take need).takeWhile isContinuation).length else 0

def codePoint (first : UInt8) (rest : List UInt8) : Nat :=
  let lead := match rest.length with
    | 0 => first.toNat
    | 1 => first.toNat - 0xC0
    | 2 => first.toNat - 0xE0
    | _ => first.toNat - 0xF0
  rest.foldl (fun n b => n * 64 + (b.toNat - 0x80)) lead

def next (position : Nat) (first : UInt8) (rest : List UInt8) :
    Except Utf8Error (Char × Nat) :=
  match width? first with
  | none => .error ⟨.start, first, position, 1⟩
  | some w =>
    let got := continued first rest (w - 1)
    if got = w - 1 then .ok (Char.ofNat (codePoint first (rest.take got)), got)
    else if rest.length = got then .error ⟨.truncated, first, position, got + 1⟩
    else .error ⟨.continuation, first, position, got + 1⟩

def decodeFrom (position : Nat) : List UInt8 → Except Utf8Error (List Char)
  | [] => .ok []
  | b :: bs =>
    match next position b bs with
    | .error e => .error e
    | .ok (c, n) => (decodeFrom (position + n + 1) (bs.drop n)).map (c :: ·)
termination_by bs => bs.length
decreasing_by
  simp only [List.length_drop, List.length_cons]
  omega

/-- Bytes as text, or the first ill-formed sequence. -/
def decode (bs : List UInt8) : Except Utf8Error (List Char) := decodeFrom 0 bs

end Utf8

namespace Utf8Fault

def text : Utf8Fault → String
  | .start => "invalid start byte"
  | .continuation => "invalid continuation byte"
  | .truncated => "unexpected end of data"

end Utf8Fault

/-- The wording of a decoding error; a longer ill-formed sequence is named by its ends. -/
def Utf8Error.text (e : Utf8Error) : String :=
  let place :=
    if e.length = 1 then
      s!"byte 0x{String.ofList (hexText 2 e.first.toNat)} in position {e.position}"
    else s!"bytes in position {e.position}-{e.position + e.length - 1}"
  "'utf-8' codec can't decode " ++ place ++ ": " ++ e.fault.text

end Reckoner.Text
