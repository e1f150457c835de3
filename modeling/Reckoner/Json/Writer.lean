import Reckoner.Failure
import Reckoner.Text.Hex
import Reckoner.Text.Units

namespace Reckoner.Json

structure Style where
  /-- The character after a comma between items of one line, if any. -/
  spaced : Bool
  /-- Whether characters beyond ASCII and the delete character are escaped. -/
  ascii : Bool
  /-- Spaces of indentation per level; items share one line without it. -/
  indent : Option Nat
  /-- Whether a value that cannot be written is written as its text. -/
  textFallback : Bool
  /-- Whether numbers that are not finite are written, by their names. -/
  specials : Bool

namespace Style

/-- Payload literals: one line, spaces after commas and colons, nothing escaped needlessly. -/
def literal : Style := ⟨true, false, none, false, true⟩

/-- Tool answers: two spaces of indentation and ASCII only. -/
def pretty : Style := ⟨true, true, some 2, true, true⟩

/-- Response bodies: one line without spaces, and finite numbers only. -/
def compact : Style := ⟨false, false, none, false, false⟩

def newline (s : Style) (depth : Nat) : List Char :=
  match s.indent with
  | none => []
  | some n => '\n' :: List.replicate (n * depth) ' '

def comma (s : Style) (depth : Nat) : List Char :=
  match s.indent with
  | some _ => ',' :: s.newline depth
  | none => if s.spaced then [',', ' '] else [',']

def colon (s : Style) : List Char := if s.spaced then [':', ' '] else [':']

/-- Whether a value, or a key, is a number that the style has no text for. -/
def refuses (s : Style) : Value → Bool
  | .float x => !s.specials && !x.isFinite
  | _ => false

theorem refuses_of_specials {s : Style} (h : s.specials = true) (v : Value) :
    s.refuses v = false := by
  cases v <;> simp [refuses, h]

end Style

def unitEscape (n : Nat) : List Char := '\\' :: 'u' :: Text.hexText 4 n

def escapedChar (ascii : Bool) (c : Char) : List Char :=
  if c = '"' then ['\\', '"']
  else if c = '\\' then ['\\', '\\']
  else if c = '\n' then ['\\', 'n']
  else if c = '\r' then ['\\', 'r']
  else if c = '\t' then ['\\', 't']
  else if c = '\x08' then ['\\', 'b']
  else if c = '\x0c' then ['\\', 'f']
  else if c.toNat < 0x20 then unitEscape c.toNat
  else if ascii && 0x7F ≤ c.toNat then
    (Text.Units.ofChar c).flatMap fun u => unitEscape u.toNat
  else [c]

def string (ascii : Bool) (cs : List Char) : List Char :=
  '"' :: (cs.flatMap (escapedChar ascii) ++ ['"'])

def keyName : Value → Except Failure (List Char)
  | .str s => .ok s.toList
  | .int n => .ok (intText n)
  | .float x => .ok (x.text .literal)
  | .bool b => .ok (if b then "true".toList else "false".toList)
  | .none => .ok "null".toList
  | v => .error (.badKey v.kind)

/-- The name of a key in a style. -/
def keyText (s : Style) (k : Value) : Except Failure (List Char) :=
  if s.refuses k then .error .notFinite else keyName k

@[simp] theorem keyText_str (s : Style) (t : String) : keyText s (.str t) = .ok t.toList := rfl

theorem keyName_of_keyText {s : Style} {k : Value} {name : List Char}
    (h : keyText s k = .ok name) : keyName k = .ok name := by
  unfold keyText at h
  split at h
  · cases h
  · exact h

/-- Items of a level inside brackets; brackets without items stay together. -/
def bracketed (s : Style) (depth : Nat) (left right : Char) : List (List Char) → List Char
  | [] => [left, right]
  | p :: ps =>
    left :: (s.newline (depth + 1) ++ p ++ ps.flatMap (s.comma (depth + 1) ++ ·) ++
      s.newline depth ++ [right])

mutual

def writeAt (s : Style) (depth : Nat) : Value → Except Failure (List Char)
  | .none => .ok "null".toList
  | .bool b => .ok (if b then "true".toList else "false".toList)
  | .int n => .ok (intText n)
  | .float x => if s.refuses (.float x) then .error .notFinite else .ok (x.text .literal)
  | .str t => .ok (string s.ascii t.toList)
  | .list xs => (writeAll s (depth + 1) xs).map (bracketed s depth '[' ']')
  | .tuple xs => (writeAll s (depth + 1) xs).map (bracketed s depth '[' ']')
  | .dict es => (writeEntries s (depth + 1) es).map (bracketed s depth '\x7b' '\x7d')
  | .cyclic => .error .circular
  | v => if s.textFallback then .ok (string s.ascii v.text) else .error (.badValue v.kind)

def writeAll (s : Style) (depth : Nat) : List Value → Except Failure (List (List Char))
  | [] => .ok []
  | x :: xs => do
    let p ← writeAt s depth x
    let ps ← writeAll s depth xs
    return p :: ps

def writeEntries (s : Style) (depth : Nat) :
    List (Value × Value) → Except Failure (List (List Char))
  | [] => .ok []
  | (k, v) :: es => do
    let name ← keyText s k
    let p ← writeAt s depth v
    let ps ← writeEntries s depth es
    return (string s.ascii name ++ s.colon ++ p) :: ps

end

def write (s : Style) (v : Value) : Except Failure (List Char) := writeAt s 0 v

end Reckoner.Json
