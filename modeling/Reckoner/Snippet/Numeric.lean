import Reckoner.Number.Numeral
import Reckoner.Text.Hex
import Reckoner.Text.Units

namespace Reckoner.Snippet

open Text

def isSpace (c : Char) : Bool :=
  let n := c.toNat
  (9 ≤ n && n ≤ 13) || n == 32 || n == 0xA0 || n == 0x1680 || (0x2000 ≤ n && n ≤ 0x200A) ||
    n == 0x2028 || n == 0x2029 || n == 0x202F || n == 0x205F || n == 0x3000 || n == 0xFEFF

def digitIn? (radix : Nat) (c : Char) : Option Nat :=
  match hexValue? c with
  | some d => if d < radix then some d else none
  | none => none

def digitNext (radix : Nat) (cs : List Char) : Bool :=
  cs.head?.any fun c => (digitIn? radix c).isSome

def digitsFrom (grouped : Bool) (radix : Nat) : List Char → List Nat × List Char
  | [] => ([], [])
  | c :: cs =>
    match digitIn? radix c with
    | some d => (d :: (digitsFrom grouped radix cs).1, (digitsFrom grouped radix cs).2)
    | none =>
      if grouped && c == '_' && digitNext radix cs then digitsFrom grouped radix cs
      else ([], c :: cs)

/-- Leading digits of a radix, and what follows them; grouped digits may have single underscores
between them. -/
def digitsIn (grouped : Bool) (radix : Nat) (cs : List Char) : List Nat × List Char :=
  if digitNext radix cs then digitsFrom grouped radix cs else ([], cs)

/-- The greatest integer that one more digit surely fits after. -/
def collectLimit (radix : Nat) : Nat := (Nat.pow 2 64 - radix) / radix

/-- Digits collected into an integer while they fit, and the count of those that did not. -/
def collect (radix n skipped : Nat) : List Nat → Nat × Nat
  | [] => (n, skipped)
  | d :: ds =>
    if n ≤ collectLimit radix then collect radix (n * radix + d) skipped ds
    else collect radix n (skipped + 1) ds

/-- A natural rounded to its first `bits` bits, a half upwards. -/
def keepBits (bits n : Nat) : Nat :=
  let unit := Nat.pow 2 (n.log2 + 1 - bits)
  (2 * n + unit) / (2 * unit) * unit

/-- How many factors of a power are multiplied exactly; of `10 ^ 27` the odd part has 63 bits. -/
def blockSize : Nat := 27

/-- A natural multiplied by a number of blocks of factors, of which 61 bits are kept each time. -/
def timesBlocks (radix : Nat) : Nat → Nat → Nat
  | 0, n => n
  | blocks + 1, n => timesBlocks radix blocks (keepBits 61 (n * Nat.pow radix blockSize))

/-- A power of a radix as a floating point number, rounded from 61 bits with halves upwards.
Exponents far outside the range need no arithmetic. -/
def radixPower (radix k : Nat) : Binary64 :=
  if 1100 < k then .inf false
  else
    let start := keepBits 61 (Nat.pow radix (k % blockSize))
    .ofInt (keepBits 53 (timesBlocks radix (k / blockSize) start) : Nat)

def wholeNumber (radix : Nat) (ds : List Nat) : Binary64 :=
  match collect radix 0 0 ds with
  | (n, 0) => .ofInt n
  | (n, skipped) => (Binary64.ofInt n).mul (radixPower radix skipped)

def exponentPart (grouped : Bool) (cs : List Char) : Option (Int × List Char) :=
  match cs with
  | c :: rest =>
    if c = 'e' ∨ c = 'E' then
      let (negative, rest) := match rest with
        | '-' :: rest => (true, rest)
        | '+' :: rest => (false, rest)
        | rest => (false, rest)
      match digitsIn grouped 10 rest with
      | ([], _) => none
      | (ds, rest) =>
        some (if negative then -(Numeral.natOf ds : Int) else Numeral.natOf ds, rest)
    else none
  | [] => none

/-- A point and the digits after it, if there is a number around the point. -/
def fractionPart (grouped afterDigits : Bool) (cs : List Char) : Option (List Nat × List Char) :=
  match cs with
  | '.' :: rest =>
    if afterDigits || digitNext 10 rest then some (digitsIn grouped 10 rest) else none
  | _ => none

/-- A decimal number without a sign at the front of a text, and what follows it. -/
def decimal? (grouped : Bool) (cs : List Char) : Option (Binary64 × List Char) :=
  let (whole, rest) := digitsIn grouped 10 cs
  let (pointed, fraction, rest) := match fractionPart grouped (!whole.isEmpty) rest with
    | some (ds, rest) => (true, ds, rest)
    | none => (false, [], rest)
  if whole.isEmpty && fraction.isEmpty then none
  else
    match exponentPart grouped rest with
    | some (e, rest) =>
      some (.ofDecimal false (Numeral.natOf (whole ++ fraction)) (e - fraction.length), rest)
    | none =>
      if pointed then
        some (.ofDecimal false (Numeral.natOf (whole ++ fraction)) (-(fraction.length : Int)), rest)
      else some (wholeNumber 10 whole, rest)

def radixOf? (c : Char) : Option Nat :=
  if c = 'x' ∨ c = 'X' then some 16
  else if c = 'o' ∨ c = 'O' then some 8
  else if c = 'b' ∨ c = 'B' then some 2
  else none

def radixNumber? (grouped : Bool) : List Char → Option (Binary64 × List Char)
  | '0' :: c :: cs =>
    match radixOf? c with
    | none => none
    | some radix =>
      match digitsIn grouped radix cs with
      | ([], _) => none
      | (ds, rest) => some (wholeNumber radix ds, rest)
  | _ => none

def unsigned? (cs : List Char) : Option Binary64 :=
  if cs = "Infinity".toList then some (.inf false)
  else
    match decimal? false cs with
    | some (x, []) => some x
    | _ => none

/-- The number that a text is read as: zero when it is blank, NaN when it writes none. -/
def numberOfText (u : Units) : Binary64 :=
  let cs := Text.trim isSpace (Units.toChars u)
  let read? := match cs with
    | [] => some (Binary64.zero false)
    | '-' :: rest => (unsigned? rest).map Binary64.neg
    | '+' :: rest => unsigned? rest
    | cs =>
      match radixNumber? false cs with
      | some (x, []) => some x
      | _ => unsigned? cs
  read?.getD .nan

end Reckoner.Snippet
