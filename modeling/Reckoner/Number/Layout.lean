import Reckoner.Number.Shortest

namespace Reckoner

/-- Which digits a number is written with, where it is written positionally, how its exponent is
written and its special names. -/
structure Layout where
  /-- The digits of a positive magnitude. -/
  digits : Nat → Decimal
  /-- The least decimal point position written positionally. -/
  lowest : Int
  /-- The greatest decimal point position written positionally. -/
  highest : Int
  /-- Whether a whole number written positionally ends in `.0`. -/
  marksWhole : Bool
  /-- The least count of digits of an exponent. -/
  exponentWidth : Nat
  /-- Whether a negative zero keeps its sign. -/
  signsZero : Bool
  nan : String
  infinity : String

namespace Layout

/-- Answers write `16` places positionally, mark whole numbers and pad exponents to two digits. -/
def answer : Layout := ⟨Binary64.shortest, -3, 16, true, 2, true, "nan", "inf"⟩

/-- Payload literals are answers with the literal names of the special numbers. -/
def literal : Layout := { answer with nan := "NaN", infinity := "Infinity" }

/-- Snippets write nearest digits and `21` places positionally, without marks, padding or negative
zero. -/
def snippet : Layout := ⟨Binary64.rounded, -5, 21, false, 1, false, "NaN", "Infinity"⟩

end Layout

def digitChar (d : Nat) : Char := Char.ofNat (48 + d)

def natText (n : Nat) : List Char := (decimalDigits n).map digitChar

def intText (n : Int) : List Char :=
  if n < 0 then '-' :: natText n.natAbs else natText n.natAbs

namespace Decimal

def positional (l : Layout) (d : Decimal) : List Char :=
  let cs := d.digits.map digitChar
  if d.point ≤ 0 then '0' :: '.' :: (List.replicate d.point.natAbs '0' ++ cs)
  else if cs.length ≤ d.point then
    cs ++ List.replicate (d.point.toNat - cs.length) '0' ++
      (if l.marksWhole then ['.', '0'] else [])
  else cs.take d.point.toNat ++ '.' :: cs.drop d.point.toNat

/-- One digit, the others after a point, and a signed exponent. -/
def scientific (l : Layout) (d : Decimal) : List Char :=
  let cs := d.digits.map digitChar
  let e := d.point - 1
  let es := natText e.natAbs
  cs.take 1 ++ (if cs.length ≤ 1 then [] else '.' :: cs.drop 1) ++
    'e' :: (if e < 0 then '-' else '+') :: (List.replicate (l.exponentWidth - es.length) '0' ++ es)

def text (l : Layout) (d : Decimal) : List Char :=
  if l.lowest ≤ d.point && d.point ≤ l.highest then d.positional l else d.scientific l

end Decimal

namespace Binary64

def text (l : Layout) : Binary64 → List Char
  | .nan => l.nan.toList
  | .inf s => (if s then ['-'] else []) ++ l.infinity.toList
  | .fin s m =>
    if m.val = 0 then
      (if s && l.signsZero then ['-'] else []) ++ '0' :: (if l.marksWhole then ['.', '0'] else [])
    else (if s then ['-'] else []) ++ (l.digits m).text l

end Binary64

end Reckoner
