import Reckoner.Number.Binary64

namespace Reckoner

def decimalDigits (n : Nat) : List Nat := go n (n + 1) []
where
  go (n : Nat) : Nat → List Nat → List Nat
    | 0, acc => acc
    | fuel + 1, acc =>
      if n < 10 then n :: acc else go (n / 10) fuel (n % 10 :: acc)

/-- The value `0.d₁d₂d₃… * 10 ^ point`. -/
structure Decimal where
  digits : List Nat
  point : Int
  deriving DecidableEq, Repr

namespace Decimal

def ofScaled (c : Nat) (e : Int) : Decimal :=
  let ds := decimalDigits c
  ⟨(ds.reverse.dropWhile (· == 0)).reverse, e + ds.length⟩

end Decimal

namespace Binary64

/-- The decimals that read back as a magnitude, as bounds in units of `2 ^ -1075`. -/
structure Interval where
  value : Nat
  low : Nat
  high : Nat
  closed : Bool

def interval (mag : Nat) : Interval where
  value := 2 * gridOf mag
  low := gridOf (mag - 1) + gridOf mag
  high := gridOf mag + gridOf (mag + 1)
  closed := mag % 2 == 0

/-- Whether `c * 10 ^ e` lies in the interval. -/
def Interval.holds (i : Interval) (c : Nat) (e : Int) : Bool :=
  let (point, scale) :=
    if e < 0 then (c * (2 * unit), Nat.pow 10 e.natAbs)
    else (c * Nat.pow 10 e.natAbs * (2 * unit), 1)
  if i.closed then i.low * scale ≤ point && point ≤ i.high * scale
  else i.low * scale < point && point < i.high * scale

def Interval.ratio (i : Interval) (e : Int) : Nat × Nat :=
  if e < 0 then (i.value * Nat.pow 10 e.natAbs, 2 * unit)
  else (i.value, Nat.pow 10 e.natAbs * (2 * unit))

/-- The exponent `k` with `10 ^ (k - 1) ≤ value < 10 ^ k`. -/
def Interval.point (i : Interval) : Int :=
  let scaled := i.value * Nat.pow 10 400 / (2 * unit)
  let low : Nat := scaled.log2 * 30102 / 100000
  let length : Nat := if Nat.pow 10 (low + 1) ≤ scaled then low + 2 else low + 1
  (length : Int) - 400

/-- The nearest point of the grid of step `10 ^ e` that reads back, if one does; of two equally near
points the even one. -/
def Interval.hit? (i : Interval) (e : Int) : Option Nat :=
  let (n, d) := i.ratio e
  let c := n / d
  match i.holds c e, i.holds (c + 1) e with
  | true, true => some (halfEven n d)
  | true, false => some c
  | false, true => some (c + 1)
  | false, false => none

/-- The shortest decimal that reads back as a positive magnitude; 17 digits always do. -/
def shortest (mag : Nat) : Decimal :=
  let i := interval mag
  let k := i.point
  let found := (List.range 17).findSome? fun n =>
    let e := k - ((n + 1 : Nat) : Int)
    (i.hit? e).map fun c => Decimal.ofScaled c e
  found.getD ⟨[0], 1⟩

/-- The nearest point of the grid of step `10 ^ e`, a half to the even one. -/
def Interval.nearestAt (i : Interval) (e : Int) : Nat := halfEven (i.ratio e).1 (i.ratio e).2

def Interval.nearestPoint (i : Interval) (n : Nat) : Nat × Int :=
  (i.nearestAt (i.point - n), i.point - n)

/-- The count of digits of the nearest point of a grid, if it reads back. -/
def Interval.readsBack? (i : Interval) (n : Nat) : Option Nat :=
  let p := i.nearestPoint n
  if i.holds p.1 p.2 then some (Decimal.ofScaled p.1 p.2).digits.length else none

/-- A count from `low` to `high` found by halving: the middle one bounds the count from above when
it is accepted, by the count it is accepted with, and from below when it is not. -/
def halving (accept? : Nat → Option Nat) (low high : Nat) : Nat :=
  if low < high then
    match accept? ((low + high) / 2) with
    | some n => halving accept? low (min n ((low + high) / 2))
    | none => halving accept? ((low + high) / 2 + 1) high
  else high
termination_by high - low

/-- A positive magnitude rounded to as many digits as the search by halving asks for; 17 digits
always read back. -/
def rounded (mag : Nat) : Decimal :=
  let i := interval mag
  let p := i.nearestPoint (halving i.readsBack? 1 17)
  Decimal.ofScaled p.1 p.2

end Binary64

end Reckoner
