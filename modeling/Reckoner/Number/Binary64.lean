namespace Reckoner

/-- How many fractions an exponent field has: `2 ^ 52`. -/
def Binary64.fractions : Nat := 0x10000000000000

/-- How many finite magnitudes there are: those of 2047 exponent fields. -/
def Binary64.magnitudes : Nat := 2047 * fractions

/-- A binary floating point number; both zeros are finite numbers of magnitude zero. -/
inductive Binary64 where
  | nan
  | inf (negative : Bool)
  | fin (negative : Bool) (mag : Fin Binary64.magnitudes)
  deriving DecidableEq, Repr

namespace Binary64

instance : Inhabited Binary64 := ⟨.nan⟩

def unit : Nat := Nat.pow 2 1074

/-- The value of a magnitude in units of `2 ^ -1074`. -/
def gridOf (mag : Nat) : Nat :=
  if mag / fractions = 0 then mag % fractions
  else (mag % fractions + fractions) * Nat.pow 2 (mag / fractions - 1)

/-- The quotient of two naturals rounded to nearest, a tie to the even neighbour. -/
def halfEven (n d : Nat) : Nat :=
  if 2 * (n % d) < d ∨ (2 * (n % d) = d ∧ n / d % 2 = 0) then n / d else n / d + 1

/-- The magnitude nearest to `n / d` units; it may pass the largest finite one. -/
def nearest (n d : Nat) : Nat :=
  ((n / d).log2 - 52) * fractions + halfEven n (d * Nat.pow 2 ((n / d).log2 - 52))

/-- A magnitude past the largest finite one is infinite. -/
def ofMag (negative : Bool) (mag : Nat) : Binary64 :=
  if h : mag < magnitudes then .fin negative ⟨mag, h⟩ else .inf negative

def ofGrid (negative : Bool) (n d : Nat) : Binary64 := ofMag negative (nearest n d)

def zero (negative : Bool) : Binary64 := ofMag negative 0

def ofInt (n : Int) : Binary64 := ofGrid (n < 0) (n.natAbs * unit) 1

/-- An integer of this magnitude or more is past the largest finite number once it is rounded. -/
def integerBound : Nat := Nat.pow 2 1024 - Nat.pow 2 970

/-- The signed grid value of a finite number. -/
def grid? : Binary64 → Option Int
  | .fin true m => some (-(gridOf m : Int))
  | .fin false m => some (gridOf m)
  | _ => none

def isNaN : Binary64 → Bool
  | .nan => true
  | _ => false

def isFinite : Binary64 → Bool
  | .fin _ _ => true
  | _ => false

def isZero : Binary64 → Bool
  | .fin _ m => m.val == 0
  | _ => false

def isWhole : Binary64 → Bool
  | .fin _ m => gridOf m % unit == 0
  | _ => false

def trunc? (x : Binary64) : Option Int := x.grid?.map (·.tdiv unit)

def neg : Binary64 → Binary64
  | .nan => .nan
  | .inf s => .inf (!s)
  | .fin s m => .fin (!s) m

/-- The exact sum rounded once; a sum of zero is negative only when both terms are. -/
def add : Binary64 → Binary64 → Binary64
  | .nan, _ => .nan
  | _, .nan => .nan
  | .inf s, .inf t => if s = t then .inf s else .nan
  | .inf s, .fin _ _ => .inf s
  | .fin _ _, .inf t => .inf t
  | .fin s a, .fin t b =>
    let x : Int := if s then -(gridOf a : Int) else gridOf a
    let y : Int := if t then -(gridOf b : Int) else gridOf b
    if x + y = 0 then zero (s && t) else ofGrid (x + y < 0) (x + y).natAbs 1

def sub (x y : Binary64) : Binary64 := add x y.neg

def mul : Binary64 → Binary64 → Binary64
  | .nan, _ => .nan
  | _, .nan => .nan
  | .inf s, .inf t => .inf (s != t)
  | .inf s, .fin t b => if b.val = 0 then .nan else .inf (s != t)
  | .fin s a, .inf t => if a.val = 0 then .nan else .inf (s != t)
  | .fin s a, .fin t b => ofGrid (s != t) (gridOf a * gridOf b) unit

/-- The exact quotient rounded once; a finite number over zero is infinite. -/
def div : Binary64 → Binary64 → Binary64
  | .nan, _ => .nan
  | _, .nan => .nan
  | .inf _, .inf _ => .nan
  | .inf s, .fin t _ => .inf (s != t)
  | .fin s _, .inf t => zero (s != t)
  | .fin s a, .fin t b =>
    if b.val = 0 then (if a.val = 0 then .nan else .inf (s != t))
    else ofGrid (s != t) (gridOf a * unit) (gridOf b)

/-- The remainder of the division cut off toward zero; it has the sign of the dividend. -/
def rem : Binary64 → Binary64 → Binary64
  | .fin s a, .fin _ b => if b.val = 0 then .nan else ofGrid s (gridOf a % gridOf b) 1
  | .fin s a, .inf _ => .fin s a
  | _, _ => .nan

/-- A place on the extended number line: which infinity, or neither, then the grid value. -/
structure Place where
  side : Int
  grid : Int
  deriving DecidableEq, Repr

namespace Place

def lt (p q : Place) : Bool := p.side < q.side || (p.side == q.side && p.grid < q.grid)

def ofInt (n : Int) : Place := ⟨0, n * unit⟩

end Place

def place? : Binary64 → Option Place
  | .nan => none
  | .inf true => some ⟨-1, 0⟩
  | .inf false => some ⟨1, 0⟩
  | .fin true m => some ⟨0, -(gridOf m : Int)⟩
  | .fin false m => some ⟨0, gridOf m⟩

/-- Less than, false when either side is a NaN. -/
def lt (x y : Binary64) : Bool :=
  match x.place?, y.place? with
  | some p, some q => p.lt q
  | _, _ => false

/-- Numeric equality: the zeros are equal and a NaN equals nothing. -/
def same (x y : Binary64) : Bool :=
  match x.place?, y.place? with
  | some p, some q => p = q
  | _, _ => false

/-- The number nearest to `m * 10 ^ e`; powers far outside the range need no arithmetic. -/
def ofDecimal (negative : Bool) (m : Nat) (e : Int) : Binary64 :=
  if m = 0 then zero negative
  else if e > 400 then .inf negative
  else if e + m.log2 / 3 + 1 < -400 then zero negative
  else if e < 0 then ofGrid negative (m * unit) (Nat.pow 10 e.natAbs)
  else ofGrid negative (m * Nat.pow 10 e.natAbs * unit) 1

end Binary64

end Reckoner
