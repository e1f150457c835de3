import Reckoner.Number.Binary64

namespace Reckoner.Binary64

/-- The order of absolute values, false when either side is a NaN. -/
def smaller (x y : Binary64) : Bool :=
  match x, y with
  | .nan, _ => false
  | _, .nan => false
  | .inf _, _ => false
  | .fin _ _, .inf _ => true
  | .fin _ a, .fin _ b => a.val < b.val

/-- A rounded sum of two numbers, the larger first, and what the rounding lost. -/
def twoSum (x y : Binary64) : Binary64 × Binary64 :=
  let (a, b) := if x.smaller y then (y, x) else (x, y)
  let hi := a.add b
  (hi, b.sub (hi.sub a))

/-- A term folded through the partials: the errors left behind, and the leading sum. -/
def sweep (x : Binary64) : List Binary64 → List Binary64 × Binary64
  | [] => ([], x)
  | y :: ps =>
    let (hi, lo) := twoSum x y
    let (rest, top) := sweep hi ps
    (if lo.isZero then rest else lo :: rest, top)

inductive SumError where
  /-- Finite terms ran past the largest finite number. -/
  | overflow
  /-- Infinities of both signs were added. -/
  | opposed
  deriving DecidableEq, Repr

/-- The running sum: finite partials, and the terms that are not finite. -/
structure Running where
  partials : List Binary64
  special : Binary64
  infinite : Binary64

def Running.empty : Running := ⟨[], zero false, zero false⟩

def Running.push (r : Running) (x : Binary64) : Except SumError Running :=
  let (errors, top) := sweep x r.partials
  if top.isZero then .ok { r with partials := errors }
  else if top.isFinite then .ok { r with partials := errors ++ [top] }
  else if x.isFinite then .error .overflow
  else .ok ⟨[], r.special.add x, if x.isNaN then r.infinite else r.infinite.add x⟩

/-- Partials added from the largest down while the additions are exact: the sum, the first
error, and the partials not yet added. -/
def collapse (hi : Binary64) : List Binary64 → Binary64 × Binary64 × List Binary64
  | [] => (hi, zero false, [])
  | y :: ps =>
    let sum := hi.add y
    let lo := y.sub (sum.sub hi)
    if lo.isZero then collapse sum ps else (sum, lo, ps)

def agrees (x y : Binary64) : Bool :=
  (x.lt (zero false) && y.lt (zero false)) || ((zero false).lt x && (zero false).lt y)

/-- The partials, largest first, as one number rounded half to even. -/
def round : List Binary64 → Binary64
  | [] => zero false
  | top :: ps =>
    let (hi, lo, rest) := collapse top ps
    match rest with
    | [] => hi
    | next :: _ =>
      if agrees lo next then
        let twice := lo.add lo
        let up := hi.add twice
        if (up.sub hi).same twice then up else hi
      else hi

def Running.total (r : Running) : Except SumError Binary64 :=
  if r.special.isZero then .ok (round r.partials.reverse)
  else if r.infinite.isNaN then .error .opposed
  else .ok r.special

end Reckoner.Binary64
