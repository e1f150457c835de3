import Reckoner.Number.Binary64

namespace Reckoner.Snippet

/-- Whether a 32-bit integer can hold a number; none can hold the negative zero. -/
def fitsInteger (x : Binary64) : Bool :=
  x.isWhole && x ≠ .zero true && x.trunc?.any fun n => -0x80000000 ≤ n && n < 0x80000000

structure Held where
  value : Binary64
  /-- Whether an integer holds it. -/
  integral : Bool
  fits : integral = true → fitsInteger value = true
  deriving DecidableEq, Repr

namespace Held

/-- A number held as an integer if that is possible, as literals and lengths are. -/
def settle (x : Binary64) : Held := ⟨x, fitsInteger x, id⟩

def float (x : Binary64) : Held := ⟨x, false, nofun⟩

def integer? (x : Held) : Option Int := if x.integral then x.value.trunc? else none

def combine (op : Binary64 → Binary64 → Binary64) (x y : Held) : Held :=
  if x.integral && y.integral then settle (op x.value y.value) else float (op x.value y.value)

def neg (x : Held) : Held := if x.integral then settle x.value.neg else float x.value.neg

/-- How the operands are held changes no result. -/
theorem combine_value (op : Binary64 → Binary64 → Binary64) (x y : Held) :
    (combine op x y).value = op x.value y.value := by
  unfold combine
  split <;> rfl

theorem neg_value (x : Held) : x.neg.value = x.value.neg := by
  unfold neg
  split <;> rfl

end Held

end Reckoner.Snippet
