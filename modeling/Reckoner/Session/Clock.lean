import Reckoner.Value.Integer

namespace Reckoner.Session

/-- The readings to come; the last repeats for ever, and without any the clock stands at zero. -/
structure Clock where
  readings : List Binary64
  deriving Repr, Inhabited

def Clock.read (c : Clock) : Binary64 × Clock :=
  match c.readings with
  | [] => (.zero false, c)
  | [x] => (x, c)
  | x :: y :: rest => (x, ⟨y :: rest⟩)

/-- The whole milliseconds between two readings in seconds. -/
def elapsed (start stop : Binary64) : Except Failure Int :=
  integerOfFloat ((stop.sub start).mul (.ofInt 1000))

end Reckoner.Session
