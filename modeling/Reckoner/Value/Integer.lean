import Reckoner.Failure
import Reckoner.Number.Numeral

namespace Reckoner

/-- The most characters of a text that an error shows. -/
def shownLimit : Nat := 200

/-- The integer that a numeral writes; an error shows the text as it is given. -/
def integerOf (cs shown : List Char) : Except Failure Int :=
  match Numeral.int cs with
  | .ok n => .ok n
  | .error .malformed => .error (.malformedInteger (String.ofList (shown.take shownLimit)))
  | .error (.tooLong n) => .error (.tooManyDigits (some n))

def integerOfText (cs : List Char) : Except Failure Int := integerOf cs (Text.quoted cs)

/-- The integer of a number, its fraction cut off; only finite numbers have one. -/
def integerOfFloat (x : Binary64) : Except Failure Int :=
  match x.trunc? with
  | some n => .ok n
  | none => .error (if x.isNaN then .nanToInteger else .infinityToInteger)

def numeralByte (b : UInt8) : Char := if b.toNat < 128 then Char.ofNat b.toNat else '?'

def Value.toInteger : Value → Except Failure Int
  | .bool b => .ok (if b then 1 else 0)
  | .int n => .ok n
  | .float x => integerOfFloat x
  | .str s => integerOfText s.toList
  | .bytes bs => integerOf (bs.map numeralByte) (Text.quotedBytes bs)
  | v => .error (.notNumeric v.kind)

end Reckoner
