namespace Reckoner.Text

/-- A text of 16-bit units; a unit of a pair may stand alone. -/
abbrev Units := List UInt16

namespace Units

def ofChar (c : Char) : Units :=
  let n := c.toNat
  if n < 0x10000 then [UInt16.ofNat n]
  else [UInt16.ofNat (0xD800 + (n - 0x10000) / 0x400), UInt16.ofNat (0xDC00 + n % 0x400)]

def ofChars (cs : List Char) : Units := cs.flatMap ofChar

def ofString (s : String) : Units := ofChars s.toList

def isHigh (u : UInt16) : Bool := 0xD800 ≤ u.toNat && u.toNat < 0xDC00

def isLow (u : UInt16) : Bool := 0xDC00 ≤ u.toNat && u.toNat < 0xE000

/-- The characters of units; a unit of a pair that stands alone becomes U+FFFD. -/
def toChars : Units → List Char
  | [] => []
  | [u] => [if isHigh u || isLow u then '\uFFFD' else Char.ofNat u.toNat]
  | u :: v :: us =>
    if isHigh u && isLow v then
      Char.ofNat (0x10000 + (u.toNat - 0xD800) * 0x400 + (v.toNat - 0xDC00)) :: toChars us
    else (if isHigh u || isLow u then '\uFFFD' else Char.ofNat u.toNat) :: toChars (v :: us)

end Units

end Reckoner.Text
