import Reckoner.Snippet.Guest
import Reckoner.Snippet.Numeric

namespace Reckoner.Snippet

open Text

/-- What a helper returns when it is called without arguments. -/
def idle : Helper → Guest
  | .sum => .ofNat 0
  | .groupBy => .bare []
  | _ => .number (.float .nan)

namespace Guest

def numberText (x : Binary64) : Units := Units.ofChars (x.text .snippet)

def objectText : Units := Units.ofString "[object Object]"

def isPrimitive : Guest → Bool
  | .array _ => false
  | .object _ _ => false
  | .helper _ => false
  | .native _ => false
  | _ => true

/-- The primitive that a conversion member of an object gives, if it gives one. -/
def converted? (o : Guest) (name : String) : Option Guest :=
  match o.find? (Units.ofString name) with
  | some (.helper h) => if (idle h).isPrimitive then some (idle h) else none
  | some (.native .evaluator) => some .undefined
  | some _ => none
  | none => if name = "toString" && o.hasUsualRoot then some (.text objectText) else none

/-- An object as a primitive: by its text first, or by its number first. -/
def objectPrimitive (textFirst : Bool) (o : Guest) : Except Thrown Guest :=
  let byText := o.converted? "toString"
  let byValue := o.converted? "valueOf"
  match (if textFirst then byText.or byValue else byValue.or byText) with
  | some v => .ok v
  | none => .error .notPrimitive

def primitiveText : Guest → Units
  | .undefined => Units.ofString "undefined"
  | .null => Units.ofString "null"
  | .bool b => Units.ofString (if b then "true" else "false")
  | .number x => numberText x.value
  | .text u => u
  | _ => []

def primitiveNumber : Guest → Held
  | .null => .settle (.zero false)
  | .bool b => .settle (.ofInt (if b then 1 else 0))
  | .number x => x
  | .text u => .settle (numberOfText u)
  | _ => .float .nan

/-- The text of a value that the language has of its own. -/
def nativeText : Native → Units
  | .evaluator => Units.ofString "function eval() \x7b\n    [native code]\n\x7d"
  | .arguments => Units.ofString "[object Arguments]"

mutual

def toText : Guest → Except Thrown Units
  | .array xs => (elementTexts xs).map ((Units.ofChar ',').intercalate ·)
  | .object parent ms => (objectPrimitive true (.object parent ms)).map primitiveText
  | .helper h => .ok (Units.ofChars (Prelude.source h))
  | .native n => .ok (nativeText n)
  | v => .ok (primitiveText v)

/-- The texts of elements; nothing has an empty text inside an array. -/
def elementTexts : List Guest → Except Thrown (List Units)
  | [] => .ok []
  | .undefined :: vs => (elementTexts vs).map ([] :: ·)
  | .null :: vs => (elementTexts vs).map ([] :: ·)
  | v :: vs =>
    match toText v with
    | .error e => .error e
    | .ok u => (elementTexts vs).map (u :: ·)

end

def toPrimitive : Guest → Except Thrown Guest
  | .array xs => (toText (.array xs)).map .text
  | .object parent ms => objectPrimitive false (.object parent ms)
  | .helper h => (toText (.helper h)).map .text
  | .native n => .ok (.text (nativeText n))
  | v => .ok v

def toNumber (v : Guest) : Except Thrown Held := v.toPrimitive.map primitiveNumber

def isText : Guest → Bool
  | .text _ => true
  | _ => false

def add (a b : Guest) : Except Thrown Guest :=
  match a.toPrimitive with
  | .error e => .error e
  | .ok p =>
    match b.toPrimitive with
    | .error e => .error e
    | .ok q =>
      if p.isText || q.isText then .ok (.text (primitiveText p ++ primitiveText q))
      else .ok (.number (.combine Binary64.add (primitiveNumber p) (primitiveNumber q)))

def arithmetic (op : Held → Held → Held) (a b : Guest) : Except Thrown Guest :=
  match a.toNumber with
  | .error e => .error e
  | .ok x => b.toNumber.map fun y => .number (op x y)

/-- The quotient of two values; only numbers, as they are given, give an integer. -/
def divide (a b : Guest) : Except Thrown Guest :=
  match a, b with
  | .number x, .number y => .ok (.number (.combine Binary64.div x y))
  | a, b => arithmetic (fun x y => .float (x.value.div y.value)) a b

end Guest

end Reckoner.Snippet
