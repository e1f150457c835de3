import Reckoner.Text.Units

namespace Reckoner.Snippet

open Text

inductive Malformed where
  /-- A snippet outside a function returns. -/
  | returnOutside
  /-- A constant is declared twice. -/
  | redefinition
  /-- A constant has a reserved name. -/
  | nameExpected
  | letName
  | undefinedDeclared
  | duplicateParent
  | number
  | string
  | escape
  | comment
  /-- A character that starts no token. -/
  | character
  /-- A number sign without a name after it. -/
  | hiddenStart
  | reservedName (name : List Char)
  | propertyName
  | fieldName
  | expecting (c : Char)
  | unexpected (text : List Char)
  deriving DecidableEq, Repr

inductive Thrown where
  | malformed (m : Malformed)
  /-- A name that nothing declares. -/
  | undefinedName (name : List Char)
  /-- A constant that is read before its declaration. -/
  | uninitialized (name : List Char)
  /-- A member is read of nothing: of null, or of undefined. -/
  | noMembers (key : Units) (ofNull : Bool)
  | notFunction
  /-- A constant that an earlier program has declared already. -/
  | redeclared (name : List Char)
  /-- Texts are evaluated one inside the other without end. -/
  | stackOverflow
  /-- An object that gives neither a text nor a number. -/
  | notPrimitive
  deriving DecidableEq, Repr

namespace Malformed

def message : Malformed → List Char
  | returnOutside => "return not in a function".toList
  | redefinition => "invalid redefinition of lexical identifier".toList
  | nameExpected => "variable name expected".toList
  | letName => "'let' is not a valid lexical identifier".toList
  | undefinedDeclared => "invalid lexical variable name".toList
  | duplicateParent => "duplicate __proto__ property name".toList
  | number => "invalid number literal".toList
  | string => "unexpected end of string".toList
  | escape => "malformed escape sequence in string literal".toList
  | comment => "unexpected end of comment".toList
  | character => "unexpected character".toList
  | hiddenStart => "invalid first character of private name".toList
  | reservedName name => '\'' :: (name ++ "' is a reserved identifier".toList)
  | propertyName => "invalid property name".toList
  | fieldName => "expecting field name".toList
  | expecting c => "expecting '".toList ++ [c, '\'']
  | unexpected text => "unexpected token in expression: '".toList ++ text ++ ['\'']

end Malformed

def unitWidth (u : UInt16) : Nat :=
  if u.toNat < 0x80 then 1 else if u.toNat < 0x800 then 2 else 3

/-- Units while fewer than `room` bytes are taken. -/
def takeBytes (room : Nat) : Units → Units
  | [] => []
  | u :: us => if room = 0 then [] else u :: takeBytes (room - unitWidth u) us

/-- The most bytes of a name beyond ASCII that an error shows whole. -/
def nameRoom : Nat := 58

/-- A name as errors show it: up to a null character, and cut short unless it is ASCII. -/
def shownName (name : Units) : List Char :=
  let kept := if name.all (·.toNat < 0x80) then name else takeBytes nameRoom name
  Units.toChars (kept.takeWhile (· ≠ 0))

namespace Thrown

def parts : Thrown → String × List Char
  | malformed m => ("SyntaxError", m.message)
  | undefinedName name =>
    ("ReferenceError", '\'' :: (shownName (Units.ofChars name) ++ "' is not defined".toList))
  | uninitialized name =>
    ("ReferenceError", shownName (Units.ofChars name) ++ " is not initialized".toList)
  | noMembers key ofNull =>
    ("TypeError", "cannot read property '".toList ++ shownName key ++ "' of ".toList ++
      (if ofNull then "null" else "undefined").toList)
  | notFunction => ("TypeError", "not a function".toList)
  | redeclared name =>
    ("SyntaxError", "redeclaration of '".toList ++ shownName (Units.ofChars name) ++ ['\''])
  | stackOverflow => ("InternalError", "stack overflow".toList)
  | notPrimitive => ("TypeError", "toPrimitive".toList)

def room : Nat := 255

def text (t : Thrown) : List Char :=
  t.parts.1.toList ++ ':' :: ' ' :: t.parts.2.take room

def message (t : Thrown) : String := String.ofList t.text

end Thrown

end Reckoner.Snippet
