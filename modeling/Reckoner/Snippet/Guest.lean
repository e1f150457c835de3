import Reckoner.Number.Layout
import Reckoner.Number.Numeral
import Reckoner.Snippet.Held
import Reckoner.Snippet.Prelude
import Reckoner.Snippet.Thrown

namespace Reckoner.Snippet

open Text

/-- Values that the language has of its own. -/
inductive Native where
  /-- The function that evaluates a text. -/
  | evaluator
  /-- What the function around a snippet was called with, which is nothing. -/
  | arguments
  deriving DecidableEq, Repr

inductive Guest where
  | undefined
  | null
  | bool (b : Bool)
  | number (x : Held)
  | text (u : Units)
  | array (xs : List Guest)
  /-- An object; its parent is the usual one, none when that is null, or another object. -/
  | object (parent : Option Guest) (members : List (Units × Guest))
  | helper (h : Helper)
  | native (n : Native)
  deriving Repr

namespace Guest

instance : Inhabited Guest := ⟨.undefined⟩

def ofString (s : String) : Guest := .text (Units.ofString s)

def ofNat (n : Nat) : Guest := .number (.settle (.ofInt n))

def bare (members : List (Units × Guest)) : Guest := .object (some .null) members

end Guest

def member? (key : Units) : List (Units × Guest) → Option Guest
  | [] => none
  | (k, v) :: ms => if k = key then some v else member? key ms

/-- Members with a key set to a value: in its place if it is there, at the end otherwise. -/
def setMember (key : Units) (v : Guest) : List (Units × Guest) → List (Units × Guest)
  | [] => [(key, v)]
  | (k, w) :: ms => if k = key then (k, v) :: ms else (k, w) :: setMember key v ms

theorem member?_setMember_self (key : Units) (v : Guest) (ms : List (Units × Guest)) :
    member? key (setMember key v ms) = some v := by
  induction ms with
  | nil => simp [setMember, member?]
  | cons m ms ih =>
    obtain ⟨k, w⟩ := m
    by_cases h : k = key
    · simp [setMember, member?, h]
    · simp [setMember, member?, h, ih]

theorem member?_setMember_of_ne {key other : Units} (h : key ≠ other) (v : Guest)
    (ms : List (Units × Guest)) : member? other (setMember key v ms) = member? other ms := by
  induction ms with
  | nil => simp [setMember, member?, h]
  | cons m ms ih =>
    obtain ⟨k, w⟩ := m
    by_cases hk : k = key
    · subst hk
      simp [setMember, member?, h]
    · simp [setMember, member?, hk, ih]

def unitDigit? (u : UInt16) : Option Nat :=
  if 48 ≤ u.toNat ∧ u.toNat ≤ 57 then some (u.toNat - 48) else none

/-- The index that a key is: a number below `2 ^ 32 - 1` without needless zeros. -/
def arrayIndex? (key : Units) : Option Nat :=
  match key.mapM unitDigit? with
  | none => none
  | some [] => none
  | some [0] => some 0
  | some (0 :: _) => none
  | some ds =>
    if ds.length ≤ 10 && Numeral.natOf ds < 0xFFFFFFFF then some (Numeral.natOf ds) else none

def arity : Helper → Nat
  | .groupBy => 2
  | _ => 1

namespace Guest

/-- What an element list holds under a key: its length, or the element of an index. -/
def indexed (length : Nat) (element : Nat → Option Guest) (key : Units) : Option Guest :=
  if key = Units.ofString "length" then some (ofNat length)
  else (arrayIndex? key).bind element

def helperMember (h : Helper) (key : Units) : Option Guest :=
  if key = Units.ofString "name" then some (ofString h.name)
  else if key = Units.ofString "length" then some (ofNat (arity h))
  else if key = Units.ofString "prototype" then some (.object none [])
  else none

def nativeMember : Native → Units → Option Guest
  | .evaluator, key =>
    if key = Units.ofString "name" then some (ofString "eval")
    else if key = Units.ofString "length" then some (ofNat 1)
    else none
  | .arguments, key => if key = Units.ofString "length" then some (ofNat 0) else none

mutual

def find? (key : Units) : Guest → Option Guest
  | .text u => indexed u.length (fun i => u[i]?.map fun c => .text [c]) key
  | .array xs => indexed xs.length (xs[·]?) key
  | .helper h => helperMember h key
  | .native n => nativeMember n key
  | .object parent members => (member? key members).or (inherited? key parent)
  | _ => none

def inherited? (key : Units) : Option Guest → Option Guest
  | none => none
  | some p => find? key p

end

/-- A member read from a value; nothing has no members, and a missing one is undefined. -/
def get (v : Guest) (key : Units) : Except Thrown Guest :=
  match v with
  | .undefined => .error (.noMembers key false)
  | .null => .error (.noMembers key true)
  | v => .ok ((v.find? key).getD .undefined)

mutual

/-- Whether the last parent of a value is a usual one. -/
def hasUsualRoot : Guest → Bool
  | .null => false
  | .object parent _ => rootIsUsual parent
  | _ => true

def rootIsUsual : Option Guest → Bool
  | none => true
  | some p => hasUsualRoot p

end

def isParent : Guest → Bool
  | .null => true
  | .array _ => true
  | .object _ _ => true
  | .helper _ => true
  | .native _ => true
  | _ => false

def typeName : Guest → String
  | .undefined => "undefined"
  | .null => "object"
  | .bool _ => "boolean"
  | .number _ => "number"
  | .text _ => "string"
  | .array _ => "object"
  | .object _ _ => "object"
  | .helper _ => "function"
  | .native .evaluator => "function"
  | .native .arguments => "object"

end Guest

end Reckoner.Snippet
