import Reckoner.Json.Writer
import Reckoner.Snippet.Convert

namespace Reckoner.Snippet

open Text

/-- A member placed by its index before the first of a greater index. -/
def placeByIndex (i : Nat) (p : List Char) : List (Nat × List Char) → List (Nat × List Char)
  | [] => [(i, p)]
  | (j, q) :: ps => if i < j then (i, p) :: (j, q) :: ps else (j, q) :: placeByIndex i p ps

/-- Written members: those named by indexes in ascending order, then the others. -/
def orderMembers (ms : List (Units × List Char)) : List (List Char) :=
  let indexed := ms.foldl (fun acc m => match arrayIndex? m.1 with
    | some i => placeByIndex i m.2 acc
    | none => acc) []
  let named := ms.filter fun m => (arrayIndex? m.1).isNone
  indexed.map Prod.snd ++ named.map Prod.snd

def quotedUnits (u : Units) : List Char := Json.string false (Units.toChars u)

def jsonNumber (x : Binary64) : List Char :=
  if x.isFinite then x.text .snippet else "null".toList

/-- The JSON text of what a helper returns when it stands for an object. -/
def jsonIdle : Helper → List Char
  | .sum => ['0']
  | .groupBy => ['\x7b', '\x7d']
  | _ => "null".toList

/-- The helper that an object names for its JSON text, if it names one. -/
def jsonHelper? (o : Guest) : Option Helper :=
  match o.find? (Units.ofString "toJSON") with
  | some (.helper h) => some h
  | _ => none

mutual

def json? : Guest → Option (List Char)
  | .undefined => none
  | .helper _ => none
  | .native .evaluator => none
  | .native .arguments => some ['\x7b', '\x7d']
  | .null => some "null".toList
  | .bool b => some (if b then "true" else "false").toList
  | .number x => some (jsonNumber x.value)
  | .text u => some (quotedUnits u)
  | .array xs => some ('[' :: ([','].intercalate (jsonElements xs) ++ [']']))
  | .object parent ms =>
    match jsonHelper? (.object parent ms) with
    | some h => some (jsonIdle h)
    | none => some ('\x7b' :: ([','].intercalate (orderMembers (jsonMembers ms)) ++ ['\x7d']))

def jsonElements : List Guest → List (List Char)
  | [] => []
  | v :: vs => (json? v).getD "null".toList :: jsonElements vs

def jsonMembers : List (Units × Guest) → List (Units × List Char)
  | [] => []
  | (k, v) :: ms =>
    match json? v with
    | none => jsonMembers ms
    | some p => (k, quotedUnits k ++ ':' :: p) :: jsonMembers ms

end

end Reckoner.Snippet
