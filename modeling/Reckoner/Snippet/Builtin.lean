import Reckoner.Snippet.Convert

namespace Reckoner.Snippet.Builtin

open Text

def addAll (total : Guest) : List Guest → Except Thrown Guest
  | [] => .ok total
  | v :: vs =>
    match total.add v with
    | .error e => .error e
    | .ok t => addAll t vs

def sumOf (xs : List Guest) : Except Thrown Guest := addAll (.ofNat 0) xs

def sum : Guest → Except Thrown Guest
  | .array xs => sumOf xs
  | _ => .ok (.ofNat 0)

def average : Guest → Except Thrown Guest
  | .array [] => .ok (.number (.float .nan))
  | .array xs =>
    match sumOf xs with
    | .error e => .error e
    | .ok total => total.divide (.ofNat xs.length)
  | _ => .ok (.number (.float .nan))

/-- The best number so far against the elements that follow; a NaN wins at once. -/
def best (beats : Binary64 → Binary64 → Bool) (x : Held) :
    List Guest → Except Thrown Held
  | [] => .ok x
  | v :: vs =>
    match v.toNumber with
    | .error e => .error e
    | .ok y =>
      if y.value.isNaN then .ok (.float .nan)
      else best beats (if beats y.value x.value then y else x) vs

/-- The first element, as a number, that no other beats. -/
def extreme (beats : Binary64 → Binary64 → Bool) : Guest → Except Thrown Guest
  | .array (v :: vs) =>
    match v.toNumber with
    | .error e => .error e
    | .ok x => (best beats x (v :: vs)).map .number
  | _ => .ok (.number (.float .nan))

def greatest (v : Guest) : Except Thrown Guest := extreme (fun y x => x.lt y) v

def least (v : Guest) : Except Thrown Guest := extreme (fun y x => y.lt x) v

def pathOf : Units → List Units
  | [] => [[]]
  | u :: us =>
    match pathOf us with
    | [] => [[u]]
    | k :: ks => if u = 46 then [] :: k :: ks else (u :: k) :: ks

/-- What a path finds in a value, key after key; nothing is found in nothing. -/
def lookup (v : Guest) : List Units → Guest
  | [] => v
  | key :: path =>
    match v with
    | .undefined => .undefined
    | .null => .undefined
    | v => lookup ((v.find? key).getD .undefined) path

def addTo (name : Units) (item : Guest) : List (Units × List Guest) → List (Units × List Guest)
  | [] => [(name, [item])]
  | (n, items) :: gs =>
    if n = name then (n, items ++ [item]) :: gs else (n, items) :: addTo name item gs

def groupInto (path : List Units) (gs : List (Units × List Guest)) :
    List Guest → Except Thrown (List (Units × List Guest))
  | [] => .ok gs
  | item :: items =>
    match (lookup item path).toText with
    | .error e => .error e
    | .ok name => groupInto path (addTo name item gs) items

/-- Groups as an object without a parent. -/
def groupsObject (gs : List (Units × List Guest)) : Guest :=
  .bare (gs.map fun g => (g.1, .array g.2))

def groupBy (items key : Guest) : Except Thrown Guest :=
  match items with
  | .array xs =>
    match key.toText with
    | .error e => .error e
    | .ok k => (groupInto (pathOf k) [] xs).map groupsObject
  | _ => .ok (.bare [])

def argument (args : List Guest) (i : Nat) : Guest := args[i]?.getD .undefined

def apply (h : Helper) (args : List Guest) : Except Thrown Guest :=
  match h with
  | .avg => average (argument args 0)
  | .sum => sum (argument args 0)
  | .max => greatest (argument args 0)
  | .min => least (argument args 0)
  | .groupBy => groupBy (argument args 0) (argument args 1)

end Reckoner.Snippet.Builtin
