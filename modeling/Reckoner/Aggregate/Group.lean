import Reckoner.Aggregate.Number
import Reckoner.Value.Integer

namespace Reckoner.Aggregate

/-- The label of a floating point number: whole ones have no point and all their digits. -/
def floatLabel (x : Binary64) : List Char :=
  match x with
  | .nan => "NaN".toList
  | .inf s => (if s then "-Infinity" else "Infinity").toList
  | .fin _ _ => if x.isWhole then intText (x.trunc?.getD 0) else x.text .answer

mutual

def label : Value → List Char
  | .missing => "undefined".toList
  | .none => "null".toList
  | .bool b => (if b then "true" else "false").toList
  | .float x => floatLabel x
  | .list xs => [','].intercalate (elementLabels xs)
  | .tuple xs => [','].intercalate (elementLabels xs)
  | .dict _ => "[object Object]".toList
  | v => v.text

/-- The labels of elements; nothing has an empty label inside a list. -/
def elementLabels : List Value → List (List Char)
  | [] => []
  | .none :: vs => [] :: elementLabels vs
  | v :: vs => label v :: elementLabels vs

end

theorem label_int (n : Int) : label (.int n) = intText n := rfl

theorem label_str (s : String) : label (.str s) = s.toList := rfl

theorem label_list (xs : List Value) :
    label (.list xs) = [','].intercalate (elementLabels xs) := rfl

theorem label_dict (es : Entries) : label (.dict es) = "[object Object]".toList := rfl

def index (key : List Char) : Except Failure Nat := (integerOfText key).map Int.toNat

/-- The element that a key finds: keys made of digits are indexes. -/
def element (xs : List Value) (key : List Char) : Except Failure Value :=
  if Text.allDigits key then (index key).map fun i => xs[i]?.getD .missing else .ok .missing

def member (v : Value) (key : List Char) : Except Failure Value :=
  match v with
  | .dict es => .ok ((Entries.get? (.str (String.ofList key)) es).getD .missing)
  | .list xs => element xs key
  | .tuple xs => element xs key
  | .cyclic => element [.cyclic] key
  | _ => .ok .missing

def isAbsent : Value → Bool
  | .none => true
  | .missing => true
  | _ => false

/-- What a path finds in a value, key after key. -/
def lookup (v : Value) : List (List Char) → Except Failure Value
  | [] => .ok v
  | key :: path =>
    if isAbsent v then .ok .missing
    else
      match member v key with
      | .error e => .error e
      | .ok w => lookup w path

/-- Named groups in the order of their first items. -/
abbrev Groups := List (List Char × List Value)

namespace Groups

def add (name : List Char) (item : Value) : Groups → Groups
  | [] => [(name, [item])]
  | (n, items) :: gs =>
    if n = name then (n, items ++ [item]) :: gs else (n, items) :: add name item gs

def names (gs : Groups) : List (List Char) := gs.map Prod.fst

theorem names_add (name : List Char) (item : Value) (gs : Groups) :
    (gs.add name item).names = if name ∈ gs.names then gs.names else gs.names ++ [name] := by
  induction gs with
  | nil => simp [add, names]
  | cons g gs ih =>
    obtain ⟨n, items⟩ := g
    simp only [names] at ih
    by_cases h : n = name
    · simp [add, names, h]
    · have h' : ¬ name = n := fun e => h e.symm
      by_cases hm : name ∈ gs.map Prod.fst
      · simp [add, names, h, hm, ih]
      · simp [add, names, h, h', hm, ih]

def toValue (gs : Groups) : Value :=
  .dict (gs.map fun g => (.str (String.ofList g.1), .list g.2))

end Groups

def pathOf (key : Value) : List (List Char) := Text.splitAt '.' key.text

mutual

/-- Whether a label can be written: no integer in it has more digits than an integer may have. -/
def hasLabel : Value → Bool
  | .int n => (decimalDigits n.natAbs).length ≤ Numeral.digitLimit
  | .list xs => haveLabels xs
  | .tuple xs => haveLabels xs
  | _ => true

def haveLabels : List Value → Bool
  | [] => true
  | v :: vs => hasLabel v && haveLabels vs

end

theorem haveLabels_iff (vs : List Value) : haveLabels vs = true ↔ ∀ v ∈ vs, hasLabel v = true := by
  induction vs with
  | nil => simp [haveLabels]
  | cons v vs ih => simp [haveLabels, ih]

/-- An item's group name: the label of what the path finds in it, if it can be written. -/
def groupName (path : List (List Char)) (item : Value) : Except Failure (List Char) :=
  match lookup item path with
  | .error e => .error e
  | .ok v => if hasLabel v then .ok (label v) else .error (.tooManyDigits none)

def groupInto (path : List (List Char)) (gs : Groups) : List Value → Except Failure Groups
  | [] => .ok gs
  | item :: items =>
    match groupName path item with
    | .error e => .error e
    | .ok name => groupInto path (gs.add name item) items

def groupBy (items key : Value) : Except Failure Groups :=
  match elements items with
  | .error e => .error e
  | .ok vs => groupInto (pathOf key) [] vs

end Reckoner.Aggregate
