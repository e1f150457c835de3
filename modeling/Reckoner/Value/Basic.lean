import Reckoner.Number.Binary64

namespace Reckoner

/-- The aggregates that a snippet may call by name. -/
inductive Helper where
  | avg
  | sum
  | max
  | min
  | groupBy
  deriving DecidableEq, Repr

namespace Helper

def all : List Helper := [avg, sum, max, min, groupBy]

def name : Helper → String
  | avg => "avg"
  | sum => "sum"
  | max => "max"
  | min => "min"
  | groupBy => "groupBy"

def ofName? (s : String) : Option Helper := all.find? fun h => h.name = s

theorem name_of_ofName? {s : String} {h : Helper} (hs : ofName? s = some h) : h.name = s := by
  simpa using List.find?_some hs

theorem ofName?_name (h : Helper) : ofName? h.name = some h := by
  cases h <;> decide

end Helper

/-- A value of a payload or an answer; the last five have no literal text. -/
inductive Value where
  | none
  | bool (b : Bool)
  | int (n : Int)
  | float (x : Binary64)
  /-- A text of whole characters: none is half of a surrogate pair. -/
  | str (s : String)
  | bytes (bs : List UInt8)
  | list (xs : List Value)
  | tuple (xs : List Value)
  | dict (entries : List (Value × Value))
  /-- What a look-up that finds nothing yields. -/
  | missing
  | helper (h : Helper)
  /-- A function of the caller's own. -/
  | function
  /-- The set whose only element is one. -/
  | set
  /-- A list that holds itself. -/
  | cyclic
  deriving Repr

namespace Value

instance : Inhabited Value := ⟨.none⟩

def kind : Value → String
  | .none => "NoneType"
  | .bool _ => "bool"
  | .int _ => "int"
  | .float _ => "float"
  | .str _ => "str"
  | .bytes _ => "bytes"
  | .list _ => "list"
  | .tuple _ => "tuple"
  | .dict _ => "dict"
  | .missing => "object"
  | .helper _ => "function"
  | .function => "function"
  | .set => "set"
  | .cyclic => "list"

/-- Nothing, zero and whatever is empty count as false. -/
def truthy : Value → Bool
  | .none => false
  | .bool b => b
  | .int n => n != 0
  | .float x => !x.isZero
  | .str s => !s.isEmpty
  | .bytes bs => !bs.isEmpty
  | .list xs => !xs.isEmpty
  | .tuple xs => !xs.isEmpty
  | .dict es => !es.isEmpty
  | _ => true

/-- The place of a number on the number line; a value that is no number has none. -/
def place? : Value → Option Binary64.Place
  | .bool b => some (.ofInt (if b then 1 else 0))
  | .int n => some (.ofInt n)
  | .float x => x.place?
  | _ => Option.none

mutual

/-- Equality of values: numbers by value, texts and containers by content. -/
def same : Value → Value → Bool
  | .none, .none => true
  | .str s, .str t => s = t
  | .bytes a, .bytes b => a = b
  | .list xs, .list ys => sameAll xs ys
  | .tuple xs, .tuple ys => sameAll xs ys
  | .dict es, .dict fs => es.length == fs.length && sameEntries es fs
  | .missing, .missing => true
  | .helper g, .helper h => g = h
  | .function, .function => true
  | .set, .set => true
  | .cyclic, .cyclic => true
  | x, y =>
    match x.place?, y.place? with
    | some p, some q => p = q
    | _, _ => false

def sameAll : List Value → List Value → Bool
  | [], [] => true
  | x :: xs, y :: ys => same x y && sameAll xs ys
  | _, _ => false

/-- Whether each entry has its key in the other entries, with an equal value. -/
def sameEntries : List (Value × Value) → List (Value × Value) → Bool
  | [], _ => true
  | (k, v) :: es, fs =>
    fs.any (fun f => same k f.1 && same v f.2) && sameEntries es fs

end

end Value

/-- The entries of a dictionary in the order in which their keys were first written. -/
abbrev Entries := List (Value × Value)

namespace Entries

def get? (key : Value) : Entries → Option Value
  | [] => none
  | (k, v) :: es => if k.same key then some v else get? key es

/-- A key set to a value: in its place if it is there, at the end otherwise. -/
def insert (key value : Value) : Entries → Entries
  | [] => [(key, value)]
  | (k, v) :: es => if k.same key then (k, value) :: es else (k, v) :: insert key value es

def insertAll (es : Entries) (news : Entries) : Entries :=
  news.foldl (fun acc e => acc.insert e.1 e.2) es

def ofList (es : Entries) : Entries := insertAll [] es

def field? (key : String) (es : Entries) : Option Value := es.get? (.str key)

end Entries

end Reckoner
