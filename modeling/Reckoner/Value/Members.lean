import Reckoner.Failure
import Reckoner.Text.Within

namespace Reckoner.Value

def iterate : Value → Except Failure (List Value)
  | .str s => .ok (s.toList.map fun c => .str (String.singleton c))
  | .bytes bs => .ok (bs.map fun b => .int b.toNat)
  | .list xs => .ok xs
  | .tuple xs => .ok xs
  | .dict es => .ok (es.map Prod.fst)
  | .set => .ok [.int 1]
  | .cyclic => .ok [.cyclic]
  | v => .error (.notIterable v.kind)

mutual

/-- The kind of the first value inside a key that keeps it from being one. -/
def unhashable? : Value → Option String
  | .list _ => some "list"
  | .dict _ => some "dict"
  | .set => some "set"
  | .cyclic => some "list"
  | .tuple vs => unhashableAmong? vs
  | _ => Option.none

def unhashableAmong? : List Value → Option String
  | [] => Option.none
  | v :: vs => (unhashable? v).or (unhashableAmong? vs)

end

/-- The entries of a dictionary; another value lacks the member that reads them. -/
def entries (member : String) : Value → Except Failure Entries
  | .dict es => .ok es
  | v => .error (.noMember v.kind member)

/-- Whether a value holds another: as a part of a text, an element or a key. -/
def holds (container v : Value) : Except Failure Bool :=
  match container with
  | .list vs => .ok (vs.any (·.same v))
  | .tuple vs => .ok (vs.any (·.same v))
  | .set => .ok (Value.same (.int 1) v)
  | .cyclic => .ok (v matches .cyclic)
  | .dict es =>
    match unhashable? v with
    | some kind => .error (.unhashable kind)
    | Option.none => .ok (Entries.get? v es).isSome
  | .str s =>
    match v with
    | .str t => .ok (Text.mentions t s.toList)
    | v => .error (.notInText v.kind)
  | .bytes _ => .error .textForBytes
  | w => .error (.notContainer w.kind)

end Reckoner.Value
