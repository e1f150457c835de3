import Reckoner.Number.Numeral
import Reckoner.Number.Sum
import Reckoner.Value.Members

namespace Reckoner.Aggregate

def isWithoutElements : Value → Bool
  | .none => true
  | .str _ => true
  | .bytes _ => true
  | .dict _ => true
  | _ => false

def elements (v : Value) : Except Failure (List Value) :=
  if isWithoutElements v then .ok [] else v.iterate

inductive NoTotal where
  /-- One of them is no number, or infinities of both signs are among them. -/
  | undefined
  | failed (f : Failure)

def NoTotal.ofSum : Binary64.SumError → NoTotal
  | .overflow => .failed .sumOverflow
  | .opposed => .undefined

def term : Value → Except NoTotal Binary64
  | .bool b => .ok (.ofInt (if b then 1 else 0))
  | .int n =>
    let x := Binary64.ofInt n
    if x.isFinite then .ok x else .error (.failed .tooLargeForFloat)
  | .float x => .ok x
  | _ => .error .undefined

def addTerm (r : Binary64.Running) (v : Value) : Except NoTotal Binary64.Running :=
  match term v with
  | .error e => .error e
  | .ok x => (r.push x).mapError .ofSum

/-- The sum of the elements, rounded once. -/
def total (vs : List Value) : Except NoTotal Binary64 :=
  match vs.foldlM addTerm .empty with
  | .error e => .error e
  | .ok r => r.total.mapError .ofSum

/-- The mean of the elements; an empty list has none. -/
def average (v : Value) : Except Failure Binary64 :=
  match elements v with
  | .error e => .error e
  | .ok [] => .ok .nan
  | .ok vs =>
    match total vs with
    | .ok x => .ok (x.div (.ofInt vs.length))
    | .error .undefined => .ok .nan
    | .error (.failed e) => .error e

def isInteger : Value → Bool
  | .int _ => true
  | _ => false

inductive Number where
  | int (n : Int)
  | float (x : Binary64)
  deriving DecidableEq, Repr

namespace Number

def toValue : Number → Value
  | .int n => .int n
  | .float x => .float x

def isNaN : Number → Bool
  | .int _ => false
  | .float x => x.isNaN

def place? : Number → Option Binary64.Place
  | .int n => some (.ofInt n)
  | .float x => x.place?

/-- The exact order of integers and floating point numbers; a NaN is less than nothing. -/
def lt (x y : Number) : Bool :=
  match x.place?, y.place? with
  | some p, some q => p.lt q
  | _, _ => false

end Number

/-- The sum of the elements: an integer when all of them are integers. -/
def sum (v : Value) : Except Failure Number :=
  match elements v with
  | .error e => .error e
  | .ok vs =>
    match total vs with
    | .ok x =>
      if vs.all isInteger then .ok (.int (x.trunc?.getD 0)) else .ok (.float x)
    | .error .undefined => .ok (.float .nan)
    | .error (.failed e) => .error e

/-- A value read as a number: nothing and blank text are zero, and other values than numbers and
numerals are NaN. -/
def toNumber : Value → Number
  | .bool b => .int (if b then 1 else 0)
  | .int n => .int n
  | .float x => .float x
  | .none => .int 0
  | .str s =>
    let cs := Text.strip s.toList
    if cs.isEmpty then .int 0 else .float ((Numeral.float? cs).getD .nan)
  | _ => .float .nan

/-- The first of the numbers that none of the others beats; a NaN wins at once. -/
def extreme (beats : Number → Number → Bool) : List Number → Number
  | [] => .float .nan
  | x :: xs =>
    if (x :: xs).any Number.isNaN then .float .nan
    else xs.foldl (fun best y => if beats y best then y else best) x

def greatest (v : Value) : Except Failure Number :=
  (elements v).map fun vs => extreme (fun y best => best.lt y) (vs.map toNumber)

def least (v : Value) : Except Failure Number :=
  (elements v).map fun vs => extreme (fun y best => y.lt best) (vs.map toNumber)

end Reckoner.Aggregate
