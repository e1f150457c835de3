import Reckoner.Logging.Level
import Reckoner.Value.Integer

namespace Reckoner.Logging

/-- A record: who logs what at which level, and when, in seconds since the start of 1970. -/
structure Record where
  name : String
  level : Int
  message : String
  args : List Value
  created : Int
  deriving Repr

def padded (width : Nat) (n : Nat) : List Char :=
  List.replicate (width - (natText n).length) '0' ++ natText n

structure Date where
  year : Int
  month : Nat
  day : Nat
  deriving DecidableEq, Repr

/-- The date of a count of days since the start of 1970; years are taken from March on. -/
def Date.ofDays (days : Int) : Date :=
  let z := days + 719468
  let era := z.fdiv 146097
  let dayOfEra := (z - era * 146097).toNat
  let yearOfEra :=
    (dayOfEra - dayOfEra / 1460 + dayOfEra / 36524 - dayOfEra / 146096) / 365
  let dayOfYear := dayOfEra - (365 * yearOfEra + yearOfEra / 4 - yearOfEra / 100)
  let shifted := (5 * dayOfYear + 2) / 153
  let month := if shifted < 10 then shifted + 3 else shifted - 9
  let year := (yearOfEra : Int) + era * 400 + (if month ≤ 2 then 1 else 0)
  ⟨year, month, dayOfYear - (153 * shifted + 2) / 5 + 1⟩

/-- A moment in seconds since the start of 1970, written in universal time. -/
def moment (seconds : Int) : List Char :=
  let date := Date.ofDays (seconds.fdiv 86400)
  let second := (seconds.fmod 86400).toNat
  intText date.year ++ '-' :: (padded 2 date.month ++ '-' :: (padded 2 date.day ++
    ' ' :: (padded 2 (second / 3600) ++ ':' :: (padded 2 (second / 60 % 60) ++
      ':' :: padded 2 (second % 60)))))

def fill : List Char → List Value → Option (List Char)
  | [], [] => some []
  | [], _ :: _ => none
  | '%' :: '%' :: cs, vs => (fill cs vs).map ('%' :: ·)
  | '%' :: 's' :: cs, v :: vs => (fill cs vs).map (v.text ++ ·)
  | '%' :: 'r' :: cs, v :: vs => (fill cs vs).map (v.shown ++ ·)
  | '%' :: 'd' :: cs, v :: vs =>
    match v with
    | .str _ => none
    | v =>
      match v.toInteger with
      | .ok n => (fill cs vs).map (intText n ++ ·)
      | .error _ => none
  | '%' :: _, _ => none
  | c :: cs, vs => (fill cs vs).map (c :: ·)

/-- Whether arguments are a single dictionary with entries, which a message need not mention. -/
def isOptional : List Value → Bool
  | [.dict es] => !es.isEmpty
  | _ => false

/-- What a record says; without arguments the message stands as it is. -/
def Record.text? (r : Record) : Option (List Char) :=
  if r.args.isEmpty then some r.message.toList
  else
    match fill r.message.toList r.args with
    | some cs => some cs
    | none => if isOptional r.args then fill r.message.toList [] else none

def Record.line? (r : Record) : Option (List Char) :=
  r.text?.map fun text =>
    moment r.created ++ ' ' :: (levelText r.level ++ " [".toList ++ r.name.toList ++
      "] ".toList ++ text)

end Reckoner.Logging
