import Reckoner.Number.Binary64
import Reckoner.Text.Blank
import Reckoner.Text.Digit

namespace Reckoner.Numeral

open Text

/-- White space that may surround a numeral; the information separators may not. -/
def isMargin (c : Char) : Bool := isBlank c && !(28 ≤ c.toNat && c.toNat ≤ 31)

/-- A character of a numeral: a decimal digit of any script by its value, or another. -/
inductive Mark where
  | digit (d : Nat)
  | other (c : Char)
  deriving DecidableEq, Repr

def Mark.ofChar (c : Char) : Mark :=
  match digitValue? c with
  | some d => .digit d
  | none => .other c

def Mark.isDigit : Mark → Bool
  | .digit _ => true
  | .other _ => false

/-- Whether every underscore stands between two digits; the flag tells of a digit before. -/
def underscoresApart : Bool → List Mark → Bool
  | _, [] => true
  | before, m :: rest =>
    if m = .other '_' then before && (rest.head?.any Mark.isDigit) && underscoresApart false rest
    else underscoresApart m.isDigit rest

/-- The marks of a text without underscores, if each of these stands between digits. -/
def marks? (cs : List Char) : Option (List Mark) :=
  let ms := cs.map Mark.ofChar
  if underscoresApart false ms then some (ms.filter (· ≠ .other '_')) else none

def digitRun : List Mark → List Nat × List Mark
  | .digit d :: rest => (d :: (digitRun rest).1, (digitRun rest).2)
  | rest => ([], rest)

def natOf (ds : List Nat) : Nat := ds.foldl (fun n d => 10 * n + d) 0

def sign : List Mark → Bool × List Mark
  | .other '-' :: rest => (true, rest)
  | .other '+' :: rest => (false, rest)
  | rest => (false, rest)

/-- The most digits that the numeral of an integer may have. -/
def digitLimit : Nat := 4300

inductive IntError where
  | malformed
  | tooLong (digits : Nat)
  deriving DecidableEq, Repr

def int (cs : List Char) : Except IntError Int :=
  match marks? (trim isMargin cs) with
  | none => .error .malformed
  | some ms =>
    let (negative, body) := sign ms
    match digitRun body with
    | ([], _) => .error .malformed
    | (ds, []) =>
      if digitLimit < ds.length then .error (.tooLong ds.length)
      else .ok (if negative then -(natOf ds : Int) else natOf ds)
    | (_, _ :: _) => .error .malformed

def letters? (ms : List Mark) : Option (List Char) :=
  ms.mapM fun m => match m with
    | .other c => if c.isAlpha then some c.toLower else none
    | .digit _ => none

def exponent? : List Mark → Option Int
  | [] => some 0
  | .other c :: rest =>
    if c = 'e' ∨ c = 'E' then
      let (negative, body) := sign rest
      match digitRun body with
      | (d :: ds, []) => some (if negative then -(natOf (d :: ds) : Int) else natOf (d :: ds))
      | _ => none
    else none
  | _ => none

/-- Digits with at most one point, at least one digit, and an exponent. -/
def magnitude? (negative : Bool) (ms : List Mark) : Option Binary64 :=
  let (whole, rest) := digitRun ms
  let (fraction, rest) := match rest with
    | Mark.other '.' :: rest => digitRun rest
    | rest => ([], rest)
  if whole.isEmpty && fraction.isEmpty then none
  else (exponent? rest).map fun e =>
    Binary64.ofDecimal negative (natOf (whole ++ fraction)) (e - fraction.length)

/-- The floating point number nearest to what a text writes, infinities and NaN by name. -/
def float? (cs : List Char) : Option Binary64 := do
  let ms ← marks? (trim isMargin cs)
  let (negative, body) := sign ms
  match letters? body with
  | some ['i', 'n', 'f'] => some (.inf negative)
  | some ['i', 'n', 'f', 'i', 'n', 'i', 't', 'y'] => some (.inf negative)
  | some ['n', 'a', 'n'] => some .nan
  | _ => magnitude? negative body

end Reckoner.Numeral
