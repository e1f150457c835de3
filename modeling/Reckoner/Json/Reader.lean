import Reckoner.Json.Error
import Reckoner.Number.Numeral
import Reckoner.Text.Hex
import Reckoner.Value.Basic

namespace Reckoner.Json

/-- A problem with as many characters left as when it was met, or too many digits. -/
inductive Stop where
  | at (problem : Problem) (left : Nat)
  | tooManyDigits (digits : Nat)
  deriving DecidableEq, Repr

def isSpace (c : Char) : Bool := c == ' ' || c == '\t' || c == '\n' || c == '\r'

def skipSpace (cs : List Char) : List Char := cs.dropWhile isSpace

def escaped? : Char → Option Char
  | '"' => some '"'
  | '\\' => some '\\'
  | '/' => some '/'
  | 'b' => some '\x08'
  | 'f' => some '\x0c'
  | 'n' => some '\n'
  | 'r' => some '\r'
  | 't' => some '\t'
  | _ => none

def hexFour? (a b c d : Char) : Option Nat := do
  let a ← Text.hexValue? a
  let b ← Text.hexValue? b
  let c ← Text.hexValue? c
  let d ← Text.hexValue? d
  return ((a * 16 + b) * 16 + c) * 16 + d

def isHigh (n : Nat) : Bool := 0xD800 ≤ n && n < 0xDC00

def isLow (n : Nat) : Bool := 0xDC00 ≤ n && n < 0xE000

/-- The character of a code unit. Texts have no place for half of a pair on its own: it becomes
U+FFFD, and what is read so is not what was written. -/
def unitChar (n : Nat) : Char := if isHigh n || isLow n then '\uFFFD' else Char.ofNat n

def pairChar (high low : Nat) : Char :=
  Char.ofNat (0x10000 + (high - 0xD800) * 0x400 + (low - 0xDC00))

def consTo (c : Char) (r : Except Stop (List Char × List Char)) :
    Except Stop (List Char × List Char) := r.map fun (s, rest) => (c :: s, rest)

/-- The rest of a string up to its closing quote; `opened` is what was left at its opening one. -/
def stringTail (opened : Nat) : List Char → Except Stop (List Char × List Char)
  | [] => .error (.at .unterminated opened)
  | ['\\'] => .error (.at .unterminated opened)
  | '\\' :: 'u' :: a :: b :: c :: d :: more =>
    match hexFour? a b c d, more with
    | none, _ => .error (.at .unicode (more.length + 5))
    | _, [] => .error (.at .unicode 5)
    | some n, '\\' :: 'u' :: e :: f :: g :: h :: i :: after =>
      if isHigh n then
        match hexFour? e f g h with
        | none => .error (.at .unicode (after.length + 6))
        | some m =>
          if isLow m then consTo (pairChar n m) (stringTail opened (i :: after))
          else
            consTo (unitChar n) (stringTail opened ('\\' :: 'u' :: e :: f :: g :: h :: i :: after))
      else consTo (unitChar n) (stringTail opened ('\\' :: 'u' :: e :: f :: g :: h :: i :: after))
    | some n, x :: more => consTo (unitChar n) (stringTail opened (x :: more))
  | '\\' :: c :: rest =>
    if c = 'u' then .error (.at .unicode (rest.length + 1))
    else match escaped? c with
      | some x => consTo x (stringTail opened rest)
      | none => .error (.at .escape (rest.length + 2))
  | c :: rest =>
    if c = '"' then .ok ([], rest)
    else if c.toNat ≤ 0x1F then .error (.at .control (rest.length + 1))
    else consTo c (stringTail opened rest)

def isDigit (c : Char) : Bool := '0' ≤ c && c ≤ '9'

def digits (cs : List Char) : List Char × List Char := (cs.takeWhile isDigit, cs.dropWhile isDigit)

def natOf (ds : List Char) : Nat := ds.foldl (fun n c => 10 * n + (c.toNat - 48)) 0

/-- The digits of a whole number: a lone zero, or digits that do not start with one. -/
def whole? : List Char → Option (List Char × List Char)
  | [] => none
  | c :: rest =>
    if c = '0' then some (['0'], rest)
    else if isDigit c then some (c :: (digits rest).1, (digits rest).2)
    else none

/-- A point and at least one digit, or nothing. -/
def fraction : List Char → List Char × List Char
  | '.' :: cs => if (digits cs).1.isEmpty then ([], '.' :: cs) else digits cs
  | cs => ([], cs)

/-- A signed exponent with at least one digit, or nothing. -/
def exponent? (cs : List Char) : Option (Int × List Char) :=
  match cs with
  | [] => none
  | e :: rest =>
    if e = 'e' || e = 'E' then
      let (negative, body) := match rest with
        | '-' :: body => (true, body)
        | '+' :: body => (false, body)
        | body => (false, body)
      let (ds, after) := digits body
      if ds.isEmpty then none
      else some (if negative then -(natOf ds : Int) else natOf ds, after)
    else none

def unsigned? (negative : Bool) (cs : List Char) : Option (Except Stop (Value × List Char)) := do
  let (ds, rest) ← whole? cs
  let (fs, rest) := fraction rest
  match fs.isEmpty, exponent? rest with
  | true, none =>
    if Numeral.digitLimit < ds.length then some (.error (.tooManyDigits ds.length))
    else some (.ok (.int (if negative then -(natOf ds : Int) else natOf ds), rest))
  | _, some (e, after) =>
    some (.ok (.float (.ofDecimal negative (natOf (ds ++ fs)) (e - fs.length)), after))
  | false, none => some (.ok (.float (.ofDecimal negative (natOf (ds ++ fs)) (-fs.length)), rest))

def number (cs : List Char) : Except Stop (Value × List Char) :=
  let read := match cs with
    | '-' :: rest => unsigned? true rest
    | _ => unsigned? false cs
  read.getD (.error (.at .value cs.length))

def word? : List Char → Option (Value × List Char)
  | 'n' :: 'u' :: 'l' :: 'l' :: rest => some (.none, rest)
  | 't' :: 'r' :: 'u' :: 'e' :: rest => some (.bool true, rest)
  | 'f' :: 'a' :: 'l' :: 's' :: 'e' :: rest => some (.bool false, rest)
  | 'N' :: 'a' :: 'N' :: rest => some (.float .nan, rest)
  | 'I' :: 'n' :: 'f' :: 'i' :: 'n' :: 'i' :: 't' :: 'y' :: rest => some (.float (.inf false), rest)
  | '-' :: 'I' :: 'n' :: 'f' :: 'i' :: 'n' :: 'i' :: 't' :: 'y' :: rest =>
    some (.float (.inf true), rest)
  | _ => none

mutual

/-- A value at the front of the text; the fuel exceeds the length of the text. -/
def value : Nat → List Char → Except Stop (Value × List Char)
  | 0, cs => .error (.at .value cs.length)
  | fuel + 1, cs =>
    match cs with
    | '"' :: rest => (stringTail cs.length rest).map fun (s, rest) => (.str (String.ofList s), rest)
    | '\x7b' :: rest =>
      match skipSpace rest with
      | '\x7d' :: rest => .ok (.dict [], rest)
      | rest => (members fuel [] rest).map fun (es, rest) => (.dict es, rest)
    | '[' :: rest =>
      match skipSpace rest with
      | ']' :: rest => .ok (.list [], rest)
      | rest => (elements fuel rest).map fun (xs, rest) => (.list xs, rest)
    | _ =>
      match word? cs with
      | some found => .ok found
      | none => number cs

def elements : Nat → List Char → Except Stop (List Value × List Char)
  | 0, cs => .error (.at .value cs.length)
  | fuel + 1, cs => do
    let (x, rest) ← value fuel cs
    match skipSpace rest with
    | ']' :: rest => .ok ([x], rest)
    | ',' :: rest =>
      let (xs, rest) ← elements fuel (skipSpace rest)
      .ok (x :: xs, rest)
    | rest => .error (.at .comma rest.length)

/-- The members of an object up to its closing brace, written over those read before. -/
def members : Nat → Entries → List Char → Except Stop (Entries × List Char)
  | 0, _, cs => .error (.at .value cs.length)
  | fuel + 1, es, cs =>
    match cs with
    | '"' :: rest => do
      let (k, rest) ← stringTail cs.length rest
      match skipSpace rest with
      | ':' :: rest =>
        let (v, rest) ← value fuel (skipSpace rest)
        let es := es.insert (.str (String.ofList k)) v
        match skipSpace rest with
        | '\x7d' :: rest => .ok (es, rest)
        | ',' :: rest => members fuel es (skipSpace rest)
        | rest => .error (.at .comma rest.length)
      | rest => .error (.at .colon rest.length)
    | _ => .error (.at .name cs.length)

end

def Stop.toError (cs : List Char) : Stop → Error
  | .at problem left => .after problem (cs.take (cs.length - left))
  | .tooManyDigits n => .tooManyDigits n

/-- A whole text as one value, or what is wrong with it. -/
def read (cs : List Char) : Except Error Value :=
  if cs.head? = some '\uFEFF' then .error (.after .byteOrderMark [])
  else
    let cs' := skipSpace cs
    match value (2 * cs'.length + 2) cs' with
    | .error stop => .error (stop.toError cs)
    | .ok (v, rest) =>
      match skipSpace rest with
      | [] => .ok v
      | rest => .error ((Stop.at .extra rest.length).toError cs)

def read? (s : String) : Option Value := (read s.toList).toOption

end Reckoner.Json
