import Reckoner.Snippet.Numeric
import Reckoner.Snippet.Thrown
import Reckoner.Text.Identifier

namespace Reckoner.Snippet

open Text

inductive Token where
  | number (x : Binary64)
  | text (u : Units)
  | name (cs : List Char)
  /-- A keyword that is written with escapes, which is neither a keyword nor a name. -/
  | reserved (cs : List Char)
  /-- A name after a number sign. -/
  | hidden (cs : List Char)
  /-- Two signs, for one more or one less. -/
  | step (c : Char)
  | mark (c : Char)
  | unreadable (m : Malformed)
  deriving DecidableEq, Repr

/-- A token, and whether a line ends between it and the token before. -/
structure Lexeme where
  token : Token
  broken : Bool
  deriving DecidableEq, Repr

def keywords : List String :=
  ["null", "false", "true", "if", "else", "return", "var", "this", "delete", "void", "typeof",
   "new", "in", "instanceof", "do", "while", "for", "break", "continue", "switch", "case",
   "default", "throw", "try", "catch", "finally", "function", "debugger", "with", "class", "const",
   "enum", "export", "extends", "import", "super"]

def isKeyword (cs : List Char) : Bool := keywords.contains (String.ofList cs)

def endsLine (c : Char) : Bool := c = '\n' || c = '\r' || c = '\u2028' || c = '\u2029'

/-- A text after a comment that ends in `*` and `/`, and whether a line ends in the comment. -/
def afterComment (broken : Bool) : List Char → Option (Bool × List Char)
  | '*' :: '/' :: cs => some (broken, cs)
  | c :: cs => afterComment (broken || endsLine c) cs
  | [] => none

/-- A text after space and comments at its front, and whether a line ends there. -/
def afterSpace : Nat → Bool → List Char → Except Malformed (Bool × List Char)
  | 0, broken, cs => .ok (broken, cs)
  | fuel + 1, broken, cs =>
    match cs with
    | '/' :: '/' :: rest => afterSpace fuel broken (rest.dropWhile fun c => !endsLine c)
    | '/' :: '*' :: rest =>
      match afterComment broken rest with
      | some (broken, rest) => afterSpace fuel broken rest
      | none => .error .comment
    | c :: rest =>
      if isSpace c then afterSpace fuel (broken || endsLine c) rest else .ok (broken, cs)
    | [] => .ok (broken, [])

def hexDigits? (n : Nat) (cs : List Char) : Option (Nat × List Char) :=
  let ds := cs.take n
  if ds.length = n then
    (ds.mapM hexValue?).map fun vs => (vs.foldl (fun a d => 16 * a + d) 0, cs.drop n)
  else none

/-- A code point as units; a unit of a pair may stand alone. -/
def unitsOfCode (n : Nat) : Units :=
  if n < 0x10000 then [UInt16.ofNat n] else Units.ofChar (Char.ofNat n)

def greatestCode : Nat := 0x10FFFF

/-- A code point in braces or of `n` hexadecimal digits, and what follows it. -/
def code? (n : Nat) : List Char → Option (Nat × List Char)
  | '\x7b' :: cs =>
    let ds := cs.takeWhile fun c => (hexValue? c).isSome
    match hexDigits? ds.length cs with
    | some (v, '\x7d' :: rest) => if ds.isEmpty || greatestCode < v then none else some (v, rest)
    | _ => none
  | cs => hexDigits? n cs

/-- Octal digits after a backslash as a number below 256, and what follows them. A third digit
belongs to the number when the first two are below 32. -/
def octal (first : Nat) (cs : List Char) : Nat × List Char :=
  match cs with
  | [] => (first, [])
  | c :: cs =>
    match digitIn? 8 c with
    | none => (first, c :: cs)
    | some second =>
      let n := 8 * first + second
      match cs with
      | [] => (n, [])
      | d :: ds =>
        match digitIn? 8 d with
        | none => (n, d :: ds)
        | some third => if n < 32 then (8 * n + third, ds) else (n, d :: ds)

/-- What a backslash and the text after it stand for, and what follows. -/
def unescape : List Char → Except Malformed (Units × List Char)
  | [] => .error .string
  | '\r' :: '\n' :: cs => .ok ([], cs)
  | 'b' :: cs => .ok ([8], cs)
  | 'f' :: cs => .ok ([12], cs)
  | 'n' :: cs => .ok ([10], cs)
  | 'r' :: cs => .ok ([13], cs)
  | 't' :: cs => .ok ([9], cs)
  | 'v' :: cs => .ok ([11], cs)
  | 'x' :: cs =>
    match code? 2 cs with
    | some (n, cs) => .ok (unitsOfCode n, cs)
    | none => .error .escape
  | 'u' :: cs =>
    match code? 4 cs with
    | some (n, cs) => .ok (unitsOfCode n, cs)
    | none => .error .escape
  | c :: cs =>
    if endsLine c then .ok ([], cs)
    else
      match digitIn? 8 c with
      | some d => .ok (unitsOfCode (octal d cs).1, (octal d cs).2)
      | none => .ok (Units.ofChar c, cs)

def textTail (quote : Char) : Nat → List Char → Except Malformed (Units × List Char)
  | 0, _ => .error .string
  | fuel + 1, cs =>
    match cs with
    | [] => .error .string
    | '\\' :: rest => do
      let (u, rest) ← unescape rest
      let (us, rest) ← textTail quote fuel rest
      return (u ++ us, rest)
    | c :: rest =>
      if c = quote then .ok ([], rest)
      else if c = '\n' || c = '\r' then .error .string
      else do
        let (us, rest) ← textTail quote fuel rest
        return (Units.ofChar c ++ us, rest)

/-- Digits after a leading zero that are all below eight, and what follows. -/
def oldOctal? (cs : List Char) : Option (Binary64 × List Char) :=
  match digitsIn false 8 cs with
  | ([], _) => none
  | (ds, rest) => if digitNext 10 rest then none else some (wholeNumber 8 ds, rest)

/-- A number without a fraction; a point may not follow it. -/
def pointless : Binary64 × List Char → Option (Binary64 × List Char)
  | (_, '.' :: _) => none
  | r => some r

/-- A number as a snippet writes it, and what follows. A zero before other digits makes the number
octal if it can be, and keeps its digits together. -/
def literalNumber? (cs : List Char) : Option (Binary64 × List Char) :=
  match cs with
  | '0' :: c :: rest =>
    if (radixOf? c).isSome then (radixNumber? true cs).bind pointless
    else if c.isDigit then
      match oldOctal? (c :: rest) with
      | some r => pointless r
      | none => decimal? false cs
    else if c == '_' then none
    else decimal? true cs
  | _ => decimal? true cs

/-- A number token; no name may follow it directly. -/
def numberToken (cs : List Char) : Except Malformed (Token × List Char) :=
  match literalNumber? cs with
  | none => .error .number
  | some (x, rest) =>
    if rest.head?.any continuesIdentifier then .error .number else .ok (.number x, rest)

def escapedChar? : List Char → Option (Char × List Char)
  | '\\' :: 'u' :: cs => (code? 4 cs).map fun r => (Char.ofNat r.1, r.2)
  | _ => none

/-- Characters of a name and what follows them, and whether any of them is an escape. -/
def nameTail (escaped : Bool) : Nat → List Char → List Char × Bool × List Char
  | 0, cs => ([], escaped, cs)
  | fuel + 1, cs =>
    match escapedChar? cs with
    | some (c, rest) =>
      if continuesIdentifier c then
        let (name, _, rest) := nameTail true fuel rest
        (c :: name, true, rest)
      else ([], escaped, cs)
    | none =>
      match cs with
      | [] => ([], escaped, [])
      | c :: rest =>
        if continuesIdentifier c then
          let (name, escaped, rest) := nameTail escaped fuel rest
          (c :: name, escaped, rest)
        else ([], escaped, c :: rest)

def nameToken (c : Char) (escaped : Bool) (rest : List Char) : Token × List Char :=
  let (name, escaped, rest) := nameTail escaped (rest.length + 1) rest
  if escaped && isKeyword (c :: name) then (.reserved (c :: name), rest)
  else (.name (c :: name), rest)

def hiddenToken (cs : List Char) : Except Malformed (Token × List Char) :=
  let (name, _, rest) := nameTail false (cs.length + 1) cs
  if name.head?.any startsIdentifier then .ok (.hidden name, rest) else .error .hiddenStart

/-- The token at the front of a text, and what follows it; the fuel exceeds the length. -/
def tokenAt (fuel : Nat) (c : Char) (rest : List Char) : Except Malformed (Token × List Char) :=
  if c = '\'' || c = '"' then
    (textTail c fuel rest).map fun (u, rest) => (.text u, rest)
  else if c.isDigit || (c = '.' && rest.head?.any Char.isDigit) then numberToken (c :: rest)
  else if startsIdentifier c then .ok (nameToken c false rest)
  else if c = '#' then hiddenToken rest
  else if (c = '+' || c = '-') && rest.head? = some c then .ok (.step c, rest.drop 1)
  else if 128 ≤ c.toNat then .error .character
  else
    match escapedChar? (c :: rest) with
    | some (d, rest') =>
      if startsIdentifier d then .ok (nameToken d true rest') else .ok (.mark c, rest)
    | none => .ok (.mark c, rest)

def lexFrom : Nat → List Char → List Lexeme
  | 0, _ => []
  | fuel + 1, cs =>
    match afterSpace (fuel + 1) false cs with
    | .error m => [⟨.unreadable m, true⟩]
    | .ok (_, []) => []
    | .ok (broken, c :: rest) =>
      match tokenAt (fuel + 1) c rest with
      | .error m => [⟨.unreadable m, broken⟩]
      | .ok (t, rest) => ⟨t, broken⟩ :: lexFrom fuel rest

def lex (cs : List Char) : List Lexeme := lexFrom (cs.length + 1) cs

end Reckoner.Snippet
