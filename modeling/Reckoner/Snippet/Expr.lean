import Reckoner.Number.Layout
import Reckoner.Snippet.Token
import Reckoner.Snippet.Wrapping

namespace Reckoner.Snippet

open Text

inductive BinaryOp where
  | add
  | sub
  | mul
  | div
  | rem
  deriving DecidableEq, Repr

inductive UnaryOp where
  | plus
  | minus
  | typeOf
  deriving DecidableEq, Repr

/-- An expression. What assigns to a place, compares or branches is not one of these. -/
inductive Expr where
  | number (x : Binary64)
  | text (u : Units)
  | bool (b : Bool)
  | null
  /-- An element that is left out. -/
  | absent
  | name (cs : List Char)
  | array (es : List Expr)
  | object (members : List (Units × Expr))
  | member (e : Expr) (key : Units)
  | index (e key : Expr)
  | call (f : Expr) (args : List Expr)
  | unary (op : UnaryOp) (e : Expr)
  | binary (op : BinaryOp) (a b : Expr)
  deriving Repr, Inhabited

/-- A statement: an expression, or a return with or without one. -/
inductive Statement where
  | expr (e : Expr)
  | result (e : Option Expr)
  deriving Repr, Inhabited

namespace Lexeme

def isMark (c : Char) (l : Lexeme) : Bool := l.token = .mark c

end Lexeme

namespace Token

def shown : Token → List Char
  | .number x => x.text .snippet
  | .text u => '"' :: (Units.toChars u ++ ['"'])
  | .name cs => cs
  | .reserved cs => cs
  | .hidden cs => '#' :: cs
  | .step c => [c, c]
  | .mark c => [c]
  | .unreadable _ => []

def key? : Token → Option Units
  | .name cs => some (Units.ofChars cs)
  | .reserved cs => some (Units.ofChars cs)
  | .text u => some u
  | .number x => some (Units.ofChars (x.text .snippet))
  | _ => none

/-- The key that a token after a point names. -/
def field? : Token → Option Units
  | .name cs => some (Units.ofChars cs)
  | .reserved cs => some (Units.ofChars cs)
  | _ => none

/-- The operator of a mark among those that bind tighter. -/
def tightOp? : Token → Option BinaryOp
  | .mark '*' => some .mul
  | .mark '/' => some .div
  | .mark '%' => some .rem
  | _ => none

/-- The operator of a mark among those that bind looser. -/
def looseOp? : Token → Option BinaryOp
  | .mark '+' => some .add
  | .mark '-' => some .sub
  | _ => none

/-- The operator in front of an operand. -/
def unaryOp? : Token → Option UnaryOp
  | .mark '+' => some .plus
  | .mark '-' => some .minus
  | .name cs => if cs = "typeof".toList then some .typeOf else none
  | _ => none

end Token

/-- An error at a token; a token that cannot be read is an error itself. -/
def problem (m : Malformed) : List Lexeme → Malformed
  | ⟨.unreadable m', _⟩ :: _ => m'
  | _ => m

def unexpected : List Lexeme → Malformed
  | [] => .unexpected []
  | ⟨.unreadable m, _⟩ :: _ => m
  | ⟨.reserved cs, _⟩ :: _ => .reservedName cs
  | l :: _ => .unexpected l.token.shown

/-- The tokens after a mark, which an error reports under a name. -/
def expectAs (shown c : Char) : List Lexeme → Except Malformed (List Lexeme)
  | l :: ls => if l.isMark c then .ok ls else .error (problem (.expecting shown) (l :: ls))
  | [] => .error (.expecting shown)

def expect (c : Char) (ls : List Lexeme) : Except Malformed (List Lexeme) := expectAs c c ls

/-- The mark that is missed after an item: arguments miss a comma, elements their end. -/
def missing (close : Char) : Char := if close = ')' then ',' else close

def parentKey : Units := Units.ofString "__proto__"

/-- Whether a name stands for itself in an object, without a colon and a value. -/
def standsAlone (l : Lexeme) (rest : List Lexeme) : Bool :=
  match l.token with
  | .name cs => !isKeyword cs && !(rest.head?.any fun m => m.isMark ':' || m.isMark '(')
  | _ => false

mutual

def expression : Nat → List Lexeme → Except Malformed (Expr × List Lexeme)
  | 0, ls => .error (unexpected ls)
  | fuel + 1, ls => do
    let (e, ls) ← term fuel ls
    looseTail fuel e ls

def looseTail : Nat → Expr → List Lexeme → Except Malformed (Expr × List Lexeme)
  | 0, _, ls => .error (unexpected ls)
  | fuel + 1, a, ls =>
    match ls with
    | [] => .ok (a, [])
    | l :: rest =>
      match l.token.looseOp? with
      | none => .ok (a, ls)
      | some op => do
        let (b, rest) ← term fuel rest
        looseTail fuel (.binary op a b) rest

def term : Nat → List Lexeme → Except Malformed (Expr × List Lexeme)
  | 0, ls => .error (unexpected ls)
  | fuel + 1, ls => do
    let (e, ls) ← factor fuel ls
    tightTail fuel e ls

def tightTail : Nat → Expr → List Lexeme → Except Malformed (Expr × List Lexeme)
  | 0, _, ls => .error (unexpected ls)
  | fuel + 1, a, ls =>
    match ls with
    | [] => .ok (a, [])
    | l :: rest =>
      match l.token.tightOp? with
      | none => .ok (a, ls)
      | some op => do
        let (b, rest) ← factor fuel rest
        tightTail fuel (.binary op a b) rest

def factor : Nat → List Lexeme → Except Malformed (Expr × List Lexeme)
  | 0, ls => .error (unexpected ls)
  | fuel + 1, ls =>
    match ls with
    | [] => .error (unexpected [])
    | l :: rest =>
      match l.token.unaryOp? with
      | some op => (factor fuel rest).map fun (e, ls) => (.unary op e, ls)
      | none => do
        let (e, ls) ← primary fuel (l :: rest)
        accesses fuel e ls

/-- Members, elements and calls after an operand. -/
def accesses : Nat → Expr → List Lexeme → Except Malformed (Expr × List Lexeme)
  | 0, _, ls => .error (unexpected ls)
  | fuel + 1, e, ls =>
    match ls with
    | ⟨.mark '.', _⟩ :: rest =>
      match rest with
      | [] => .error .fieldName
      | l :: rest =>
        match l.token.field? with
        | some key => accesses fuel (.member e key) rest
        | none => .error (problem .fieldName (l :: rest))
    | ⟨.mark '[', _⟩ :: rest => do
      let (key, rest) ← expression fuel rest
      let rest ← expect ']' rest
      accesses fuel (.index e key) rest
    | ⟨.mark '(', _⟩ :: rest => do
      let (args, rest) ← items fuel ')' rest
      accesses fuel (.call e args) rest
    | ls => .ok (e, ls)

def primary : Nat → List Lexeme → Except Malformed (Expr × List Lexeme)
  | 0, ls => .error (unexpected ls)
  | fuel + 1, ls =>
    match ls with
    | ⟨.number x, _⟩ :: rest => .ok (.number x, rest)
    | ⟨.text u, _⟩ :: rest => .ok (.text u, rest)
    | ⟨.name cs, _⟩ :: rest =>
      if cs = "true".toList then .ok (.bool true, rest)
      else if cs = "false".toList then .ok (.bool false, rest)
      else if cs = "null".toList then .ok (.null, rest)
      else if isKeyword cs then .error (.unexpected cs)
      else .ok (.name cs, rest)
    | ⟨.mark '(', _⟩ :: rest => do
      let (e, rest) ← expression fuel rest
      let rest ← expect ')' rest
      return (e, rest)
    | ⟨.mark '[', _⟩ :: rest => (items fuel ']' rest).map fun (es, ls) => (.array es, ls)
    | ⟨.mark '\x7b', _⟩ :: rest => (pairs fuel false rest).map fun (ms, ls) => (.object ms, ls)
    | ls => .error (unexpected ls)

/-- Expressions with commas between them up to a closing mark; elements may be left out. -/
def items : Nat → Char → List Lexeme → Except Malformed (List Expr × List Lexeme)
  | 0, _, ls => .error (unexpected ls)
  | fuel + 1, close, ls =>
    match ls with
    | [] => .error (unexpected [])
    | l :: rest =>
      if l.isMark close then .ok ([], rest)
      else if l.isMark ',' && close = ']' then do
        let (es, rest) ← items fuel close rest
        return (.absent :: es, rest)
      else do
        let (e, rest) ← expression fuel ls
        match rest with
        | ⟨.mark ',', _⟩ :: rest =>
          let (es, rest) ← items fuel close rest
          return (e :: es, rest)
        | rest =>
          let rest ← expectAs (missing close) close rest
          return ([e], rest)

/-- Members with commas between them up to the closing brace; only one may be the parent. -/
def pairs : Nat → Bool → List Lexeme → Except Malformed (List (Units × Expr) × List Lexeme)
  | 0, _, ls => .error (unexpected ls)
  | fuel + 1, hasParent, ls =>
    match ls with
    | [] => .error .propertyName
    | l :: rest =>
      if l.isMark '\x7d' then .ok ([], rest)
      else
        match l.token.key? with
        | none => .error (problem .propertyName ls)
        | some key => do
          let (e, rest) ← value fuel l rest
          if key = parentKey && hasParent then .error (problem .duplicateParent rest)
          else
            match rest with
            | ⟨.mark ',', _⟩ :: rest =>
              let (ms, rest) ← pairs fuel (hasParent || key = parentKey) rest
              return ((key, e) :: ms, rest)
            | rest =>
              let rest ← expect '\x7d' rest
              return ([(key, e)], rest)

def value : Nat → Lexeme → List Lexeme → Except Malformed (Expr × List Lexeme)
  | 0, _, ls => .error (unexpected ls)
  | fuel + 1, l, ls =>
    if standsAlone l ls then .ok (.name l.token.shown, ls)
    else do
      let ls ← expect ':' ls
      expression fuel ls

end

def fuelFor (ls : List Lexeme) : Nat := 8 * ls.length + 8

/-- The tokens after a statement: a semicolon ends it, and so does its line or its block. -/
def endStatement : List Lexeme → Except Malformed (List Lexeme)
  | [] => .ok []
  | l :: ls =>
    if l.isMark ';' then .ok ls
    else if l.broken || l.isMark '\x7d' then .ok (l :: ls)
    else .error (problem (.expecting ';') (l :: ls))

def returnsNothing : List Lexeme → Bool
  | [] => true
  | l :: _ => l.broken || l.isMark ';' || l.isMark '\x7d'

def afterLabels : List Lexeme → List Lexeme
  | ⟨.name cs, b⟩ :: ⟨.mark ':', b'⟩ :: rest =>
    if isKeyword cs then ⟨.name cs, b⟩ :: ⟨.mark ':', b'⟩ :: rest else afterLabels rest
  | ls => ls

namespace Wrapping

def brace : Lexeme := ⟨.mark '\x7d', true⟩

def afterFunction : List Lexeme :=
  [⟨.mark ')', false⟩, ⟨.mark '(', false⟩, ⟨.mark ')', false⟩, ⟨.mark ';', false⟩, brace]

/-- The tokens after a snippet; the declarations are in a block around the wrapping. -/
def closing : Wrapping → List Lexeme
  | block => [brace, brace]
  | function => brace :: afterFunction

/-- The blocks around the statements of a snippet that a brace may end. -/
def depth : Wrapping → Nat
  | block => 2
  | function => 0

/-- The end of statements at a brace that ends no block. -/
def ended (w : Wrapping) (rest : List Lexeme) : Except Malformed (List Statement) :=
  match w with
  | block => .error (unexpected [brace])
  | function => do
    if rest = afterFunction then return []
    else
      let rest ← expect ')' rest
      .error (unexpected rest)

end Wrapping

/-- The statements of tokens inside `depth` blocks; only a function may return. -/
def statements (w : Wrapping) : Nat → Nat → List Lexeme → Except Malformed (List Statement)
  | 0, _, ls => .error (unexpected ls)
  | fuel + 1, depth, ls =>
    match ls with
    | [] => if depth = 0 then .ok [] else .error (unexpected [])
    | l :: rest =>
      if l.isMark ';' then statements w fuel depth rest
      else if l.isMark '\x7b' then statements w fuel (depth + 1) rest
      else if l.isMark '\x7d' then
        if 0 < depth then statements w fuel (depth - 1) rest else w.ended rest
      else if l.token = .name "return".toList then
        if w = .block then .error .returnOutside
        else if returnsNothing rest then do
          let rest ← endStatement rest
          let ss ← statements w fuel depth rest
          return .result none :: ss
        else do
          let (e, rest) ← expression (fuelFor rest) rest
          let rest ← endStatement rest
          let ss ← statements w fuel depth rest
          return .result (some e) :: ss
      else do
        let ls := afterLabels ls
        let (e, rest) ← expression (fuelFor ls) ls
        let rest ← endStatement rest
        let ss ← statements w fuel depth rest
        return .expr e :: ss

def parse (w : Wrapping) (cs : List Char) : Except Malformed (List Statement) :=
  let ls := lex cs ++ w.closing
  statements w (ls.length + 1) w.depth ls

/-- The statements of a text that stands alone. -/
def parseText (cs : List Char) : Except Malformed (List Statement) :=
  let ls := lex cs
  statements .block (ls.length + 1) 0 ls

def parseExpr (cs : List Char) : Except Malformed Expr := do
  let ls := lex cs
  let (e, rest) ← expression (fuelFor ls) ls
  if rest.isEmpty then return e else .error (unexpected rest)

end Reckoner.Snippet
