import Reckoner.Snippet.Builtin
import Reckoner.Snippet.Expr
import Reckoner.Snippet.Program

namespace Reckoner.Snippet

open Text

/-- Declared names; a constant whose declaration has not run yet has no value. -/
abbrev Scope := List (List Char × Option Guest)

namespace Scope

/-- What a scope holds under a name: nothing, a constant without a value yet, or a value. -/
def get? (name : List Char) : Scope → Option (Option Guest)
  | [] => none
  | (n, v) :: sc => if n = name then some v else get? name sc

def define (name : List Char) (v : Guest) : Scope → Scope
  | [] => []
  | (n, w) :: sc => if n = name then (n, some v) :: sc else (n, w) :: define name v sc

end Scope

/-- What a name means without declarations. The language of the expressions has these globals and no
others. -/
def builtin? (name : List Char) : Option Guest :=
  match Helper.ofName? (String.ofList name) with
  | some h => some (.helper h)
  | none =>
    if name = "undefined".toList then some .undefined
    else if name = "NaN".toList then some (.number (.float .nan))
    else if name = "Infinity".toList then some (.number (.float (.inf false)))
    else if name = "eval".toList then some (.native .evaluator)
    else none

def resolve? (sc : Scope) (name : List Char) : Except Thrown (Option Guest) :=
  match sc.get? name with
  | some (some v) => .ok (some v)
  | some none => .error (.uninitialized name)
  | none => .ok (builtin? name)

def resolve (sc : Scope) (name : List Char) : Except Thrown Guest :=
  match resolve? sc name with
  | .error e => .error e
  | .ok (some v) => .ok v
  | .ok none => .error (.undefinedName name)

def BinaryOp.apply : BinaryOp → Guest → Guest → Except Thrown Guest
  | .add => Guest.add
  | .sub => Guest.arithmetic (.combine Binary64.sub)
  | .mul => Guest.arithmetic (.combine Binary64.mul)
  | .div => Guest.divide
  | .rem => Guest.arithmetic (.combine Binary64.rem)

def UnaryOp.apply : UnaryOp → Guest → Except Thrown Guest
  | .plus, v => v.toNumber.map .number
  | .minus, v => v.toNumber.map fun x => .number x.neg
  | .typeOf, v => .ok (.ofString v.typeName)

/-- An object of members written one after the other; the parent key sets the parent. -/
def objectOf : List (Units × Guest) → Guest
  | ms =>
    let parent := (ms.find? fun m => m.1 = parentKey && m.2.isParent).map Prod.snd
    let own := ms.filter fun m => m.1 ≠ parentKey
    .object parent (own.foldl (fun acc m => setMember m.1 m.2 acc) [])

/-- How a text is run in a scope, when a snippet evaluates one. -/
class Evaluator where
  text : Scope → List Char → Except Thrown Guest

/-- The scope of a text that a call evaluates: that of the call when it names the evaluator, and
none of the declared names otherwise. -/
def textScope (sc : Scope) : Expr → Scope
  | .name cs => if cs = "eval".toList then sc else []
  | _ => []

section

variable [Evaluator]

def callValue (sc : Scope) (f : Guest) (args : List Guest) : Except Thrown Guest :=
  match f with
  | .helper h => Builtin.apply h args
  | .native .evaluator =>
    match Builtin.argument args 0 with
    | .text u => Evaluator.text sc (Units.toChars u)
    | v => .ok v
  | _ => .error .notFunction

mutual

def eval (sc : Scope) : Expr → Except Thrown Guest
  | .number x => .ok (.number (.settle x))
  | .text u => .ok (.text u)
  | .bool b => .ok (.bool b)
  | .null => .ok .null
  | .absent => .ok .undefined
  | .name cs => resolve sc cs
  | .array es => (evalAll sc es).map .array
  | .object ms => (evalMembers sc ms).map objectOf
  | .member e key => do
    let v ← eval sc e
    v.get key
  | .index e k => do
    let v ← eval sc e
    let w ← eval sc k
    let key ← w.toText
    v.get key
  | .call f args => do
    let g ← eval sc f
    let vs ← evalAll sc args
    callValue (textScope sc f) g vs
  | .unary .typeOf (.name cs) =>
    (resolve? sc cs).map fun v => .ofString (v.getD .undefined).typeName
  | .unary op e => do
    let v ← eval sc e
    op.apply v
  | .binary op a b => do
    let v ← eval sc a
    let w ← eval sc b
    op.apply v w

def evalAll (sc : Scope) : List Expr → Except Thrown (List Guest)
  | [] => .ok []
  | e :: es => do
    let v ← eval sc e
    let vs ← evalAll sc es
    return v :: vs

def evalMembers (sc : Scope) : List (Units × Expr) → Except Thrown (List (Units × Guest))
  | [] => .ok []
  | (k, e) :: ms => do
    let v ← eval sc e
    let vs ← evalMembers sc ms
    return (k, v) :: vs

end

def declare (sc : Scope) : List (List Char × Expr) → Except Thrown Scope
  | [] => .ok sc
  | (name, e) :: ds =>
    match eval sc e with
    | .error t => .error t
    | .ok v => declare (sc.define name v) ds

/-- The value of the last of the statements of a text, none of which returns. -/
def evalText (sc : Scope) (last : Guest) : List Statement → Except Thrown Guest
  | [] => .ok last
  | .expr e :: ss =>
    match eval sc e with
    | .error t => .error t
    | .ok v => evalText sc v ss
  | .result _ :: _ => .ok last

end

/-- A text run in a scope; texts that it evaluates in turn are run up to a depth. -/
def runText : Nat → Scope → List Char → Except Thrown Guest
  | 0, _, _ => .error .stackOverflow
  | depth + 1, sc, cs =>
    have : Evaluator := ⟨runText depth⟩
    match parseText cs with
    | .error m => .error (.malformed m)
    | .ok ss => evalText sc .undefined ss

/-- How deep texts may be run one inside the other before the stack is full. -/
def nesting : Nat := 64

instance : Evaluator := ⟨runText nesting⟩

/-- The constant that a declaration makes, without the line feed its name may end in. -/
def Declaration.constant (d : Declaration) : List Char := Text.trim (· == '\n') d.name.toList

/-- A constant's name is refused when it is a keyword or taken. -/
def refusal? (taken : List (List Char)) (name : List Char) : Option Malformed :=
  if name = "let".toList then some .letName
  else if name = "undefined".toList then some .undefinedDeclared
  else if isKeyword name then some .nameExpected
  else if taken.contains name then some .redefinition
  else none

def readDeclarations (taken : List (List Char)) :
    List Declaration → Except Malformed (List (List Char × Expr))
  | [] => .ok []
  | d :: ds =>
    match refusal? taken d.constant with
    | some m => .error m
    | none =>
      match parseExpr d.literal with
      | .error m => .error m
      | .ok e => (readDeclarations (d.constant :: taken) ds).map ((d.constant, e) :: ·)

end Reckoner.Snippet
