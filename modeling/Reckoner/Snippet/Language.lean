import Reckoner.Snippet.Eval
import Reckoner.Snippet.Written

namespace Reckoner.Snippet

open Text

/-- What an interpreter hands over for a value: the value, or an object with the JSON text that it
turns out to have. -/
inductive Given where
  | value (v : Value)
  | object (json : Except String (Option String))

namespace Given

/-- A text up to its first null character. -/
def cutText (u : Units) : String := String.ofList (Units.toChars (u.takeWhile (· ≠ 0)))

/-- A number that leaves the interpreter, of the kind that it is held as. -/
def number (x : Held) : Value :=
  match x.integer? with
  | some n => .int n
  | none => .float x.value

def ofGuest : Guest → Given
  | .undefined => .value .none
  | .null => .value .none
  | .bool b => .value (.bool b)
  | .number x => .value (number x)
  | .text u => .value (.str (cutText u))
  | g => .object (.ok ((json? g).map String.ofList))

end Given

/-- What programs mean to an interpreter. Its world is whatever their constants and their statements
have made so far, with the value of the last statement. The helpers, which are declared in front of
every program, belong to the language. -/
structure Language where
  World : Type
  /-- The world of constants that are declared with literals, one after the other. -/
  enter : List (List Char × Expr) → Except String World
  /-- An expression that a statement in a block evaluates, or one in a function. -/
  evaluate : Wrapping → Expr → World → Except String World
  /-- The world without a value. -/
  blank : World → World
  give : World → Given

def Program.read (p : Program) : Except Malformed (List (List Char × Expr) × List Statement) :=
  match readDeclarations [] p.declarations with
  | .error m => .error m
  | .ok ds => (parse p.wrapping p.code.toList).map (ds, ·)

namespace Language

/-- Statements one after the other, up to one that returns. A function has no other value. -/
def statements (L : Language) (w : Wrapping) : List Statement → L.World → Except String L.World
  | [], s => .ok (match w with
    | .block => s
    | .function => L.blank s)
  | .expr e :: ss, s =>
    match L.evaluate w e s with
    | .error m => .error m
    | .ok s => L.statements w ss s
  | .result none :: _, s => .ok (L.blank s)
  | .result (some e) :: _, s => L.evaluate w e s

def run (L : Language) (w : Wrapping) (ds : List (List Char × Expr)) (ss : List Statement) :
    Except String Given :=
  match L.enter ds with
  | .error m => .error m
  | .ok s => (L.statements w ss s).map L.give

/-- What a program comes to: the words of an error, or what is handed over for its value. -/
def answer (L : Language) (p : Program) : Except String Given :=
  match p.read with
  | .error m => .error (Thrown.malformed m).message
  | .ok (ds, ss) => L.run p.wrapping ds ss

theorem run_expr {L : Language} {ds : List (List Char × Expr)} {s : L.World}
    (h : L.enter ds = .ok s) (e : Expr) :
    L.run .block ds [.expr e] = (L.evaluate .block e s).map L.give := by
  rw [run, h]
  dsimp only
  rw [statements]
  cases L.evaluate .block e s <;> rfl

theorem run_result {L : Language} {ds : List (List Char × Expr)} {s : L.World}
    (h : L.enter ds = .ok s) (e : Expr) :
    L.run .function ds [.result (some e)] = (L.evaluate .function e s).map L.give := by
  rw [run, h]
  rfl

end Language

/-- The names of the statements of a snippet; a function has arguments, whatever is declared. -/
def Wrapping.scope (sc : Scope) : Wrapping → Scope
  | block => sc
  | function => ("arguments".toList, some (.native .arguments)) :: sc

/-- The language of the expressions: values never change, and have no members but their own. -/
def Language.standard : Language where
  World := Scope × Guest
  enter ds :=
    match declare (ds.map fun d => (d.1, none)) ds with
    | .error t => .error t.message
    | .ok sc => .ok (sc, .undefined)
  evaluate w e s :=
    match eval (w.scope s.1) e with
    | .error t => .error t.message
    | .ok v => .ok (s.1, v)
  blank s := (s.1, .undefined)
  give s := .ofGuest s.2

end Reckoner.Snippet
