import Reckoner.Fault
import Reckoner.Snippet.Language

namespace Reckoner.Session

open Snippet

inductive Reply where
  | value (v : Value)
  /-- An object, by what its JSON text turns out to be. -/
  | object (json : Except Fault (Option String))
  | raised (f : Fault)

namespace Reply

def exhausted : Reply := .raised ⟨.runtime, [.str "no scripted evaluation left"], none⟩

def ofGiven : Given → Reply
  | .value v => .value v
  | .object json => .object (json.mapError .thrown)

def ofAnswer : Except String Given → Reply
  | .error m => .raised (.thrown m)
  | .ok g => .ofGiven g

end Reply

/-- Whether an interpreter starts to run a program, having read it. -/
def starts (p : Program) : Bool := !p.text.contains '\x00' && p.read.toOption.isSome

/-- The reply of an interpreter to a program, after it evaluated others. As soon as one of these was
started, the helpers are declared and cannot be declared again. -/
def Reply.ofProgram (L : Language) (before : List Program) (p : Program) : Reply :=
  if p.text.contains '\x00' then .raised ⟨.value, [.str "embedded null character"], none⟩
  else if starts p && before.any starts then
    .raised (.thrown (Thrown.redeclared Helper.avg.name.toList).message)
  else .ofAnswer (L.answer p)

/-- An engine: what refuses its interpreters, and its answers. -/
inductive Engine where
  | scripted (refusal : Option Fault) (replies : List Reply)
  /-- Interpreters that answer a program by those that they evaluated before. -/
  | machine (reply : List Program → Program → Reply)

namespace Engine

def speaking (L : Language) : Engine := .machine (.ofProgram L)

def interpreter : Engine := .speaking .standard

/-- The fault that keeps the engine from making an interpreter. -/
def refusal? : Engine → Option Fault
  | .scripted r _ => r
  | .machine _ => none

/-- The answer to a program in an interpreter that evaluated others before, and the engine after
it. -/
def evaluate (before : List Program) (p : Program) : Engine → Reply × Engine
  | .scripted r [] => (.exhausted, .scripted r [])
  | .scripted r (reply :: replies) => (reply, .scripted r replies)
  | .machine reply => (reply before p, .machine reply)

def unused : Engine → Nat
  | .scripted _ replies => replies.length
  | .machine _ => 0

end Engine

end Reckoner.Session
