import Reckoner.Text.Blank
import Reckoner.Value.Printed

namespace Reckoner

/-- What handlers tell faults apart by. -/
inductive FaultFamily where
  /-- A module that cannot be imported. -/
  | importing
  /-- A value or a type that does not fit. -/
  | misfit
  | memory
  /-- Raised by a snippet or by the engine that runs it. -/
  | guest
  /-- A failed execution, as this program itself reports one. -/
  | execution
  | plain
  deriving DecidableEq, Repr, Inhabited

inductive FaultKind where
  | importError
  | moduleNotFound
  | runtime
  | value
  | key
  | type
  | memory
  | guest
  | connection
  /-- Any further kind, by its name. -/
  | other (family : FaultFamily) (name : String)
  deriving DecidableEq, Repr, Inhabited

namespace FaultKind

def name : FaultKind → String
  | importError => "ImportError"
  | moduleNotFound => "ModuleNotFoundError"
  | runtime => "RuntimeError"
  | value => "ValueError"
  | key => "KeyError"
  | type => "TypeError"
  | memory => "MemoryError"
  | guest => "JSException"
  | connection => "ConnectionError"
  | other _ name => name

def family : FaultKind → FaultFamily
  | importError => .importing
  | moduleNotFound => .importing
  | value => .misfit
  | type => .misfit
  | memory => .memory
  | guest => .guest
  | other family _ => family
  | _ => .plain

end FaultKind

/-- A fault that an edge of the program (the engine, its loading, the network) raises, with what it
was raised with. Some kinds word their faults themselves. Kinds that one thread cannot hand over to
another, such as those that end an iteration or cancel a task, are not among these. -/
structure Fault where
  kind : FaultKind
  args : List Value
  words? : Option String
  deriving Repr, Inhabited

namespace Fault

/-- What an interpreter raises, with its words. -/
def thrown (words : String) : Fault := ⟨.guest, [.str words], none⟩

/-- The places that a connection fault names, if it names the first of two. -/
def places : Value → Value → List Char
  | .none, _ => []
  | p, .none => ": ".toList ++ p.shown
  | p, q => ": ".toList ++ p.shown ++ " -> ".toList ++ q.shown

def connectionMessage (n r p q : Value) : List Char :=
  "[Errno ".toList ++ n.text ++ "] ".toList ++ r.text ++ places p q

/-- The message of a fault whose kind does not word it: nothing, its argument, or all its arguments;
a missing key is quoted, and a connection fault with a number and a reason words them. -/
def usualMessage (kind : FaultKind) (args : List Value) : List Char :=
  match kind, args with
  | _, [] => []
  | .key, [v] => v.shown
  | _, [v] => v.text
  | .connection, [n, r] => connectionMessage n r .none .none
  | .connection, [n, r, p] => connectionMessage n r p .none
  | .connection, [n, r, p, _] => connectionMessage n r p .none
  | .connection, [n, r, p, _, q] => connectionMessage n r p q
  | _, vs => (Value.tuple vs).shown

/-- The arguments that the usual message writes. -/
def told (kind : FaultKind) (args : List Value) : List Value :=
  match kind, args with
  | .connection, [n, r, .none, _, _] => [n, r]
  | .connection, [n, r, p, _, q] => [n, r, p, q]
  | .connection, [n, r, p, _] => [n, r, p]
  | _, vs => vs

def message (f : Fault) : List Char :=
  match f.words? with
  | some s => s.toList
  | none => usualMessage f.kind f.args

/-- Whether the message can be had: the usual one writes no integer with too many digits. -/
def hasText (f : Fault) : Bool := f.words?.isSome || Value.haveTexts (told f.kind f.args)

def shown (f : Fault) : List Char :=
  f.kind.name.toList ++ '(' :: (Value.commaSeparated (Value.shownAll f.args) ++ [')'])

/-- The first line of a message, or what is shown instead of a blank one. -/
def describe (message shown : List Char) : List Char :=
  let cs := Text.strip message
  if cs.isEmpty then shown else Text.firstLine cs

def description (f : Fault) : List Char := describe f.message f.shown

/-- Whether the description can be had: a blank message needs the fault to be shown. -/
def isDescribable (f : Fault) : Bool :=
  f.hasText && (!(Text.strip f.message).isEmpty || Value.haveTexts f.args)

theorem hasText_of_describable {f : Fault} (h : f.isDescribable = true) : f.hasText = true :=
  (Bool.and_eq_true_iff.mp h).1

end Fault

end Reckoner
