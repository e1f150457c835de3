import Reckoner.Json.Reader
import Reckoner.Session.Clock
import Reckoner.Session.Engine
import Reckoner.Session.Loader
import Reckoner.Text.Within

namespace Reckoner.Session

open Snippet Text

structure Limits where
  timeoutMs : Int
  memoryBytes : Int
  deriving Repr

def Limits.default : Limits := ⟨5000, 10 * 1024 * 1024⟩

def stackBytes : Int := 1024 * 1024

inductive Event where
  | memoryLimit (bytes : Int)
  | stackLimit (bytes : Int)
  | timeLimit (seconds : Binary64)
  /-- A program was evaluated while so many interpreters were live. -/
  | evaluated (p : Program) (live : Nat)
  | released
  deriving Repr

/-- What happened to an interpreter, in order. -/
abbrev History := List Event

namespace History

def memory? (h : History) : Option Int :=
  h.findSome? fun e => match e with
    | .memoryLimit n => some n
    | _ => none

def stack? (h : History) : Option Int :=
  h.findSome? fun e => match e with
    | .stackLimit n => some n
    | _ => none

def time? (h : History) : Option Binary64 :=
  h.findSome? fun e => match e with
    | .timeLimit x => some x
    | _ => none

def programs (h : History) : List Program :=
  h.filterMap fun e => match e with
    | .evaluated p _ => some p
    | _ => none

def live (h : History) : List Nat :=
  h.filterMap fun e => match e with
    | .evaluated _ n => some n
    | _ => none

def releases (h : History) : Nat :=
  h.countP fun e => match e with
    | .released => true
    | _ => false

@[simp] theorem programs_append (g h : History) :
    programs (g ++ h) = programs g ++ programs h := List.filterMap_append

@[simp] theorem live_append (g h : History) : live (g ++ h) = live g ++ live h :=
  List.filterMap_append

@[simp] theorem releases_append (g h : History) :
    releases (g ++ h) = releases g + releases h := List.countP_append

end History

structure Host where
  clock : Clock
  loader : Loader
  live : Nat
  /-- How often the clock was read. -/
  ticks : Nat
  deriving Repr, Inhabited

inductive Outcome where
  | rejected (message : String)
  | failed (message : String) (time : Int)
  | succeeded (value : Value) (time : Int)
  deriving Repr

namespace Outcome

def success : Outcome → Bool
  | .succeeded _ _ => true
  | _ => false

def value : Outcome → Value
  | .succeeded v _ => v
  | _ => .none

def error? : Outcome → Option String
  | .rejected m => some m
  | .failed m _ => some m
  | .succeeded _ _ => none

def time? : Outcome → Option Int
  | .rejected _ => none
  | .failed _ t => some t
  | .succeeded _ t => some t

end Outcome

/-- The words by which an engine reports a return outside a function. -/
def returnWords : String := "return not in a function"

def stopWords : String := "interrupted"

def memoryWords : String := "out of memory"

inductive Trouble where
  /-- No engine, or a snippet that failed or was stopped; the message is for the caller. -/
  | execution (message : String)
  /-- A failed execution that the engine itself reports. -/
  | reported (f : Fault)
  /-- Anything else that is raised on the way. -/
  | unexpected (f : Failure)

namespace Trouble

/-- What a fault comes to that nothing on the way has caught. -/
def ofFault (f : Fault) : Trouble :=
  if f.kind.family = .execution then .reported f else .unexpected (.fault f)

def ofLoad : Failure → Trouble
  | .engineLoad m => .execution (Failure.engineLoad m).message
  | .fault f => ofFault f
  | f => .unexpected f

/-- What a caller is told: a failed execution by its own words, anything else in one line. -/
def words : Trouble → Except Failure String
  | execution m => .ok m
  | reported f => f.words
  | unexpected f => f.line

end Trouble

namespace Limits

def timeoutMessage (l : Limits) : String :=
  s!"Execution timeout: exceeded {String.ofList (intText l.timeoutMs)}ms"

/-- What is said when the memory ran out; a limit with too many digits cannot be written. -/
def memoryMessage (l : Limits) : String :=
  if (Value.int l.memoryBytes).hasText then
    s!"Memory limit exceeded: {String.ofList (intText l.memoryBytes)} bytes"
  else (Failure.tooManyDigits none).description

def seconds? (l : Limits) : Option Binary64 :=
  if l.timeoutMs.natAbs < Binary64.integerBound then
    some ((Binary64.ofInt l.timeoutMs).div (.ofInt 1000))
  else none

/-- What the fault of an evaluation means. The words of a guest's fault tell whether it was stopped
or ran out of memory. -/
def trouble (l : Limits) (f : Fault) : Trouble :=
  let d := f.description
  match f.kind.family with
  | .memory => .execution l.memoryMessage
  | .guest =>
    if !f.isDescribable then .unexpected (.tooManyDigits none)
    else if mentions stopWords d then .execution l.timeoutMessage
    else if mentions memoryWords d then .execution l.memoryMessage
    else .execution (String.ofList d)
  | _ => .ofFault f

end Limits

/-- Whether a reply asks for the snippet to be run as a function. -/
def wantsFunction : Reply → Bool
  | .raised f => f.kind.family == .guest && f.isDescribable && mentions returnWords f.description
  | _ => false

/-- The value of an object, by its JSON text; a text that cannot be read gives nothing. -/
def objectValue (text : Option String) : Value := (text.bind Json.read?).getD .none

def Reply.result : Reply → Except Fault Value
  | .value v => .ok v
  | .raised f => .error f
  | .object (.ok text) => .ok (objectValue text)
  | .object (.error f) => if f.kind.family = .misfit then .ok .none else .error f

/-- The reply of an interpreter: the snippet as a block, or as a function if it returns. -/
def evaluate (e : Engine) (live : Nat) (code : String) (es : Entries) : Reply × Engine × History :=
  let block := Program.ofFields code es .block
  let (reply, e) := e.evaluate [] block
  if wantsFunction reply then
    let function := Program.ofFields code es .function
    let (reply, e) := e.evaluate [block] function
    (reply, e, [.evaluated block live, .evaluated function live])
  else (reply, e, [.evaluated block live])

/-- An interpreter more, or one less, is live. -/
def Host.acquire (h : Host) : Host := { h with live := h.live + 1 }

def Host.release (h : Host) : Host := { h with live := h.live - 1 }

/-- An interpreter that was acquired and released leaves the host as it was. -/
theorem Host.release_acquire (h : Host) : h.acquire.release = h := rfl

/-- What a snippet leaves in the interpreter that it was run in. -/
structure Stay where
  result : Except Trouble Value
  engine : Engine
  history : History

/-- A snippet in an interpreter that was made: this gets its limits before it evaluates. -/
def evaluateWithin (l : Limits) (e : Engine) (live : Nat) (code : String) (es : Entries) : Stay :=
  let sizes := [.memoryLimit l.memoryBytes, .stackLimit stackBytes]
  match l.seconds? with
  | none => ⟨.error (.unexpected .tooLargeForFloat), e, sizes⟩
  | some s =>
    let (reply, e, evaluations) := evaluate e live code es
    ⟨reply.result.mapError l.trouble, e, sizes ++ .timeLimit s :: evaluations⟩

/-- What running a snippet leaves: its result, and the histories of the interpreters made. -/
structure Evaluation where
  result : Except Trouble Value
  host : Host
  engine : Engine
  interpreters : List History

/-- A snippet run in an interpreter of its own, which is released afterwards. -/
def run (l : Limits) (e : Engine) (h : Host) (code : String) (es : Entries) : Evaluation :=
  match e.refusal? with
  | some f => ⟨.error (.ofFault f), h, e, []⟩
  | none =>
    let h := h.acquire
    let stay := evaluateWithin l e h.live code es
    ⟨stay.result, h.release, stay.engine, [stay.history ++ [.released]]⟩

def Host.tick (h : Host) : Binary64 × Host :=
  let (t, c) := h.clock.read
  (t, { h with clock := c, ticks := h.ticks + 1 })

/-- What a call leaves: how it ended, unless the clock or the wording of a fault failed, and
everything it touched. -/
structure Call where
  outcome : Except Failure Outcome
  host : Host
  engine : Engine
  interpreters : List History

/-- The outcome of an evaluation that took a time, unless its trouble cannot be put into words; a
late value is not passed on. -/
def conclude (l : Limits) (result : Except Trouble Value) (time : Int) : Except Failure Outcome :=
  match result with
  | .error t => t.words.map (.failed · time)
  | .ok v =>
    .ok (if l.timeoutMs < time then .failed l.timeoutMessage time else .succeeded v time)

/-- An accepted snippet run from the loading of the engine on. -/
def perform (l : Limits) (e : Engine) (h : Host) (code : String) (es : Entries) : Call :=
  let (t0, h) := h.tick
  match h.loader.load with
  | (.error f, loader) =>
    let (t1, h) := { h with loader := loader }.tick
    ⟨(elapsed t0 t1).bind (conclude l (.error (.ofLoad f))), h, e, []⟩
  | (.ok _, loader) =>
    let (t1, h) := { h with loader := loader }.tick
    let ev := run l e h code es
    let (t2, h) := ev.host.tick
    ⟨(elapsed t1 t2).bind (conclude l ev.result), h, ev.engine, ev.interpreters⟩

def execute (l : Limits) (e : Engine) (h : Host) (code data : Value) : Call :=
  match check code data with
  | .error m => ⟨.ok (.rejected (Failure.rejected m).message), h, e, []⟩
  | .ok (code, es) => perform l e h code es

/-- A call: a snippet with data, the engine it meets, and a clock that is set first, if any. -/
structure Request where
  code : Value
  data : Value
  engine : Engine
  clock? : Option Clock

def Request.hostFrom (r : Request) (h : Host) : Host := { h with clock := r.clock?.getD h.clock }

/-- Calls one after the other, each at the host that the one before it left. -/
def executeAll (l : Limits) (h : Host) : List Request → List Call
  | [] => []
  | r :: rs =>
    let c := execute l r.engine (r.hostFrom h) r.code r.data
    c :: executeAll l c.host rs

end Reckoner.Session
