import Reckoner.Proofs.Acceptance
import Reckoner.Proofs.Timely

namespace Reckoner.Proofs.Evaluations
open Session Snippet Text Acceptance Execution Timely

variable {l : Limits} {e : Engine} {h : Host} {code data : Value} {s : String} {es : Entries}

/-- A reply which says that a return stands outside a function: an error of the engine, in whose
line the words of that stand. -/
def RefusesReturn (r : Reply) : Prop :=
  ∃ f, r = .raised f ∧ f.kind.family = .guest ∧ f.isDescribable = true ∧
    returnWords.toList <:+: f.description

theorem wantsFunction_iff (r : Reply) : wantsFunction r = true ↔ RefusesReturn r := by
  cases r with
  | value v => simp [wantsFunction, RefusesReturn]
  | object json => simp [wantsFunction, RefusesReturn]
  | raised f => simp [wantsFunction, RefusesReturn, mentions, occurs_iff, and_assoc]

/-- What passes between a call and an engine: the programs that are evaluated, the last reply and
the engine that is left. -/
structure Exchange (e : Engine) (block function : Program) (programs : List Program)
    (last : Reply) (left : Engine) : Prop where
  count : programs = [block] ∨ programs = [block, function]
  again : programs = [block, function] ↔ RefusesReturn (e.evaluate [] block).1
  once : programs = [block] → (last, left) = e.evaluate [] block
  twice : programs = [block, function] →
    (last, left) = (e.evaluate [] block).2.evaluate [block] function

theorem exchange_once {block function : Program} (h : ¬ RefusesReturn (e.evaluate [] block).1) :
    Exchange e block function [block] (e.evaluate [] block).1 (e.evaluate [] block).2 where
  count := .inl rfl
  again := by simp [h]
  once := fun _ => rfl
  twice := by simp

theorem exchange_twice {block function : Program} (h : RefusesReturn (e.evaluate [] block).1) :
    Exchange e block function [block, function]
      ((e.evaluate [] block).2.evaluate [block] function).1
      ((e.evaluate [] block).2.evaluate [block] function).2 where
  count := .inr rfl
  again := by simp [h]
  once := by simp
  twice := fun _ => rfl

/-- An interpreter evaluates a snippet in such an exchange. -/
theorem evaluate_exchange (e : Engine) (live : Nat) (code : String) (es : Entries) :
    Exchange e (.ofFields code es .block) (.ofFields code es .function)
      (History.programs (evaluate e live code es).2.2) (evaluate e live code es).1
      (evaluate e live code es).2.1 := by
  have hw := wantsFunction_iff (e.evaluate [] (.ofFields code es .block)).1
  unfold evaluate
  dsimp only
  split
  · next h => exact exchange_twice (hw.mp h)
  · next h => exact exchange_once (mt hw.mpr h)

def ended (l : Limits) (last : Reply) (time : Int) : Except Failure Outcome :=
  conclude l (last.result.mapError l.trouble) time

/-- A call that is accepted, finds the engine and gets an interpreter. -/
structure Started (e : Engine) (h : Host) (code data : Value) (s : String) (es : Entries) :
    Prop where
  accepted : check code data = .ok (s, es)
  loaded : ∃ ld, h.loader.load = (.ok (), ld)
  made : e.refusal? = none

/-- The fields of accepted data are those that a program is composed of. -/
theorem fields_accepted (hc : check code data = .ok (s, es)) : fields data = .ok es := by
  obtain ⟨-, -, ⟨rfl, rfl⟩ | rfl, -⟩ := (check_ok_iff code data s es).mp hc
  · rfl
  · cases es with
    | nil => rfl
    | cons e es => rfl

theorem compose_accepted (hc : check code data = .ok (s, es)) (w : Wrapping) :
    Program.compose s data w = .ok (.ofFields s es w) := by
  rw [Program.compose, fields_accepted hc]
  rfl

/-- Everything that a started call leaves of its interpreter. -/
theorem execute_started (hs : Started e h code data s es) :
    (execute l e h code data).outcome =
        (elapsed h.clock.read.2.read.1 h.clock.read.2.read.2.read.1).bind
          (conclude l (evaluateWithin l e (h.live + 1) s es).result) ∧
      (execute l e h code data).engine = (evaluateWithin l e (h.live + 1) s es).engine ∧
      (execute l e h code data).interpreters =
        [(evaluateWithin l e (h.live + 1) s es).history ++ [.released]] := by
  obtain ⟨ld, hl⟩ := hs.loaded
  rw [execute_accepted hs.accepted, perform_loaded hl]
  dsimp only
  rw [run_made hs.made, show (readyHost h ld).live = h.live from rfl]
  dsimp only
  exact ⟨rfl, rfl, rfl⟩

/-- What a call does in its interpreter: without a time limit it evaluates nothing, and otherwise
the last reply of an exchange decides how it ends. -/
structure Protocol (l : Limits) (e : Engine) (h : Host) (block function : Program) (c : Call)
    (i : History) : Prop where
  sole : c.interpreters = [i]
  unlimited : l.seconds? = none → i.programs = []
  limited : l.seconds? ≠ none → ∃ last, Exchange e block function i.programs last c.engine ∧
    c.outcome =
      (elapsed h.clock.read.2.read.1 h.clock.read.2.read.2.read.1).bind (ended l last)

theorem programs_unlimited (hx : l.seconds? = none) (live : Nat) :
    History.programs ((evaluateWithin l e live s es).history ++ [.released]) = [] := by
  unfold evaluateWithin
  rw [hx]
  rfl

theorem programs_limited (e : Engine) (s : String) (es : Entries) {x : Binary64}
    (hx : l.seconds? = some x) (live : Nat) :
    History.programs ((evaluateWithin l e live s es).history ++ [.released]) =
        History.programs (evaluate e live s es).2.2 ∧
      (evaluateWithin l e live s es).engine = (evaluate e live s es).2.1 := by
  unfold evaluateWithin
  rw [hx]
  exact ⟨by simp [History.programs], rfl⟩

/-- An interpreter evaluates the snippet composed as a block, and after that the snippet composed as
a function exactly when the first reply refuses a return; the last reply alone decides how the call
ends, given the readings of the clock. -/
theorem evaluated_at_most_twice (hs : Started e h code data s es) :
    ∃ block function i, Program.compose s data .block = .ok block ∧
      Program.compose s data .function = .ok function ∧
      Protocol l e h block function (execute l e h code data) i := by
  obtain ⟨ho, he, hi⟩ := execute_started (l := l) hs
  refine ⟨.ofFields s es .block, .ofFields s es .function, _,
    compose_accepted hs.accepted .block, compose_accepted hs.accepted .function, ⟨hi, ?_, ?_⟩⟩
  · exact fun hx => programs_unlimited hx (h.live + 1)
  intro hx
  obtain ⟨x, hx⟩ := Option.ne_none_iff_exists'.mp hx
  obtain ⟨hp, hleft⟩ := programs_limited e s es hx (h.live + 1)
  refine ⟨(evaluate e (h.live + 1) s es).1, ?_, ?_⟩
  · rw [hp, he, hleft]
    exact evaluate_exchange e (h.live + 1) s es
  · rw [ho, (evaluateWithin_limited hx _).1]
    rfl

def returnFault : Fault := ⟨.guest, [.str "SyntaxError: return not in a function"], none⟩

theorem returnFault_refuses : RefusesReturn (.raised returnFault) :=
  (wantsFunction_iff _).mp (by decide +kernel)

/-- An engine that refuses a return whatever it is given, and then has an answer. -/
def stubbornEngine : Engine :=
  .scripted none [.raised returnFault, .raised returnFault, .value (.int 1)]

/-- A second refusal is the answer: the reply that is left is never asked for. -/
theorem refused_twice :
    Started stubbornEngine stillHost (.str "return 1") .none "return 1" [] ∧
      ∃ i, (execute .default stubbornEngine stillHost (.str "return 1") .none).interpreters = [i] ∧
        i.programs = [.ofFields "return 1" [] .block, .ofFields "return 1" [] .function] ∧
        (execute .default stubbornEngine stillHost (.str "return 1") .none).engine =
          .scripted none [.value (.int 1)] := by
  have hc : check (.str "return 1") .none = .ok ("return 1", []) := check_bare (by decide +kernel)
  have hs : Started stubbornEngine stillHost (.str "return 1") .none "return 1" [] :=
    ⟨hc, ⟨_, rfl⟩, rfl⟩
  have hx : Limits.default.seconds? ≠ none := by
    rw [Limits.seconds?, if_pos (by decide +kernel)]
    exact Option.some_ne_none _
  obtain ⟨block, function, i, hb, hf, hp⟩ := evaluated_at_most_twice (l := .default) hs
  rw [compose_accepted hc] at hb hf
  cases hb
  cases hf
  obtain ⟨last, hex, -⟩ := hp.limited hx
  have htwo := hex.again.mpr returnFault_refuses
  have hleft := congrArg Prod.snd (hex.twice htwo)
  dsimp only at hleft
  refine ⟨hs, i, hp.sole, htwo, ?_⟩
  rw [hleft]
  rfl

end Reckoner.Proofs.Evaluations
