import Reckoner.Session.Execution

namespace Reckoner.Proofs.Execution
open Session Snippet Text

variable {l : Limits} {e : Engine} {h : Host} {code : String} {es : Entries}

/-- An interpreter that was made is released, and one that was refused was never counted. -/
@[simp] theorem run_host : (run l e h code es).host = h := by
  unfold run
  cases e.refusal? with
  | some f => rfl
  | none => exact h.release_acquire

theorem occurs_iff {ls cs : List Char} : occurs ls cs = true ↔ ls <:+: cs := by
  induction cs with
  | nil => rw [occurs, List.isEmpty_iff, List.infix_nil]
  | cons c cs ih =>
    rw [occurs, Bool.or_eq_true, List.isPrefixOf_iff_prefix, ih, List.infix_cons_iff]

/-- The reply to a snippet is that of its block, or of its function if the block asks for it. -/
theorem evaluate_reply (e : Engine) (live : Nat) (code : String) (es : Entries) :
    (evaluate e live code es).1 =
      bif wantsFunction (e.evaluate [] (.ofFields code es .block)).1 then
        ((e.evaluate [] (.ofFields code es .block)).2.evaluate [.ofFields code es .block]
          (.ofFields code es .function)).1
      else (e.evaluate [] (.ofFields code es .block)).1 := by
  unfold evaluate
  dsimp only
  cases wantsFunction (e.evaluate [] (.ofFields code es .block)).1 with
  | true => rfl
  | false => rfl

section Programs

variable {L : Language} {before : List Program} {p : Program}

theorem speaking_evaluate (L : Language) (before : List Program) (p : Program) :
    (Engine.speaking L).evaluate before p = (.ofProgram L before p, .speaking L) := rfl

/-- The reply in an interpreter of a language: that of the block, or of the function after it. -/
theorem speaking_reply (L : Language) (live : Nat) (code : String) (es : Entries) :
    (evaluate (.speaking L) live code es).1 =
      bif wantsFunction (.ofProgram L [] (.ofFields code es .block)) then
        .ofProgram L [.ofFields code es .block] (.ofFields code es .function)
      else .ofProgram L [] (.ofFields code es .block) := by
  rw [evaluate_reply, speaking_evaluate, speaking_evaluate]

/-- An engine takes no text with a null character. -/
theorem ofProgram_null (h : '\x00' ∈ p.text) :
    Reply.ofProgram L before p = .raised ⟨.value, [.str "embedded null character"], none⟩ := by
  rw [Reply.ofProgram, if_pos (by rwa [List.contains_iff_mem])]

/-- The reply is the answer to the program, unless it is started after another. -/
theorem ofProgram_answer (ht : '\x00' ∉ p.text) (hs : (starts p && before.any starts) = false) :
    Reply.ofProgram L before p = .ofAnswer (L.answer p) := by
  rw [Reply.ofProgram, if_neg (by rwa [List.contains_iff_mem]), hs]
  rfl

theorem ofProgram_redeclared (ht : '\x00' ∉ p.text) (hs : (starts p && before.any starts) = true) :
    Reply.ofProgram L before p =
      .raised (.thrown (Thrown.redeclared Helper.avg.name.toList).message) := by
  rw [Reply.ofProgram, if_neg (by rwa [List.contains_iff_mem]), hs]
  rfl

theorem starts_of_read {r : List (List Char × Expr) × List Statement} (ht : '\x00' ∉ p.text)
    (hr : p.read = .ok r) : starts p = true := by
  simp [starts, ht, hr, Except.toOption]

theorem starts_of_malformed {m : Malformed} (hr : p.read = .error m) : starts p = false := by
  simp [starts, hr, Except.toOption]

/-- A value never asks for another evaluation. -/
theorem wantsFunction_ofGiven (g : Given) : wantsFunction (.ofGiven g) = false := by
  cases g <;> rfl

end Programs

theorem evaluateWithin_unlimited (hx : l.seconds? = none) (live : Nat) :
    (evaluateWithin l e live code es).result = .error (.unexpected .tooLargeForFloat) := by
  unfold evaluateWithin
  rw [hx]

/-- Within a time limit, a snippet is evaluated after the limits were set. -/
theorem evaluateWithin_limited {x : Binary64} (hx : l.seconds? = some x) (live : Nat) :
    (evaluateWithin l e live code es).result =
        (evaluate e live code es).1.result.mapError l.trouble ∧
      (evaluateWithin l e live code es).history =
        [.memoryLimit l.memoryBytes, .stackLimit stackBytes] ++
          .timeLimit x :: (evaluate e live code es).2.2 := by
  unfold evaluateWithin
  rw [hx]
  exact ⟨rfl, rfl⟩

theorem run_refused {f : Fault} (hr : e.refusal? = some f) :
    run l e h code es = ⟨.error (.ofFault f), h, e, []⟩ := by
  simp only [run, hr]

theorem run_made (hr : e.refusal? = none) :
    run l e h code es =
      (let stay := evaluateWithin l e (h.live + 1) code es
       ⟨stay.result, h, stay.engine, [stay.history ++ [.released]]⟩) := by
  simp only [run, hr, Host.acquire, Host.release, Nat.add_sub_cancel]

/-- An engine that is not there costs two readings of the clock. -/
theorem perform_unloaded {f : Failure} {ld : Loader} (hl : h.loader.load = (.error f, ld)) :
    perform l e h code es =
      ⟨(elapsed h.clock.read.1 h.clock.read.2.read.1).bind (conclude l (.error (.ofLoad f))),
        { h with clock := h.clock.read.2.read.2, loader := ld, ticks := h.ticks + 2 }, e, []⟩ := by
  simp only [perform, Host.tick, hl]

/-- The host at which a snippet is run: the engine is loaded, and the clock was read twice. -/
def readyHost (h : Host) (ld : Loader) : Host :=
  { h with clock := h.clock.read.2.read.2, loader := ld, ticks := h.ticks + 2 }

/-- An engine that is there is used between the second and the third reading. -/
theorem perform_loaded {u : Unit} {ld : Loader} (hl : h.loader.load = (.ok u, ld)) :
    perform l e h code es =
      (let c := h.clock.read.2.read
       let ev := run l e (readyHost h ld) code es
       ⟨(elapsed c.1 c.2.read.1).bind (conclude l ev.result),
        { h with clock := c.2.read.2, loader := ld, ticks := h.ticks + 3 }, ev.engine,
        ev.interpreters⟩) := by
  simp only [perform, Host.tick, hl, run_host, readyHost]

theorem execute_rejected {code data : Value} {m : String} (hc : check code data = .error m) :
    execute l e h code data = ⟨.ok (.rejected (Failure.rejected m).message), h, e, []⟩ := by
  simp only [execute, hc]

theorem execute_accepted {v data : Value} (hc : check v data = .ok (code, es)) :
    execute l e h v data = perform l e h code es := by
  simp only [execute, hc]

end Reckoner.Proofs.Execution
