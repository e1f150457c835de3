import Reckoner.Proofs.Execution

namespace Reckoner.Proofs.Timely
open Session Snippet Execution

/-- A host on which the engine is there and nothing takes longer than the limit. -/
structure InTime (l : Limits) (h : Host) : Prop where
  loaded : ∃ ld, h.loader.load = (.ok (), ld)
  timely : ∃ t, elapsed h.clock.read.2.read.1 h.clock.read.2.read.2.read.1 = .ok t ∧
    t ≤ l.timeoutMs

def ending (result : Except Trouble Value) (time : Int) : Except Failure Outcome :=
  match result with
  | .error u => u.words.map (.failed · time)
  | .ok v => .ok (.succeeded v time)

variable {l : Limits} {e : Engine} {h : Host} {code data : Value} {s : String} {es : Entries}

theorem conclude_inTime {t : Int} (ht : t ≤ l.timeoutMs) (result : Except Trouble Value) :
    conclude l result t = ending result t := by
  cases result with
  | error u => rfl
  | ok v => rw [conclude, if_neg (by omega), ending]

/-- In time, an accepted call ends in the result of its run. -/
theorem execute_inTime (hc : check code data = .ok (s, es)) (ht : InTime l h) :
    ∃ ld t, (execute l e h code data).outcome =
      ending (run l e (readyHost h ld) s es).result t := by
  obtain ⟨ld, hl⟩ := ht.loaded
  obtain ⟨t, he, hle⟩ := ht.timely
  refine ⟨ld, t, ?_⟩
  rw [execute_accepted hc, perform_loaded hl]
  dsimp only
  rw [he, Except.bind, conclude_inTime hle]

/-- In time and with a time limit, an accepted call ends in the reply to its snippet. -/
theorem execute_reply {r : Reply} (hc : check code data = .ok (s, es)) (ht : InTime l h)
    (hr : e.refusal? = none) (hl : ∃ x, l.seconds? = some x)
    (hv : ∀ n, (evaluate e n s es).1 = r) :
    ∃ t, (execute l e h code data).outcome = ending (r.result.mapError l.trouble) t := by
  obtain ⟨x, hx⟩ := hl
  obtain ⟨ld, t, ho⟩ := execute_inTime (e := e) hc ht
  refine ⟨t, ?_⟩
  rw [ho, run_made hr]
  dsimp only
  rw [(evaluateWithin_limited hx _).1, hv]

/-- A host on which the engine is there and the clock stands still. -/
def stillHost : Host := ⟨⟨[]⟩, .start "quickjs" ⟨[]⟩, 0, 0⟩

theorem stillHost_inTime : InTime .default stillHost where
  loaded := ⟨_, rfl⟩
  timely := by
    have he : (elapsed (.zero false) (.zero false)).toOption = some 0 := by
      decide +kernel
    cases ht : elapsed (.zero false) (.zero false) with
    | error f =>
      rw [ht] at he
      cases he
    | ok t =>
      rw [ht] at he
      cases he
      exact ⟨0, ht, by decide⟩

end Reckoner.Proofs.Timely
