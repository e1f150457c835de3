import Reckoner.Proofs.Evaluations
import Reckoner.Proofs.Scopes
import Reckoner.Proofs.Statements

namespace Reckoner.Proofs.BareSnippets
open Session Snippet Text Acceptance Execution Scopes Timely

variable {code : String} {x : Expr} {g : Guest} {w : Wrapping}

theorem bare_whole (hn : '\x00' ∉ code.toList) (w : Wrapping) :
    '\x00' ∉ (Program.ofFields code [] w).text := by
  rw [text_whole_iff]
  exact not_or.mpr ⟨by decide, hn⟩

/-- A snippet without data comes to what its statements come to in no scope. -/
theorem bare_answer {ss : List Statement} (hp : parse w code.toList = .ok ss) :
    Language.standard.answer (.ofFields code [] w) = Language.standard.run w [] ss := by
  simp only [Language.answer, Program.read, Program.ofFields, hp]
  rfl

theorem bare_block (hp : parse .block code.toList = .ok [.expr x]) :
    Language.standard.answer (.ofFields code [] .block) =
      match eval [] x with
      | .error t => .error t.message
      | .ok g => .ok (.ofGuest g) := by
  apply (bare_answer hp).trans
  apply (Language.run_expr (s := ([], .undefined)) rfl x).trans
  simp only [Language.standard, Wrapping.scope]
  cases eval [] x <;> rfl

theorem bare_function (hp : parse .function code.toList = .ok [.result (some x)]) :
    Language.standard.answer (.ofFields code [] .function) =
      match eval (Wrapping.function.scope []) x with
      | .error t => .error t.message
      | .ok g => .ok (.ofGuest g) := by
  apply (bare_answer hp).trans
  apply (Language.run_result (s := ([], .undefined)) rfl x).trans
  simp only [Language.standard]
  cases eval (Wrapping.function.scope []) x <;> rfl

/-- A block that has a value is replied to with that. -/
theorem bare_reply {v : Given} (hn : '\x00' ∉ code.toList)
    (ha : Language.standard.answer (.ofFields code [] .block) = .ok v) (n : Nat) :
    (evaluate .interpreter n code []).1 = .ofGiven v := by
  have hb : Reply.ofProgram .standard [] (.ofFields code [] .block) = .ofGiven v := by
    rw [ofProgram_answer (bare_whole hn .block) (by simp), ha]
    rfl
  rw [Engine.interpreter, speaking_reply, hb, wantsFunction_ofGiven, cond_false]

/-- A call without data ends in the reply to its snippet. -/
theorem bare_execute {r : Reply} (hc : complaints code.toList = [])
    (hr : ∀ n, (evaluate .interpreter n code []).1 = r) :
    ∃ t, (execute .default .interpreter stillHost (.str code) .none).outcome =
      ending (r.result.mapError Limits.default.trouble) t :=
  execute_reply (check_bare hc) stillHost_inTime rfl ⟨_, if_pos (by decide +kernel)⟩ hr

theorem bare_value {v : Value} (hc : complaints code.toList = [])
    (hr : ∀ n, (evaluate .interpreter n code []).1 = .ofGiven (.ofGuest g))
    (hv : (Reply.ofGiven (.ofGuest g)).result = .ok v) :
    ∃ t, (execute .default .interpreter stillHost (.str code) .none).outcome =
      .ok (.succeeded v t) := by
  obtain ⟨t, ht⟩ := bare_execute hc hr
  rw [hv] at ht
  exact ⟨t, ht⟩

theorem bare_thrown {m d : String} (hc : complaints code.toList = [])
    (hr : ∀ n, (evaluate .interpreter n code []).1 = .raised (.thrown m))
    (hd : (Limits.default.trouble (.thrown m)).words.toOption = some d) :
    ∃ t, (execute .default .interpreter stillHost (.str code) .none).outcome =
      .ok (.failed d t) := by
  obtain ⟨t, ht⟩ := bare_execute hc hr
  refine ⟨t, ht.trans ?_⟩
  rw [Reply.result, Except.mapError, ending]
  cases hw : (Limits.default.trouble (.thrown m)).words with
  | error f => simp [hw, Except.toOption] at hd
  | ok d' =>
    have hs : d' = d := by simpa [hw, Except.toOption] using hd
    rw [hs]
    rfl

end Reckoner.Proofs.BareSnippets
