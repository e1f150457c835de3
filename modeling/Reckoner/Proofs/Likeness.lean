import Reckoner.Proofs.Descriptions
import Reckoner.Proofs.Timely

namespace Reckoner.Proofs.Likeness
open Session Snippet Execution Timely Descriptions

variable {L : Language} {s t : String} {es fs : Entries} {code data code' data' : Value}

/-- The interpreters of a language give two snippets with their fields the same reply. -/
def SameReply (L : Language) (s : String) (es : Entries) (t : String) (fs : Entries) : Prop :=
  ∀ n m, (evaluate (.speaking L) n s es).1 = (evaluate (.speaking L) m t fs).1

inductive Alike (L : Language) (code data code' data' : Value) : Prop where
  | rejected (m : String) (left : check code data = .error m) (right : check code' data' = .error m)
  | accepted (s t : String) (es fs : Entries) (left : check code data = .ok (s, es))
      (right : check code' data' = .ok (t, fs)) (reply : SameReply L s es t fs)

/-- The result of a run is that of its reply, wherever and whenever it takes place. -/
theorem SameReply.run (h : SameReply L s es t fs) (l : Limits) (host host' : Host) :
    (run l (.speaking L) host s es).result = (run l (.speaking L) host' t fs).result := by
  rw [run_made rfl, run_made rfl]
  dsimp only
  cases hx : l.seconds? with
  | none => rw [evaluateWithin_unlimited hx, evaluateWithin_unlimited hx]
  | some x =>
    rw [(evaluateWithin_limited hx _).1, (evaluateWithin_limited hx _).1,
      h (host.live + 1) (host'.live + 1)]

/-- What an interpreter raises, and what it says of an object that it cannot write, has words. -/
theorem thrown_worded (l : Limits) (m : String) : Worded (l.trouble (.thrown m)) :=
  trouble_worded l (.inr rfl)

theorem ofAnswer_worded (l : Limits) (answer : Except String Given) {f : Fault}
    (h : (Reply.ofAnswer answer).result = .error f) : Worded (l.trouble f) := by
  match answer with
  | .error m =>
    cases h
    exact thrown_worded l m
  | .ok (.value v) => cases h
  | .ok (.object (.ok text)) => cases h
  | .ok (.object (.error m)) =>
    cases h
    exact thrown_worded l m

/-- Whatever an interpreter of a language refuses, the caller is told in words. -/
theorem ofProgram_worded (l : Limits) (before : List Program) (p : Program) {f : Fault}
    (h : (Reply.ofProgram L before p).result = .error f) : Worded (l.trouble f) := by
  by_cases ht : '\x00' ∈ p.text
  · rw [ofProgram_null ht] at h
    cases h
    rw [trouble_uncaught l (by simp [FaultKind.family]) (by simp [FaultKind.family])]
    refine worded_ofFault ?_
    rw [Tellable, if_neg (by simp [FaultKind.family])]
    decide +kernel
  · cases hb : starts p && before.any starts with
    | true =>
      rw [ofProgram_redeclared ht hb] at h
      cases h
      exact thrown_worded l _
    | false =>
      rw [ofProgram_answer ht hb] at h
      exact ofAnswer_worded l _ h

theorem run_worded (l : Limits) (host : Host) {u : Trouble}
    (h : (run l (.speaking L) host s es).result = .error u) : Worded u := by
  rw [run_made rfl] at h
  dsimp only at h
  cases hx : l.seconds? with
  | none =>
    rw [evaluateWithin_unlimited hx] at h
    cases h
    exact overflow_worded
  | some x =>
    rw [(evaluateWithin_limited hx _).1, speaking_reply] at h
    have hw : ∀ r : Reply, (∀ f, r.result = .error f → Worded (l.trouble f)) →
        r.result.mapError l.trouble = .error u → Worded u := by
      intro r hr he
      cases hv : r.result with
      | ok v =>
        rw [hv] at he
        cases he
      | error f =>
        rw [hv] at he
        cases he
        exact hr f hv
    cases hb : wantsFunction (.ofProgram L [] (.ofFields s es .block)) with
    | true =>
      rw [hb, cond_true] at h
      exact hw _ (fun f => ofProgram_worded l _ _) h
    | false =>
      rw [hb, cond_false] at h
      exact hw _ (fun f => ofProgram_worded l _ _) h

/-- On one host, calls that are alike come to the same outcome. -/
theorem Alike.outcome (h : Alike L code data code' data') (l : Limits) (host : Host) :
    (execute l (.speaking L) host code data).outcome =
      (execute l (.speaking L) host code' data').outcome := by
  cases h with
  | rejected m hm hm' => rw [execute_rejected hm, execute_rejected hm']
  | accepted s t es fs hs ht hr =>
    rw [execute_accepted hs, execute_accepted ht]
    cases hl : host.loader.load with
    | mk r ld =>
      cases r with
      | error f => rw [perform_unloaded hl, perform_unloaded hl]
      | ok u =>
        rw [perform_loaded hl, perform_loaded hl]
        dsimp only
        rw [hr.run l (readyHost host ld) (readyHost host ld)]

/-- On hosts in time, calls that are alike come to the same but for the time. -/
theorem Alike.report (h : Alike L code data code' data') {l : Limits} {host host' : Host}
    (ht : InTime l host) (ht' : InTime l host') :
    ∃ o o', (execute l (.speaking L) host code data).outcome = .ok o ∧
      (execute l (.speaking L) host' code' data').outcome = .ok o' ∧
      o.success = o'.success ∧ o.value = o'.value ∧ o.error? = o'.error? := by
  cases h with
  | rejected m hm hm' =>
    rw [execute_rejected hm, execute_rejected hm']
    exact ⟨_, _, rfl, rfl, rfl, rfl, rfl⟩
  | accepted s t es fs hs hs' hr =>
    obtain ⟨ld, n, ho⟩ := execute_inTime (e := .speaking L) hs ht
    obtain ⟨ld', n', ho'⟩ := execute_inTime (e := .speaking L) hs' ht'
    rw [hr.run l (readyHost host ld) (readyHost host' ld')] at ho
    cases hv : (Session.run l (.speaking L) (readyHost host' ld') t fs).result with
    | ok v =>
      rw [hv] at ho ho'
      exact ⟨_, _, ho, ho', rfl, rfl, rfl⟩
    | error u =>
      obtain ⟨m, hm, -⟩ := run_worded l _ hv
      rw [hv, ending, hm] at ho ho'
      exact ⟨_, _, ho, ho', rfl, rfl, rfl⟩

end Reckoner.Proofs.Likeness
