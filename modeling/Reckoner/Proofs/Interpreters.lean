import Mathlib.Data.List.Forall2
import Reckoner.Proofs.Execution

namespace Reckoner.Proofs.Interpreters
open Session Snippet Execution

/-- Members of a prefix without an event stand before every occurrence of that event. -/
theorem before_of_split {xs ys before after : History} {e : Event} (he : e ∉ xs)
    (h : xs ++ ys = before ++ e :: after) : ∀ a ∈ xs, a ∈ before := by
  intro a ha
  rcases List.append_eq_append_iff.mp h with ⟨ws, rfl, -⟩ | ⟨ws, rfl, hw⟩
  · exact List.mem_append_left _ ha
  · cases ws with
    | nil => simpa using ha
    | cons w ws =>
      simp only [List.cons_append, List.cons.injEq] at hw
      obtain ⟨rfl, -⟩ := hw
      exact absurd (List.mem_append_right _ List.mem_cons_self) he

/-- The life of an interpreter: it gets its limits before it evaluates anything, it is counted at
every evaluation, and it is released once, at the end. -/
structure Lifecycle (l : Limits) (live : Nat) (i : History) : Prop where
  memory : i.memory? = some l.memoryBytes
  stack : i.stack? = some stackBytes
  time : i.time? = l.seconds?
  limited : ∀ before p n after, i = before ++ .evaluated p n :: after →
    .memoryLimit l.memoryBytes ∈ before ∧ .stackLimit stackBytes ∈ before ∧
      ∃ s, l.seconds? = some s ∧ .timeLimit s ∈ before
  counted : ∀ n ∈ i.live, n = live
  released : ∃ before : History, i = before ++ [.released] ∧ before.releases = 0

/-- A snippet is evaluated as a block, and once more as a function if that is asked for. -/
theorem evaluate_events (e : Engine) (live : Nat) (code : String) (es : Entries) :
    (evaluate e live code es).2.2 = [.evaluated (.ofFields code es .block) live] ∨
    (evaluate e live code es).2.2 =
      [.evaluated (.ofFields code es .block) live,
        .evaluated (.ofFields code es .function) live] := by
  unfold evaluate
  dsimp only
  split
  · exact .inr rfl
  · exact .inl rfl

/-- An interpreter without a time limit evaluates nothing. -/
theorem lifecycle_unlimited {l : Limits} (hs : l.seconds? = none) (live : Nat) :
    Lifecycle l live [.memoryLimit l.memoryBytes, .stackLimit stackBytes, .released] where
  memory := rfl
  stack := rfl
  time := hs.symm
  limited := by
    intro before p n after h
    have hm : Event.evaluated p n ∈
        [.memoryLimit l.memoryBytes, .stackLimit stackBytes, .released] := by
      rw [h]
      exact List.mem_append_right _ List.mem_cons_self
    simp at hm
  counted := by simp [History.live]
  released := ⟨[_, _], rfl, rfl⟩

/-- Evaluations between the limits and the release make a life. -/
theorem lifecycle_limited {l : Limits} {s : Binary64} (hs : l.seconds? = some s) {live : Nat}
    {evaluations : History} (hl : ∀ n ∈ evaluations.live, n = live)
    (hr : evaluations.releases = 0) :
    Lifecycle l live (([.memoryLimit l.memoryBytes, .stackLimit stackBytes] ++
      .timeLimit s :: evaluations) ++ [.released]) where
  memory := rfl
  stack := rfl
  time := hs.symm
  limited := by
    intro before p n after h
    have he : Event.evaluated p n ∉
        [.memoryLimit l.memoryBytes, .stackLimit stackBytes, .timeLimit s] := by
      simp
    have hb := before_of_split he (by simpa using h)
    exact ⟨hb _ (by simp), hb _ (by simp), s, hs, hb _ (by simp)⟩
  counted := by
    intro n hn
    simp only [History.live_append] at hn
    exact hl n (by simpa [History.live] using hn)
  released := ⟨_, rfl, by simpa [History.releases] using hr⟩

/-- Whatever the limits and the engine's answers, the interpreter of a snippet lives like that. -/
theorem evaluateWithin_lifecycle (l : Limits) (e : Engine) (live : Nat) (code : String)
    (es : Entries) :
    Lifecycle l live ((evaluateWithin l e live code es).history ++ [.released]) := by
  unfold evaluateWithin
  cases hs : l.seconds? with
  | none => exact lifecycle_unlimited hs live
  | some s =>
    dsimp only
    apply lifecycle_limited hs
    · rcases evaluate_events e live code es with h | h <;> simp [h, History.live]
    · rcases evaluate_events e live code es with h | h <;> simp [h, History.releases]

/-- What a call does to interpreters: as many are live as before it, it makes at most one, which
lives and ends within the call, and none if the engine refuses to make one. -/
structure Kept (l : Limits) (live : Nat) (r : Request) (c : Call) : Prop where
  balanced : c.host.live = live
  single : c.interpreters.length ≤ 1
  lifecycle : ∀ i ∈ c.interpreters, Lifecycle l (live + 1) i
  refused : r.engine.refusal?.isSome = true → c.interpreters = []

theorem kept_without {l : Limits} {live : Nat} {r : Request} {c : Call} (hl : c.host.live = live)
    (hi : c.interpreters = []) : Kept l live r c :=
  ⟨hl, by simp [hi], by simp [hi], fun _ => hi⟩

/-- A call keeps the count of live interpreters, on every way out. -/
theorem execute_kept (l : Limits) (h : Host) (r : Request) :
    Kept l h.live r (execute l r.engine h r.code r.data) := by
  cases hk : check r.code r.data with
  | error m => exact kept_without (by rw [execute_rejected hk]) (by rw [execute_rejected hk])
  | ok p =>
    obtain ⟨s, es⟩ := p
    rw [execute_accepted hk]
    cases hl : h.loader.load with
    | mk result ld =>
      cases result with
      | error f => exact kept_without (by rw [perform_unloaded hl]) (by rw [perform_unloaded hl])
      | ok u =>
        simp only [perform_loaded hl]
        cases hr : r.engine.refusal? with
        | some f => exact kept_without rfl (by rw [run_refused hr])
        | none =>
          simp only [run_made hr]
          refine ⟨rfl, by simp, ?_, by simp [hr]⟩
          intro i hi
          rw [List.mem_singleton.mp hi]
          exact evaluateWithin_lifecycle l r.engine (h.live + 1) s es

/-- In any run of calls, every call leaves as many live interpreters as there were at the start. -/
theorem executeAll_kept (l : Limits) (h : Host) (rs : List Request) :
    List.Forall₂ (Kept l h.live) rs (executeAll l h rs) := by
  induction rs generalizing h with
  | nil => exact .nil
  | cons r rs ih =>
    have hc := execute_kept l (r.hostFrom h) r
    refine .cons hc ?_
    -- The calls that follow start with as many live interpreters as this one.
    have hi := ih (execute l r.engine (r.hostFrom h) r.code r.data).host
    rwa [hc.balanced] at hi

end Reckoner.Proofs.Interpreters
