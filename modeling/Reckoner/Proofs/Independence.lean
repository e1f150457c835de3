import Reckoner.Proofs.Interpreters
import Reckoner.Proofs.Loading
import Reckoner.Proofs.Timely

namespace Reckoner.Proofs.Independence
open Session Snippet Execution Interpreters Loading

def readings : Nat → Clock → List Binary64
  | 0, _ => []
  | n + 1, c => c.read.1 :: readings n c.read.2

/-- Two hosts that look the same to a call: it reads the clock three times at most, and imports the
engine only where this is not loaded. -/
structure SameView (g h : Host) : Prop where
  live : g.live = h.live
  loaded : g.loader.loaded = h.loader.loaded
  pending : g.loader.loaded = false → g.loader.imports.next.1 = h.loader.imports.next.1
  readings : readings 3 g.clock = readings 3 h.clock

variable {g h : Host} {l : Limits} {e : Engine} {code : String} {es : Entries}

theorem SameView.clock (hv : SameView g h) :
    g.clock.read.1 = h.clock.read.1 ∧ g.clock.read.2.read.1 = h.clock.read.2.read.1 ∧
      g.clock.read.2.read.2.read.1 = h.clock.read.2.read.2.read.1 := by
  have hr := hv.readings
  simp only [Independence.readings, List.cons.injEq, and_true] at hr
  exact hr

/-- Both loaders give the engine, or fail alike. -/
theorem SameView.load (hv : SameView g h) : g.loader.load.1 = h.loader.load.1 := by
  have hl := hv.loaded
  cases hg : g.loader.loaded with
  | true =>
    rw [hg] at hl
    rw [Loader.load_of_loaded hg, Loader.load_of_loaded hl.symm]
  | false =>
    have hp := hv.pending hg
    rw [hg] at hl
    rw [Loader.load_of_unloaded hg, Loader.load_of_unloaded hl.symm, hp]

/-- A run sees of its host how many interpreters are live. -/
theorem run_view (code : String) (es : Entries) (hl : g.live = h.live) :
    (run l e g code es).result = (run l e h code es).result ∧
      (run l e g code es).interpreters = (run l e h code es).interpreters := by
  cases hr : e.refusal? with
  | some f => simp only [run_refused hr, and_self]
  | none => simp only [run_made hr, hl, and_self]

theorem perform_view (hv : SameView g h) :
    (perform l e g code es).outcome = (perform l e h code es).outcome ∧
      (perform l e g code es).interpreters = (perform l e h code es).interpreters := by
  obtain ⟨h0, h1, h2⟩ := hv.clock
  have hl := hv.load
  cases hg : g.loader.load with
  | mk r ld =>
    cases hh : h.loader.load with
    | mk r' ld' =>
      rw [hg, hh] at hl
      change r = r' at hl
      subst r'
      cases r with
      | error f =>
        rw [perform_unloaded hg, perform_unloaded hh, h0, h1]
        exact ⟨rfl, rfl⟩
      | ok u =>
        obtain ⟨hres, hint⟩ := run_view (l := l) (e := e) code es
          (show (readyHost g ld).live = (readyHost h ld').live from hv.live)
        rw [perform_loaded hg, perform_loaded hh]
        dsimp only
        rw [h1, h2, hres]
        exact ⟨rfl, hint⟩

/-- Calls on hosts that look the same end alike, and do the same to interpreters. -/
theorem execute_view (hv : SameView g h) (code data : Value) :
    (execute l e g code data).outcome = (execute l e h code data).outcome ∧
      (execute l e g code data).interpreters = (execute l e h code data).interpreters := by
  cases hk : check code data with
  | error m =>
    rw [execute_rejected hk, execute_rejected hk]
    exact ⟨rfl, rfl⟩
  | ok p =>
    obtain ⟨s, es⟩ := p
    rw [execute_accepted hk, execute_accepted hk]
    exact perform_view hv

/-- A run of calls leaves as many live interpreters as there were. -/
theorem hostAfter_live (h : Host) (qs : List Asking) : (hostAfter h qs).live = h.live := by
  induction qs generalizing h with
  | nil => rfl
  | cons q qs ih =>
    have hb := (execute_kept q.1 (q.2.hostFrom h) q.2).balanced
    exact (ih (callOn h q).host).trans hb

/-- Whatever two runs of calls went through: a call after the one and after the other, which meets
the same readings of the clock, and the engine loaded or a pending import of the same outcome, is
answered alike and leaves the same histories of interpreters. -/
theorem history_irrelevant {h₁ h₂ : Host} (hz₁ : h₁.live = 0) (hz₂ : h₂.live = 0)
    {qs₁ qs₂ : List Asking} {q : Asking}
    (hl : (hostAfter h₁ qs₁).loader.loaded = (hostAfter h₂ qs₂).loader.loaded)
    (hp : (hostAfter h₁ qs₁).loader.loaded = false →
      (hostAfter h₁ qs₁).loader.imports.next.1 = (hostAfter h₂ qs₂).loader.imports.next.1)
    (hr : readings 3 (q.2.hostFrom (hostAfter h₁ qs₁)).clock =
      readings 3 (q.2.hostFrom (hostAfter h₂ qs₂)).clock) :
    ∃ c₁ c₂, callAll h₁ (qs₁ ++ [q]) = callAll h₁ qs₁ ++ [c₁] ∧
      callAll h₂ (qs₂ ++ [q]) = callAll h₂ qs₂ ++ [c₂] ∧
      c₁.outcome = c₂.outcome ∧ c₁.interpreters = c₂.interpreters := by
  refine ⟨_, _, callAll_append h₁ qs₁ q [], callAll_append h₂ qs₂ q [], ?_⟩
  have hlive : (hostAfter h₁ qs₁).live = (hostAfter h₂ qs₂).live := by
    rw [hostAfter_live, hostAfter_live, hz₁, hz₂]
  have hv : SameView (q.2.hostFrom (hostAfter h₁ qs₁)) (q.2.hostFrom (hostAfter h₂ qs₂)) :=
    ⟨hlive, hl, hp, hr⟩
  exact execute_view hv q.2.code q.2.data

def interruptedCall : Asking :=
  (.default, ⟨.str "1 + 2", .none,
    .scripted none [.raised ⟨.guest, [.str "interrupted"], none⟩], none⟩)

def timedCall : Asking :=
  (.default, ⟨.str "1 + 2", .none, .scripted none [.value (.int 3)], some Outcomes.twoSeconds⟩)

/-- An interrupted snippet before a call changes nothing for it, nor do two imports that fail. -/
theorem interruption_irrelevant :
    (hostAfter Timely.stillHost [interruptedCall]).loader.loaded = true ∧
    (hostAfter repairedHost
      [additionCall, blankCall, additionCall, additionCall]).loader.loaded = true ∧
    ∃ c₁ c₂, callAll Timely.stillHost ([interruptedCall] ++ [timedCall]) =
        callAll Timely.stillHost [interruptedCall] ++ [c₁] ∧
      callAll repairedHost ([additionCall, blankCall, additionCall, additionCall] ++ [timedCall]) =
        callAll repairedHost [additionCall, blankCall, additionCall, additionCall] ++ [c₂] ∧
      c₁.outcome = c₂.outcome ∧ c₁.interpreters = c₂.interpreters := by
  have h1 : (hostAfter Timely.stillHost [interruptedCall]).loader.loaded = true := by
    rw [hostAfter_loader, show accepted [interruptedCall] = 1 by decide +kernel]
    rfl
  have h2 : (hostAfter repairedHost
      [additionCall, blankCall, additionCall, additionCall]).loader.loaded = true := by
    rw [hostAfter_loader,
      show accepted [additionCall, blankCall, additionCall, additionCall] = 3 by decide +kernel]
    rfl
  refine ⟨h1, h2, history_irrelevant rfl rfl (h1.trans h2.symm) (fun h => ?_) rfl⟩
  rw [h1] at h
  cases h

end Reckoner.Proofs.Independence
