import Reckoner.Proofs.Outcomes

namespace Reckoner.Proofs.Loading
open Session Snippet Acceptance Descriptions Execution Outcomes

/-- A call to an executor, which has limits of its own. -/
abbrev Asking := Limits × Request

def callOn (h : Host) (q : Asking) : Call :=
  execute q.1 q.2.engine (q.2.hostFrom h) q.2.code q.2.data

/-- Calls one after the other, to executors that share a host. -/
def callAll (h : Host) : List Asking → List Call
  | [] => []
  | q :: qs => callOn h q :: callAll (callOn h q).host qs

def hostAfter (h : Host) (qs : List Asking) : Host := qs.foldl (fun h q => (callOn h q).host) h

/-- The calls of one executor are calls with the same limits. -/
theorem executeAll_eq_callAll (l : Limits) (h : Host) (rs : List Request) :
    executeAll l h rs = callAll h (rs.map (l, ·)) := by
  induction rs generalizing h with
  | nil => rfl
  | cons r rs ih =>
    rw [executeAll, List.map_cons, callAll]
    exact congrArg _ (ih _)

/-- A call of a run is made on the host that the calls before it left. -/
theorem callAll_append (h : Host) (qs : List Asking) (q : Asking) (rest : List Asking) :
    callAll h (qs ++ q :: rest) =
      callAll h qs ++ callOn (hostAfter h qs) q ::
        callAll (callOn (hostAfter h qs) q).host rest := by
  induction qs generalizing h with
  | nil => rfl
  | cons p qs ih =>
    rw [List.cons_append, callAll, ih, callAll]
    rfl

def outcomes (i : Imports) : Nat → List (Option Fault)
  | 0 => []
  | n + 1 => i.next.1 :: outcomes i.next.2 n

/-- A loader that was asked for the engine so many times. -/
def asked (ld : Loader) : Nat → Loader
  | 0 => ld
  | n + 1 => asked ld.load.2 n

variable {ld : Loader}

theorem asked_succ (ld : Loader) (n : Nat) : asked ld (n + 1) = (asked ld n).load.2 := by
  induction n generalizing ld with
  | zero => rfl
  | succ n ih => rw [asked, ih, asked]

theorem asked_of_loaded (h : ld.loaded = true) (n : Nat) : asked ld n = ld := by
  induction n with
  | zero => rfl
  | succ n ih => rw [asked_succ, ih, Loader.load_of_loaded h]

/-- The engine is there from the first import on that succeeds. -/
theorem asked_loaded (h : ld.loaded = false) (n : Nat) :
    (asked ld n).loaded = true ↔ none ∈ outcomes ld.imports n := by
  induction n generalizing ld with
  | zero => simp [asked, outcomes, h]
  | succ n ih =>
    have hl := Loader.load_of_unloaded h
    rw [asked, outcomes, List.mem_cons]
    cases ho : ld.imports.next.1 with
    | none =>
      have ht : ld.load.2.loaded = true := by rw [hl, ho]; rfl
      simp [asked_of_loaded ht, ht]
    | some f =>
      have hf : ld.load.2.loaded = false := by rw [hl, ho]; rfl
      have hi : ld.load.2.imports = ld.imports.next.2 := by rw [hl]
      rw [ih hf, hi]
      simp

/-- How many imports are made with these outcomes: none after the first that succeeds. -/
def needed : List (Option Fault) → Nat
  | [] => 0
  | none :: _ => 1
  | some _ :: os => needed os + 1

theorem asked_imported (h : ld.loaded = false) (n : Nat) :
    (asked ld n).imported = ld.imported + needed (outcomes ld.imports n) := by
  induction n generalizing ld with
  | zero => rfl
  | succ n ih =>
    have hl := Loader.load_of_unloaded h
    rw [asked, outcomes]
    cases ho : ld.imports.next.1 with
    | none =>
      have ht : ld.load.2.loaded = true := by rw [hl, ho]; rfl
      rw [asked_of_loaded ht, hl, needed]
    | some f =>
      have hf : ld.load.2.loaded = false := by rw [hl, ho]; rfl
      rw [ih hf, hl, needed, Nat.add_assoc, Nat.add_comm 1]

def accepted (qs : List Asking) : Nat := qs.countP fun q => (check q.2.code q.2.data).isOk

variable {h : Host} {q : Asking}

theorem callOn_refused (hr : Refused q.2.code q.2.data) : (callOn h q).host.loader = h.loader := by
  obtain ⟨m, hm⟩ := (check_error_iff _ _).mpr hr
  rw [callOn, execute_rejected hm]
  rfl

/-- A call that is not refused asks for the engine once. -/
theorem callOn_asks (hr : ¬ Refused q.2.code q.2.data) :
    (callOn h q).host.loader = h.loader.load.2 := by
  obtain ⟨s, es, hk⟩ := (accepted_iff _ _).mpr hr
  rw [callOn, execute_accepted hk]
  cases hl : h.loader.load with
  | mk r ld =>
    cases r with
    | error f => rw [perform_unloaded (h := q.2.hostFrom h) hl]
    | ok u => rw [perform_loaded (h := q.2.hostFrom h) hl]

theorem isOk_check (code data : Value) : (check code data).isOk = true ↔ ¬ Refused code data := by
  rw [← accepted_iff]
  cases check code data with
  | error m => simp [Except.isOk, Except.toBool]
  | ok p =>
    obtain ⟨s, es⟩ := p
    simp [Except.isOk, Except.toBool]

/-- A run of calls asks for the engine as often as a call of it is not refused. -/
theorem hostAfter_loader (h : Host) (qs : List Asking) :
    (hostAfter h qs).loader = asked h.loader (accepted qs) := by
  induction qs generalizing h with
  | nil => rfl
  | cons q qs ih =>
    have hs : (hostAfter h (q :: qs)).loader = asked (callOn h q).host.loader (accepted qs) :=
      ih (callOn h q).host
    rw [hs, accepted, accepted, List.countP_cons]
    by_cases hr : Refused q.2.code q.2.data
    · rw [callOn_refused hr, if_neg (by rw [isOk_check]; exact not_not_intro hr), Nat.add_zero]
    · rw [callOn_asks hr, if_pos ((isOk_check _ _).mpr hr), asked]

/-- A host and calls on which every clock is steady. -/
structure SteadyRun (h : Host) (qs : List Asking) : Prop where
  host : Steady h.clock
  calls : ∀ q ∈ qs, ∀ c, q.2.clock? = some c → Steady c

theorem steady_hostFrom (hc : Steady h.clock) (hq : ∀ c, q.2.clock? = some c → Steady c) :
    Steady (q.2.hostFrom h).clock := by
  rw [Request.hostFrom]
  cases hk : q.2.clock? with
  | none => exact hc
  | some c => exact hq c hk

theorem steady_callOn (hc : Steady (q.2.hostFrom h).clock) : Steady (callOn h q).host.clock := by
  cases hk : check q.2.code q.2.data with
  | error m =>
    rw [callOn, execute_rejected hk]
    exact hc
  | ok p =>
    obtain ⟨s, es⟩ := p
    rw [callOn, execute_accepted hk]
    cases hl : (q.2.hostFrom h).loader.load with
    | mk r ld =>
      cases r with
      | error f =>
        rw [perform_unloaded hl]
        exact hc.read.read
      | ok u =>
        rw [perform_loaded hl]
        exact hc.read.read.read

theorem steady_hostAfter {qs : List Asking} (hs : SteadyRun h qs) :
    Steady (hostAfter h qs).clock := by
  induction qs generalizing h with
  | nil => exact hs.host
  | cons q qs ih =>
    refine ih ⟨?_, fun p hp => hs.calls p (List.mem_cons_of_mem _ hp)⟩
    exact steady_callOn (steady_hostFrom hs.host (hs.calls q List.mem_cons_self))

/-- The words by which a caller is told that there is no engine. -/
def loadWords : List Char := "Engine initialization failed: ".toList

theorem engineLoad_words (m : String) :
    loadWords <+: (Failure.engineLoad m).message.toList := by
  have h : (Failure.engineLoad m).message = "Engine initialization failed: " ++ m := rfl
  rw [h, String.toList_append]
  exact List.prefix_append _ _

/-- A fault of an import, or one whose own words do not begin like that. -/
def Unlike (f : Fault) : Prop :=
  f.kind.family ≠ .importing → ∀ m, (Trouble.ofFault f).words = .ok m → ¬ loadWords <+: m.toList

/-- A fault of which a failed import is told: one that has a text, if that is what is told. -/
def Speaks (f : Fault) : Prop := if f.kind.family = .importing then f.hasText = true else Tellable f

/-- A call that failed for want of an engine. Its error has the words for that exactly if a module
could not be imported, unless the fault has these words of its own. When words cannot be found for
the fault, a call on a missing module fails with the reason of that, and any other call ends on a
fault that is not told. -/
structure Told (f : Fault) (o : Except Failure Outcome) : Prop where
  spoken : Speaks f → ∃ m t, o = .ok (.failed m t) ∧
    (Unlike f → (loadWords <+: m.toList ↔ f.kind.family = .importing))
  missing : ¬ Speaks f → f.kind.family = .importing →
    ∃ t, o = .ok (.failed (Failure.tooManyDigits none).description t)
  other : ¬ Speaks f → f.kind.family ≠ .importing → Untold f o

/-- What a failed import comes to in a time depends on its fault alone. -/
theorem told_of_failed (l : Limits) (f : Fault) (t : Int) :
    Told f (conclude l (.error (.ofLoad (Loader.failureOf f))) t) := by
  by_cases hi : f.kind.family = .importing
  · have hs : Speaks f ↔ f.hasText = true := by rw [Speaks, if_pos hi]
    by_cases ht : f.hasText = true
    · have hm : Loader.failureOf f = .engineLoad (String.ofList f.message) := by
        rw [Loader.failureOf, if_pos hi, Fault.words, if_pos ht]
      rw [hm]
      refine ⟨fun _ => ⟨_, t, rfl, fun _ => iff_of_true (engineLoad_words _) hi⟩, ?_, ?_⟩
      · exact fun hn => absurd (hs.mpr ht) hn
      · exact fun hn => absurd (hs.mpr ht) hn
    · have hm : Loader.failureOf f = .tooManyDigits none := by
        rw [Loader.failureOf, if_pos hi, Fault.words, if_neg ht]
      rw [hm]
      exact ⟨fun h => absurd (hs.mp h) ht, fun _ _ => ⟨t, rfl⟩, fun _ hn => absurd hi hn⟩
  · have hs : Speaks f ↔ Tellable f := by rw [Speaks, if_neg hi]
    rw [ofLoad_uncaught hi, conclude]
    refine ⟨fun h => ?_, fun _ hn => absurd hn hi, fun h _ => ?_⟩
    · obtain ⟨m, hm, -⟩ := worded_ofFault (hs.mp h)
      exact ⟨m, t, by rw [hm]; rfl, fun hu => iff_of_false (hu hi m hm) hi⟩
    · rw [words_of_not_tellable (mt hs.mpr h), Untold]
      split
      · exact ⟨t, rfl⟩
      · rfl

/-- What a call makes of the loader that it finds, and what is told of an import that fails. -/
structure Loads (h : Host) (q : Asking) (c : Call) : Prop where
  refused : Refused q.2.code q.2.data → c.host.loader = h.loader
  kept : h.loader.loaded = true → c.host.loader = h.loader
  imports : ¬ Refused q.2.code q.2.data → h.loader.loaded = false →
    c.host.loader.imported = h.loader.imported + 1 ∧
      (c.host.loader.loaded = true ↔ h.loader.imports.next.1 = none)
  unserved : ¬ Refused q.2.code q.2.data → h.loader.loaded = false →
    ∀ f, h.loader.imports.next.1 = some f →
      c.interpreters = [] ∧ (Steady (q.2.hostFrom h).clock → Told f c.outcome)

/-- A call whose import fails makes no interpreter, and is told of the fault. -/
theorem callOn_unserved (hr : ¬ Refused q.2.code q.2.data) (hl : h.loader.loaded = false)
    {f : Fault} (hf : h.loader.imports.next.1 = some f) :
    (callOn h q).interpreters = [] ∧
      (Steady (q.2.hostFrom h).clock → Told f (callOn h q).outcome) := by
  obtain ⟨s, es, hk⟩ := (accepted_iff _ _).mpr hr
  have hload : (q.2.hostFrom h).loader.load = (.error (Loader.failureOf f), h.loader.load.2) := by
    rw [show (q.2.hostFrom h).loader = h.loader from rfl, Loader.load_of_unloaded hl, hf]
    rfl
  rw [callOn, execute_accepted hk, perform_unloaded hload]
  refine ⟨rfl, fun hc => ?_⟩
  obtain ⟨t, ht⟩ := elapsed_of_steady hc (read_shows _) (shows_of_read (read_shows _))
  rw [ht]
  exact told_of_failed q.1 f t

theorem callOn_loads (h : Host) (q : Asking) : Loads h q (callOn h q) where
  refused := callOn_refused
  kept := by
    intro hl
    by_cases hr : Refused q.2.code q.2.data
    · exact callOn_refused hr
    · rw [callOn_asks hr, Loader.load_of_loaded hl]
  imports := by
    intro hr hl
    rw [callOn_asks hr, Loader.load_of_unloaded hl]
    exact ⟨rfl, Option.isNone_iff_eq_none⟩
  unserved := fun hr hl f hf => callOn_unserved hr hl hf

/-- A module that is missing at first, then is broken, and then is there. -/
def repairs : Imports :=
  ⟨[some ⟨.moduleNotFound, [.str "No module named 'quickjs'"], none⟩,
    some ⟨.runtime, [.str "broken"], none⟩, none]⟩

def repairedHost : Host := ⟨twoSeconds, .start "quickjs" repairs, 0, 0⟩

def blankCall : Asking := (.default, ⟨.str " ", .none, .scripted none [], none⟩)

def additionCall : Asking :=
  (.default, ⟨.str "1 + 2", .none, .scripted none [.value (.int 3)], none⟩)

theorem repairedHost_steady {qs : List Asking} (h : ∀ q ∈ qs, q.2.clock? = none) :
    SteadyRun repairedHost qs where
  host := twoSeconds_steady
  calls := by
    intro q hq c hc
    rw [h q hq] at hc
    cases hc

end Reckoner.Proofs.Loading
