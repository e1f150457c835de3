import Reckoner.Proofs.Acceptance
import Reckoner.Proofs.Descriptions
import Reckoner.Proofs.Execution
import Reckoner.Proofs.JsonTexts

namespace Reckoner.Proofs.Outcomes
open Session Snippet Acceptance Descriptions Execution

/-- What a clock may show: one of its readings, or zero when it has none. -/
def Shows (c : Clock) (x : Binary64) : Prop :=
  x ∈ c.readings ∨ (c.readings = [] ∧ x = .zero false)

/-- Any time between two readings is finite in milliseconds. -/
def Steady (c : Clock) : Prop :=
  ∀ x y, Shows c x → Shows c y → ((y.sub x).mul (.ofInt 1000)).isFinite = true

theorem read_shows (c : Clock) : Shows c c.read.1 := by
  obtain ⟨_ | ⟨x, _ | ⟨y, rest⟩⟩⟩ := c
  · exact .inr ⟨rfl, rfl⟩
  · exact .inl (List.mem_cons_self)
  · exact .inl (List.mem_cons_self)

/-- A clock that was read shows nothing it would not have shown before. -/
theorem shows_of_read {c : Clock} {x : Binary64} (h : Shows c.read.2 x) : Shows c x := by
  obtain ⟨_ | ⟨y, _ | ⟨z, rest⟩⟩⟩ := c
  · exact h
  · exact h
  · rcases h with h | ⟨h, -⟩
    · exact .inl (List.mem_cons_of_mem _ h)
    · simp [Clock.read] at h

theorem trunc_of_finite {x : Binary64} (h : x.isFinite = true) : ∃ n, x.trunc? = some n := by
  cases x with
  | nan => simp [Binary64.isFinite] at h
  | inf s => simp [Binary64.isFinite] at h
  | fin s m => cases s <;> exact ⟨_, rfl⟩

/-- Between readings of a steady clock there is a whole number of milliseconds. -/
theorem elapsed_of_steady {c : Clock} (hc : Steady c) {x y : Binary64} (hx : Shows c x)
    (hy : Shows c y) : ∃ t, elapsed x y = .ok t := by
  obtain ⟨t, ht⟩ := trunc_of_finite (hc x y hx hy)
  exact ⟨t, by rw [elapsed, integerOfFloat, ht]⟩

theorem Steady.read {c : Clock} (hc : Steady c) : Steady c.read.2 :=
  fun x y hx hy => hc x y (shows_of_read hx) (shows_of_read hy)

/-- A clock with readings shows no zero of its own. -/
theorem Steady.of_readings {c : Clock} (hne : c.readings ≠ [])
    (hr : ∀ x ∈ c.readings, ∀ y ∈ c.readings, ((y.sub x).mul (.ofInt 1000)).isFinite = true) :
    Steady c := by
  rintro x y (hx | ⟨h, -⟩) (hy | ⟨h, -⟩)
  · exact hr x hx y hy
  · exact absurd h hne
  · exact absurd h hne
  · exact absurd h hne

/-- An outcome of a call that was rejected: no value, no time, and an error that says so. -/
structure IsRejected (o : Outcome) : Prop where
  success : o.success = false
  value : o.value = .none
  time : o.time? = none
  error : ∃ m, o.error? = some ("Validation failed: " ++ m)

/-- An outcome of a call that failed: no value, an error in words, and the time it took. -/
structure IsFailed (o : Outcome) : Prop where
  success : o.success = false
  value : o.value = .none
  time : ∃ t, o.time? = some t
  error : ∃ m, o.error? = some m ∧ m ≠ ""

/-- An outcome of a call that succeeded: no error, and a time within the limit. -/
structure IsSucceeded (l : Limits) (o : Outcome) : Prop where
  success : o.success = true
  error : o.error? = none
  time : ∃ t, t ≤ l.timeoutMs ∧ o.time? = some t

theorem failed_shape {m : String} (hm : m ≠ "") (t : Int) : IsFailed (.failed m t) :=
  ⟨rfl, rfl, ⟨t, rfl⟩, ⟨m, rfl, hm⟩⟩

theorem rejected_shape (m : String) : IsRejected (.rejected (Failure.rejected m).message) :=
  ⟨rfl, rfl, rfl, ⟨m, rfl⟩⟩

/-- What an accepted call comes to, before its time is looked at. -/
def comesTo (l : Limits) (e : Engine) (h : Host) (s : String) (es : Entries) :
    Except Trouble Value :=
  match h.loader.load with
  | (.error f, _) => .error (.ofLoad f)
  | (.ok _, ld) => (run l e (readyHost h ld) s es).result

/-- A fault that nothing on the way of an accepted call catches: one that an import raises for
another reason than a missing module, one that keeps the engine from making an interpreter, or one
of the last reply, unless it is the guest's or a want of memory. -/
inductive Surfaces (l : Limits) (e : Engine) (h : Host) (s : String) (es : Entries) (f : Fault) :
    Prop where
  | load (unloaded : h.loader.loaded = false) (raised : h.loader.imports.next.1 = some f)
    (uncaught : f.kind.family ≠ .importing)
  | refusal (loaded : ∃ ld, h.loader.load = (.ok (), ld)) (raised : e.refusal? = some f)
  | reply (loaded : ∃ ld, h.loader.load = (.ok (), ld)) (made : e.refusal? = none)
    (limited : ∃ x, l.seconds? = some x)
    (raised : (evaluate e (h.live + 1) s es).1.result = .error f)
    (uncaught : f.kind.family ≠ .memory ∧ f.kind.family ≠ .guest)

section
variable {l : Limits} {e : Engine} {h : Host} {s : String} {es : Entries} {f : Fault}

/-- A call whose import fails comes to the trouble of that. -/
theorem comesTo_unloaded (hl : h.loader.loaded = false) (hf : h.loader.imports.next.1 = some f) :
    comesTo l e h s es = .error (.ofLoad (Loader.failureOf f)) := by
  rw [comesTo, Loader.load_of_unloaded hl, hf]
  rfl

theorem comesTo_loaded {ld : Loader} (hl : h.loader.load = (.ok (), ld)) :
    comesTo l e h s es = (run l e (readyHost h ld) s es).result := by
  unfold comesTo
  rw [hl]

theorem comesTo_reply {ld : Loader} (hl : h.loader.load = (.ok (), ld)) (hr : e.refusal? = none)
    {x : Binary64} (hx : l.seconds? = some x) :
    comesTo l e h s es = (evaluate e (h.live + 1) s es).1.result.mapError l.trouble := by
  rw [comesTo_loaded hl, run_made hr, show (readyHost h ld).live = h.live from rfl]
  dsimp only
  exact (evaluateWithin_limited hx _).1

/-- A fault that surfaces is what the call comes to. -/
theorem comesTo_of_surfaces (hs : Surfaces l e h s es f) :
    comesTo l e h s es = .error (.ofFault f) := by
  cases hs with
  | load hl hf hi => rw [comesTo_unloaded hl hf, ofLoad_uncaught hi]
  | refusal hl hr =>
    obtain ⟨ld, hl⟩ := hl
    rw [comesTo_loaded hl, run_refused hr]
  | reply hl hm hx hr hu =>
    obtain ⟨ld, hl⟩ := hl
    obtain ⟨x, hx⟩ := hx
    rw [comesTo_reply hl hm hx, hr, Except.mapError, trouble_uncaught l hu.1 hu.2]

/-- Any other trouble that a call comes to is put into words. -/
theorem worded_or_surfaces {t : Trouble} (ht : comesTo l e h s es = .error t) :
    Worded t ∨ ∃ f, Surfaces l e h s es f ∧ t = .ofFault f := by
  obtain ⟨hu, f, hf⟩ | hl := h.loader.load_cases
  · rw [comesTo_unloaded hu hf] at ht
    cases ht
    by_cases hi : f.kind.family = .importing
    · exact .inl (worded_ofLoad hi)
    · exact .inr ⟨f, .load hu hf hi, ofLoad_uncaught hi⟩
  · cases hr : e.refusal? with
    | some f =>
      have hs : Surfaces l e h s es f := .refusal hl hr
      rw [comesTo_of_surfaces hs] at ht
      cases ht
      exact .inr ⟨f, hs, rfl⟩
    | none =>
      have hloaded := hl
      obtain ⟨ld, hl⟩ := hl
      cases hx : l.seconds? with
      | none =>
        rw [comesTo_loaded hl, run_made hr] at ht
        dsimp only at ht
        rw [evaluateWithin_unlimited hx] at ht
        cases ht
        exact .inl overflow_worded
      | some x =>
        rw [comesTo_reply hl hr hx] at ht
        cases hv : (evaluate e (h.live + 1) s es).1.result with
        | ok v =>
          rw [hv] at ht
          cases ht
        | error f =>
          rw [hv] at ht
          cases ht
          by_cases hu : f.kind.family = .memory ∨ f.kind.family = .guest
          · exact .inl (trouble_worded l hu)
          · rw [not_or] at hu
            exact .inr ⟨f, .reply hloaded hr ⟨x, hx⟩ hv hu, trouble_uncaught l hu.1 hu.2⟩

/-- On a steady clock, a call concludes what it comes to. -/
theorem perform_concludes (l : Limits) (e : Engine) (s : String) (es : Entries)
    (hc : Steady h.clock) :
    ∃ t, (perform l e h s es).outcome = conclude l (comesTo l e h s es) t := by
  have h0 := read_shows h.clock
  have h1 := shows_of_read (read_shows h.clock.read.2)
  have h2 := shows_of_read (shows_of_read (read_shows h.clock.read.2.read.2))
  unfold comesTo
  cases hl : h.loader.load with
  | mk r ld =>
    cases r with
    | error f =>
      obtain ⟨t, ht⟩ := elapsed_of_steady hc h0 h1
      refine ⟨t, ?_⟩
      rw [perform_unloaded hl, ht]
      rfl
    | ok u =>
      obtain ⟨t, ht⟩ := elapsed_of_steady hc h1 h2
      refine ⟨t, ?_⟩
      rw [perform_loaded hl]
      dsimp only
      rw [ht]
      rfl

/-- A value is passed on as a success only within the time limit. -/
theorem conclude_value (l : Limits) (v : Value) (time : Int) :
    ∃ o, conclude l (.ok v) time = .ok o ∧ (IsFailed o ∨ IsSucceeded l o) := by
  refine ⟨_, rfl, ?_⟩
  split
  · exact .inl (failed_shape (timeoutMessage_ne_empty l) time)
  · exact .inr ⟨rfl, rfl, ⟨time, by omega, rfl⟩⟩

theorem conclude_worded (l : Limits) {t : Trouble} (ht : Worded t) (time : Int) :
    ∃ o, conclude l (.error t) time = .ok o ∧ IsFailed o := by
  obtain ⟨m, hm, hne⟩ := ht
  exact ⟨.failed m time, by rw [conclude, hm]; rfl, failed_shape hne time⟩

/-- How a call ends on a fault that no words can be found for: its error is empty if the fault
reports an execution and has a text, and otherwise something else is raised. -/
def Untold (f : Fault) (outcome : Except Failure Outcome) : Prop :=
  if f.kind.family = .execution ∧ f.hasText = true then ∃ t, outcome = .ok (.failed "" t)
  else outcome = .error (.tooManyDigits none)

/-- An accepted call that ends as it should. -/
def Ends (l : Limits) (outcome : Except Failure Outcome) : Prop :=
  ∃ o, outcome = .ok o ∧ (IsFailed o ∨ IsSucceeded l o)

theorem Untold.not_ends {outcome : Except Failure Outcome} (hu : Untold f outcome) :
    ¬ Ends l outcome := by
  rintro ⟨o, rfl, hs⟩
  unfold Untold at hu
  split at hu
  · obtain ⟨t, ho⟩ := hu
    obtain rfl := Except.ok.inj ho
    obtain hs | hs := hs
    · obtain ⟨m, hm, hne⟩ := hs.error
      exact hne (Option.some.inj hm).symm
    · exact absurd hs.success Bool.false_ne_true
  · cases hu

theorem perform_untold (hc : Steady h.clock) (hs : Surfaces l e h s es f) (hf : ¬ Tellable f) :
    Untold f (perform l e h s es).outcome := by
  obtain ⟨t, ht⟩ := perform_concludes l e s es hc
  rw [ht, comesTo_of_surfaces hs, conclude, words_of_not_tellable hf, Untold]
  split
  · exact ⟨t, rfl⟩
  · rfl

/-- An accepted call ends in failure or success, whatever is raised on the way, as long as a fault
that surfaces can be told. -/
theorem perform_ends (hc : Steady h.clock) (hs : ∀ f, Surfaces l e h s es f → Tellable f) :
    Ends l (perform l e h s es).outcome := by
  obtain ⟨t, ht⟩ := perform_concludes l e s es hc
  rw [ht]
  cases hr : comesTo l e h s es with
  | ok v => exact conclude_value l v t
  | error u =>
    have hw : Worded u := by
      obtain hw | ⟨f, hf, rfl⟩ := worded_or_surfaces hr
      · exact hw
      · exact worded_ofFault (hs f hf)
    obtain ⟨o, ho, hs⟩ := conclude_worded l hw t
    exact ⟨o, ho, .inl hs⟩

end

/-- How an accepted call ends: as it should if every fault that surfaces can be told, and on one
that cannot with something else raised or an empty error. -/
structure Accepted (l : Limits) (e : Engine) (h : Host) (s : String) (es : Entries)
    (outcome : Except Failure Outcome) : Prop where
  ends : Ends l outcome ↔ ∀ f, Surfaces l e h s es f → Tellable f
  untold : ∀ f, Surfaces l e h s es f → ¬ Tellable f → Untold f outcome

/-- An execution on a steady clock is rejected, and touches nothing, exactly when the snippet or its
data are refused. Any other ends in a failure or a success exactly when words can be found for every
fault that surfaces. -/
theorem execute_shape (l : Limits) (e : Engine) (h : Host) (code data : Value)
    (hc : Steady h.clock) :
    (Refused code data ∧ ∃ o, IsRejected o ∧ execute l e h code data = ⟨.ok o, h, e, []⟩) ∨
      (¬ Refused code data ∧ ∃ s es, check code data = .ok (s, es) ∧
        Accepted l e h s es (execute l e h code data).outcome) := by
  cases hk : check code data with
  | error m =>
    have hr := (check_error_iff code data).mp ⟨m, hk⟩
    exact .inl ⟨hr, _, rejected_shape m, execute_rejected hk⟩
  | ok p =>
    obtain ⟨s, es⟩ := p
    have hr := (accepted_iff code data).mp ⟨s, es, hk⟩
    rw [execute_accepted hk]
    refine .inr ⟨hr, s, es, rfl, ⟨fun he f hf => ?_, perform_ends hc⟩, ?_⟩
    · exact by_contra fun ht => (perform_untold hc hf ht).not_ends he
    · exact fun f hf ht => perform_untold hc hf ht

/-- A clock that shows one second and then three. -/
def twoSeconds : Clock := ⟨[.ofInt 1, .ofInt 3]⟩

theorem twoSeconds_steady : Steady twoSeconds :=
  .of_readings (List.cons_ne_nil _ _) (by decide +kernel)

def faultEngine (f : Fault) : Engine := .scripted none [.raised f]

def freshHost : Host := ⟨twoSeconds, .start "quickjs" ⟨[]⟩, 0, 0⟩

theorem addition_check : check (.str "1 + 2") .none = .ok ("1 + 2", []) := by
  rw [check_ok_iff]
  exact ⟨rfl, by decide +kernel, .inl ⟨rfl, rfl⟩, by simp⟩

theorem fault_surfaces {f : Fault} (hm : f.kind.family ≠ .memory) (hg : f.kind.family ≠ .guest) :
    Surfaces .default (faultEngine f) freshHost "1 + 2" [] f := by
  have hr : ((faultEngine f).evaluate [] (.ofFields "1 + 2" [] .block)).1 = .raised f := rfl
  have hw : wantsFunction (.raised f) = false := by simp [wantsFunction, hg]
  have hv : (evaluate (faultEngine f) (freshHost.live + 1) "1 + 2" []).1 = .raised f := by
    rw [evaluate_reply, hr, hw, cond_false]
  exact .reply ⟨_, rfl⟩ rfl ⟨_, if_pos (by decide +kernel)⟩ (by rw [hv]; rfl) ⟨hm, hg⟩

def numberFault (n : Nat) : Fault := ⟨.runtime, [.int n], none⟩

theorem numberFault_hasText (n : Nat) : (numberFault n).hasText = (Value.int n).hasText := by
  simp [numberFault, Fault.hasText, Fault.told, Value.haveTexts]

def emptyFault : Fault := ⟨.other .execution "CodeExecutionError", [], none⟩

/-- A fault with an integer that is too long makes an execution raise something else, and one that
reports an execution without words leaves its error empty. -/
theorem fault_leaves :
    Steady freshHost.clock ∧
      (execute .default (faultEngine (numberFault JsonTexts.longInteger)) freshHost (.str "1 + 2")
        .none).outcome = .error (.tooManyDigits none) ∧
      ∃ t, (execute .default (faultEngine emptyFault) freshHost (.str "1 + 2") .none).outcome =
        .ok (.failed "" t) := by
  have hlong : (numberFault JsonTexts.longInteger).hasText = false :=
    (numberFault_hasText _).trans (JsonTexts.hasText_long JsonTexts.longInteger_long)
  have haccepted : ¬ Refused (.str "1 + 2") .none :=
    (accepted_iff _ _).mp ⟨_, _, addition_check⟩
  have huntold : ∀ f, f.kind.family ≠ .memory → f.kind.family ≠ .guest → ¬ Tellable f →
      Untold f (execute .default (faultEngine f) freshHost (.str "1 + 2") .none).outcome := by
    intro f hm hg ht
    obtain ⟨hr, -⟩ | ⟨-, s, es, hk, ha⟩ := execute_shape .default (faultEngine f) freshHost
      (.str "1 + 2") .none twoSeconds_steady
    · exact absurd hr haccepted
    · rw [addition_check] at hk
      cases hk
      exact ha.untold f (fault_surfaces hm hg) ht
  refine ⟨twoSeconds_steady, ?_, ?_⟩
  · have hplain : (numberFault JsonTexts.longInteger).kind.family = .plain := rfl
    have h := huntold (numberFault JsonTexts.longInteger) (by rw [hplain]; decide)
      (by rw [hplain]; decide) fun ht =>
        Bool.false_ne_true (hlong.symm.trans (Fault.hasText_of_describable ht))
    have hn : ¬ ((numberFault JsonTexts.longInteger).kind.family = .execution ∧
        (numberFault JsonTexts.longInteger).hasText = true) :=
      fun hw => Bool.false_ne_true (hlong.symm.trans hw.2)
    rwa [Untold, if_neg hn] at h
  · have h := huntold emptyFault (by decide) (by decide) fun ht => ht.2 rfl
    rwa [Untold, if_pos ⟨rfl, rfl⟩] at h

end Reckoner.Proofs.Outcomes
