import Reckoner.Proofs.Independence

namespace Reckoner.Proofs.Deadlines
open Session Snippet Execution Outcomes Independence

variable {l : Limits} {e : Engine} {h : Host} {code data : Value} {s : String} {es : Entries}

/-- The whole milliseconds between two readings, the fraction cut off. -/
def Lasts (start stop : Binary64) (t : Int) : Prop :=
  ((stop.sub start).mul (.ofInt 1000)).trunc? = some t

theorem elapsed_of_lasts {x y : Binary64} {t : Int} (ht : Lasts x y t) : elapsed x y = .ok t := by
  rw [elapsed, integerOfFloat, ht]

theorem exists_lasts {c : Clock} (hc : Steady c) {x y : Binary64} (hx : Shows c x)
    (hy : Shows c y) : ∃ t, Lasts x y t :=
  trunc_of_finite (hc x y hx hy)

/-- A call without an engine: it read the clock twice, and fails with what kept the engine away, if
there are words for that. -/
structure Unserved (h : Host) (f : Failure) (a b : Binary64) (c : Call) : Prop where
  ticks : c.host.ticks = h.ticks + 2
  ends : ∃ t, Lasts a b t ∧ c.outcome = (Trouble.ofLoad f).words.map (.failed · t)

/-- How a run that took so long may end: its value counts within the limit only, and its error
always. -/
structure Judged (l : Limits) (result : Except Trouble Value) (t : Int) (o : Outcome) : Prop where
  time : o.time? = some t
  success : o.success = true ↔ ∃ v, result = .ok v ∧ t ≤ l.timeoutMs
  timely : ∀ v, result = .ok v → t ≤ l.timeoutMs → o.value = v ∧ o.error? = none
  late : ∀ v, result = .ok v → l.timeoutMs < t →
    o.value = .none ∧ o.error? = some l.timeoutMessage
  raised : ∀ u m, result = .error u → u.words = .ok m → o.value = .none ∧ o.error? = some m

/-- What a call comes to after so long: an outcome, unless its run has an error that there are no
words for. -/
structure Reached (l : Limits) (result : Except Trouble Value) (t : Int)
    (outcome : Except Failure Outcome) : Prop where
  judged : (∀ u, result = .error u → ∃ m, u.words = .ok m) →
    ∃ o, outcome = .ok o ∧ Judged l result t o
  wordless : ∀ u x, result = .error u → u.words = .error x → outcome = .error x

/-- A call with an engine: it read the clock three times, and is judged by the time between the last
two readings, whatever the first one was. -/
structure Served (l : Limits) (e : Engine) (h : Host) (code data : Value)
    (result : Except Trouble Value) (b d : Binary64) : Prop where
  ticks : (execute l e h code data).host.ticks = h.ticks + 3
  ends : ∃ t, Lasts b d t ∧ Reached l result t (execute l e h code data).outcome ∧
    ∀ k a, readings 3 k = [a, b, d] →
      (execute l e { h with clock := k } code data).outcome = (execute l e h code data).outcome

theorem failed_judged (l : Limits) {u : Trouble} {m : String} (hm : u.words = .ok m) (t : Int) :
    Judged l (.error u) t (.failed m t) := by
  constructor
  case raised =>
    rintro _ m' ⟨⟩ hm'
    obtain rfl := Except.ok.inj (hm.symm.trans hm')
    exact ⟨rfl, rfl⟩
  all_goals simp [Outcome.time?, Outcome.success]

theorem valued_judged (l : Limits) (v : Value) (t : Int) :
    Judged l (.ok v) t
      (if l.timeoutMs < t then .failed l.timeoutMessage t else .succeeded v t) := by
  by_cases ht : l.timeoutMs < t
  · rw [if_pos ht]
    constructor <;> simp [ht, Outcome.time?, Outcome.success, Outcome.value, Outcome.error?]
  · have hle : t ≤ l.timeoutMs := Int.not_lt.mp ht
    rw [if_neg ht]
    constructor <;> simp [hle, Outcome.time?, Outcome.success, Outcome.value, Outcome.error?]

theorem conclude_reached (l : Limits) (result : Except Trouble Value) (t : Int) :
    Reached l result t (conclude l result t) := by
  cases result with
  | error u =>
    rw [conclude]
    refine ⟨fun h => ?_, ?_⟩
    · obtain ⟨m, hm⟩ := h u rfl
      exact ⟨_, by rw [hm]; rfl, failed_judged l hm t⟩
    · rintro _ x ⟨⟩ hx
      rw [hx]
      rfl
  | ok v => exact ⟨fun _ => ⟨_, rfl, valued_judged l v t⟩, fun _ _ h => by cases h⟩

/-- The readings that a call takes are shown by its clock. -/
theorem readings_shown {c : Clock} {a b d : Binary64} (hr : readings 3 c = [a, b, d]) :
    c.read.1 = a ∧ c.read.2.read.1 = b ∧ c.read.2.read.2.read.1 = d := by
  simpa [readings] using hr

theorem perform_unserved (hc : Steady h.clock) {a b d : Binary64}
    (hr : readings 3 h.clock = [a, b, d]) {f : Failure} {ld : Loader}
    (hl : h.loader.load = (.error f, ld)) : Unserved h f a b (perform l e h s es) := by
  obtain ⟨rfl, rfl, -⟩ := readings_shown hr
  obtain ⟨t, ht⟩ := exists_lasts hc (read_shows h.clock) (shows_of_read (read_shows h.clock.read.2))
  rw [perform_unloaded hl]
  exact ⟨rfl, t, ht, by rw [elapsed_of_lasts ht]; rfl⟩

/-- With an engine, the outcome is judged by the last two readings. -/
theorem perform_served {b d : Binary64} {t : Int} (ht : Lasts b d t) {ld : Loader}
    (hl : h.loader.load = (.ok (), ld)) {k : Clock} {a : Binary64}
    (hr : readings 3 k = [a, b, d]) :
    (perform l e { h with clock := k } s es).outcome =
      conclude l (run l e (readyHost h ld) s es).result t := by
  obtain ⟨-, rfl, rfl⟩ := readings_shown hr
  have hv := (run_view (l := l) (e := e) (g := readyHost { h with clock := k } ld)
    (h := readyHost h ld) s es rfl).1
  rw [perform_loaded (h := { h with clock := k }) hl]
  dsimp only
  rw [elapsed_of_lasts ht, hv]
  rfl

/-- A host whose clock shows that loading takes a second, and running a snippet six. -/
def lateHost : Host :=
  ⟨⟨[.ofInt 1, .ofInt 2, .ofInt 8]⟩, .start "quickjs" ⟨[]⟩, 0, 0⟩

theorem lateHost_steady : Steady lateHost.clock :=
  .of_readings (List.cons_ne_nil _ _) (by decide +kernel)

def threeEngine : Engine := .scripted none [.value (.int 3)]

theorem threeEngine_run (ld : Loader) :
    (run .default threeEngine (readyHost lateHost ld) "1 + 2" []).result = .ok (.int 3) := by
  have hx : Limits.default.seconds? = some ((Binary64.ofInt 5000).div (.ofInt 1000)) :=
    if_pos (by decide +kernel)
  rw [run_made rfl]
  dsimp only
  rw [(evaluateWithin_limited hx _).1]
  rfl

end Reckoner.Proofs.Deadlines
