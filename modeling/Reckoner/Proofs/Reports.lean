import Reckoner.Proofs.NameSnippets
import Reckoner.Proofs.Outcomes
import Reckoner.Proofs.Timely

namespace Reckoner.Proofs.Reports
open Session Snippet Text Execution Outcomes Timely

/-- A line that tells of none of the engine's own events. -/
structure Unmistaken (d : List Char) : Prop where
  unstopped : mentions stopWords d = false
  remembered : mentions memoryWords d = false
  unreturned : mentions returnWords d = false

/-- A call that is accepted, finds an engine and an interpreter, and whose snippet raises an error
that can be described when it is first evaluated. -/
structure Raises (l : Limits) (e : Engine) (h : Host) (code data : Value) (s : String)
    (es : Entries) (f : Fault) : Prop where
  accepted : check code data = .ok (s, es)
  loaded : ∃ ld, h.loader.load = (.ok (), ld)
  made : e.refusal? = none
  limited : ∃ x, l.seconds? = some x
  raised : (e.evaluate [] (.ofFields s es .block)).1 = .raised f
  guest : f.kind.family = .guest
  described : f.isDescribable = true

/-- A call that evaluated one program, and failed with a message. -/
def FailsOnce (c : Call) (p : Program) (m : String) : Prop :=
  (∃ t, c.outcome = .ok (.failed m t)) ∧ ∃ i, c.interpreters = [i] ∧ i.programs = [p]

variable {l : Limits} {e : Engine} {h : Host} {code data : Value} {s : String} {es : Entries}
  {f : Fault}

theorem wantsFunction_raised (hg : f.kind.family = .guest) (hd : f.isDescribable = true) :
    wantsFunction (.raised f) = mentions returnWords f.description := by
  rw [wantsFunction, hg, hd]
  rfl

theorem evaluate_once (live : Nat) (hr : (e.evaluate [] (.ofFields s es .block)).1 = .raised f)
    (hw : wantsFunction (.raised f) = false) :
    (evaluate e live s es).1 = .raised f ∧
      (evaluate e live s es).2.2 = [.evaluated (.ofFields s es .block) live] := by
  unfold evaluate
  dsimp only
  rw [hr, hw]
  exact ⟨rfl, rfl⟩

theorem evaluate_again (live : Nat) (hr : (e.evaluate [] (.ofFields s es .block)).1 = .raised f)
    (hw : wantsFunction (.raised f) = true) :
    (evaluate e live s es).2.2 =
      [.evaluated (.ofFields s es .block) live, .evaluated (.ofFields s es .function) live] := by
  unfold evaluate
  dsimp only
  rw [hr, hw]
  rfl

/-- What a call leaves when its snippet raises, in terms of the evaluation of the snippet. -/
theorem execute_raises (hr : Raises l e h code data s es f) (hc : Steady h.clock) :
    ∃ t, (execute l e h code data).outcome =
        conclude l ((evaluate e (h.live + 1) s es).1.result.mapError l.trouble) t ∧
      ∃ i, (execute l e h code data).interpreters = [i] ∧
        i.programs = History.programs (evaluate e (h.live + 1) s es).2.2 := by
  obtain ⟨ld, hl⟩ := hr.loaded
  obtain ⟨x, hx⟩ := hr.limited
  have h1 := shows_of_read (read_shows h.clock.read.2)
  have h2 := shows_of_read (shows_of_read (read_shows h.clock.read.2.read.2))
  obtain ⟨t, ht⟩ := elapsed_of_steady hc h1 h2
  obtain ⟨hv, hi⟩ := evaluateWithin_limited hx (h.live + 1)
  rw [execute_accepted hr.accepted, perform_loaded hl, ← hv]
  dsimp only
  rw [ht, run_made hr.made, show (readyHost h ld).live = h.live from rfl]
  dsimp only [Except.bind]
  refine ⟨t, rfl, _, rfl, ?_⟩
  rw [hi]
  simp [History.programs]

/-- Without the words of a return, one program is evaluated, and its fault is what fails. -/
theorem fails_once (hr : Raises l e h code data s es f) (hc : Steady h.clock)
    (hw : mentions returnWords f.description = false) {m : String}
    (hm : l.trouble f = .execution m) :
    FailsOnce (execute l e h code data) (.ofFields s es .block) m := by
  obtain ⟨t, ho, i, hi, hp⟩ := execute_raises hr hc
  obtain ⟨hv, he⟩ := evaluate_once (h.live + 1) hr.raised
    (by rw [wantsFunction_raised hr.guest hr.described, hw])
  rw [hv, Reply.result, Except.mapError, hm] at ho
  rw [he] at hp
  exact ⟨⟨t, ho⟩, i, hi, hp⟩

/-- With them, the snippet is evaluated once more. -/
theorem evaluated_twice (hr : Raises l e h code data s es f) (hc : Steady h.clock)
    (hw : mentions returnWords f.description = true) :
    ∃ i, (execute l e h code data).interpreters = [i] ∧
      i.programs = [.ofFields s es .block, .ofFields s es .function] := by
  obtain ⟨t, -, i, hi, hp⟩ := execute_raises hr hc
  rw [evaluate_again (h.live + 1) hr.raised
    (by rw [wantsFunction_raised hr.guest hr.described, hw])] at hp
  exact ⟨i, hi, hp⟩

section
variable (hg : f.kind.family = .guest) (hd : f.isDescribable = true)
include hg hd

theorem trouble_stopped (hs : mentions stopWords f.description = true) :
    l.trouble f = .execution l.timeoutMessage := by
  simp [Limits.trouble, hg, hd, hs]

theorem trouble_exhausted (hs : mentions stopWords f.description = false)
    (hm : mentions memoryWords f.description = true) :
    l.trouble f = .execution l.memoryMessage := by
  simp [Limits.trouble, hg, hd, hs, hm]

theorem trouble_plain (hs : mentions stopWords f.description = false)
    (hm : mentions memoryWords f.description = false) :
    l.trouble f = .execution (String.ofList f.description) := by
  simp [Limits.trouble, hg, hd, hs, hm]

end

/-- A text in which words stand has all their letters. -/
theorem unmentioned {words : String} {cs : List Char} {c : Char} (hw : c ∈ words.toList)
    (hc : c ∉ cs) : mentions words cs = false := by
  cases hm : mentions words cs with
  | false => rfl
  | true => exact absurd ((occurs_iff.mp hm).subset hw) hc

theorem letter_notMem_intText {c : Char} (hc : c.isDigit = false) (hm : c ≠ '-') (n : Int) :
    c ∉ intText n := by
  intro h
  rcases Digits.intText_chars n c h with hd | hd
  · rw [hd] at hc
    contradiction
  · exact hm hd

theorem notMem_around {s t : String} {cs : List Char} {c : Char} (hs : c ∉ s.toList)
    (ht : c ∉ t.toList) (hc : c ∉ cs) : c ∉ (s ++ String.ofList cs ++ t).toList := by
  rw [String.toList_append, String.toList_append, String.toList_ofList (l := cs)]
  simp [hs, ht, hc]

/-- The message of a timeout does not hold the words by which a timeout is told. -/
theorem timeoutMessage_unstopped (l : Limits) :
    mentions stopWords l.timeoutMessage.toList = false := by
  apply unmentioned (c := 'r') (by simp [stopWords])
  exact notMem_around (s := "Execution timeout: exceeded ") (t := "ms") (by simp) (by simp)
    (letter_notMem_intText (by decide) (by decide) _)

theorem memoryMessage_remembered (l : Limits) :
    mentions memoryWords l.memoryMessage.toList = false := by
  unfold Limits.memoryMessage
  split
  · apply unmentioned (c := 'u') (by simp [memoryWords])
    exact notMem_around (s := "Memory limit exceeded: ") (t := " bytes") (by simp) (by simp)
      (letter_notMem_intText (by decide) (by decide) _)
  · decide +kernel

theorem FailsOnce.unique {c : Call} {p : Program} {m m' : String} (h : FailsOnce c p m)
    (h' : FailsOnce c p m') : m = m' := by
  obtain ⟨⟨t, ht⟩, -⟩ := h
  obtain ⟨⟨t', ht'⟩, -⟩ := h'
  rw [ht] at ht'
  simp only [Except.ok.injEq, Outcome.failed.injEq] at ht'
  exact ht'.1

/-- An error of a snippet is reported as it is, after one evaluation, exactly when its line holds
none of the words of the engine's events. Otherwise the snippet is evaluated again, or the error is
reported as a timeout or as a want of memory, by the first of these words that it holds. -/
theorem guest_error_reported (hr : Raises l e h code data s es f) (hc : Steady h.clock) :
    (FailsOnce (execute l e h code data) (.ofFields s es .block) (String.ofList f.description) ↔
      Unmistaken f.description) ∧
    (mentions returnWords f.description = true →
      ∃ i, (execute l e h code data).interpreters = [i] ∧
        i.programs = [.ofFields s es .block, .ofFields s es .function]) ∧
    (mentions returnWords f.description = false → mentions stopWords f.description = true →
      FailsOnce (execute l e h code data) (.ofFields s es .block) l.timeoutMessage) ∧
    (mentions returnWords f.description = false → mentions stopWords f.description = false →
      mentions memoryWords f.description = true →
      FailsOnce (execute l e h code data) (.ofFields s es .block) l.memoryMessage) := by
  refine ⟨⟨?_, ?_⟩, evaluated_twice hr hc, ?_, ?_⟩
  · intro hp
    have hw : mentions returnWords f.description = false := by
      cases hw : mentions returnWords f.description with
      | false => rfl
      | true =>
        obtain ⟨i, hi, hp2⟩ := evaluated_twice hr hc hw
        obtain ⟨-, j, hj, hp1⟩ := hp
        rw [hi, List.cons.injEq] at hj
        rw [← hj.1, hp2] at hp1
        simp at hp1
    cases hs : mentions stopWords f.description with
    | true =>
      have hone := (fails_once hr hc hw (trouble_stopped hr.guest hr.described hs)).unique hp
      have hu := timeoutMessage_unstopped l
      rw [hone, String.toList_ofList, hs] at hu
      contradiction
    | false =>
      cases hm : mentions memoryWords f.description with
      | true =>
        have hone := (fails_once hr hc hw (trouble_exhausted hr.guest hr.described hs hm)).unique hp
        have hu := memoryMessage_remembered l
        rw [hone, String.toList_ofList, hm] at hu
        contradiction
      | false => exact ⟨hs, hm, hw⟩
  · intro hu
    exact fails_once hr hc hu.unreturned
      (trouble_plain hr.guest hr.described hu.unstopped hu.remembered)
  · intro hw hs
    exact fails_once hr hc hw (trouble_stopped hr.guest hr.described hs)
  · intro hw hs hm
    exact fails_once hr hc hw (trouble_exhausted hr.guest hr.described hs hm)

theorem stillHost_steady : Steady stillHost.clock := by
  have hz : (((Binary64.zero false).sub (.zero false)).mul (.ofInt 1000)).isFinite = true := by
    decide +kernel
  rintro x y (hx | ⟨-, rfl⟩) (hy | ⟨-, rfl⟩)
  · cases hx
  · cases hx
  · cases hy
  · exact hz

theorem interrupted_accepted : check (.str "interrupted") .none = .ok ("interrupted", []) :=
  Acceptance.check_bare (by decide +kernel)

def interruptedFault : Fault :=
  ⟨.guest, [.str "ReferenceError: 'interrupted' is not defined"], none⟩

/-- A name that nothing declares is an error which quotes it. -/
theorem interrupted_raised :
    Reply.ofProgram .standard [] (.ofFields "interrupted" [] .block) =
      .raised interruptedFault := by
  have hp : Scopes.Payload [] := ⟨by simp [Names.KeysDistinct], by simp, by simp, by simp⟩
  have hn : Names.IsName "interrupted".toList := Names.isName_cons rfl rfl
  have ha := NameSnippets.answer_name hp hn (by decide)
  rw [String.ofList_toList] at ha
  have ht : (Thrown.undefinedName "interrupted".toList).message =
      "ReferenceError: 'interrupted' is not defined" := by
    decide +kernel
  have hw : '\x00' ∉ (Program.ofFields "interrupted" [] .block).text :=
    fun hm => absurd ((hp.whole_iff _ _).mp hm) (by decide +kernel)
  rw [ofProgram_answer hw (by simp), ha]
  exact congrArg (fun m => Reply.raised (.thrown m)) ht

theorem interrupted_raises :
    Raises .default .interpreter stillHost (.str "interrupted") .none "interrupted" []
      interruptedFault where
  accepted := interrupted_accepted
  loaded := ⟨_, rfl⟩
  made := rfl
  limited := ⟨_, if_pos (by decide +kernel)⟩
  raised := by rw [Engine.interpreter, speaking_evaluate, interrupted_raised]
  guest := rfl
  described := by decide +kernel

/-- A snippet that is a name which nothing declares. -/
theorem interrupted_mistaken :
    Steady stillHost.clock ∧
    Raises .default .interpreter stillHost (.str "interrupted") .none "interrupted" []
      interruptedFault ∧
    ¬ FailsOnce (execute .default .interpreter stillHost (.str "interrupted") .none)
      (.ofFields "interrupted" [] .block) "ReferenceError: 'interrupted' is not defined" := by
  have hd : interruptedFault.description =
      "ReferenceError: 'interrupted' is not defined".toList := by
    decide +kernel
  refine ⟨stillHost_steady, interrupted_raises, fun hf => ?_⟩
  have hu := (guest_error_reported interrupted_raises stillHost_steady).1.mp
    (by rw [hd, String.ofList_toList]; exact hf)
  have hs := hu.unstopped
  rw [hd] at hs
  revert hs
  decide +kernel

end Reckoner.Proofs.Reports
