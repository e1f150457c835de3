import Reckoner.Proofs.Trimming
import Reckoner.Session.Execution

namespace Reckoner.Proofs.Descriptions
open Session Text Trimming

theorem blank_of_lineEnd {c : Char} (h : isLineEnd c = true) : isBlank c = true := by
  simp only [isLineEnd, isBlank, Bool.or_eq_true, Bool.and_eq_true, decide_eq_true_eq,
    beq_iff_eq] at h ⊢
  omega

/-- The first line of a trimmed text that is not empty is not empty. -/
theorem firstLine_strip {cs : List Char} (h : strip cs ≠ []) : firstLine (strip cs) ≠ [] := by
  rcases trim_cases isBlank cs with he | ⟨c, rest, he, hc⟩
  · exact absurd he h
  · have hl : isLineEnd c = false := by
      cases hl : isLineEnd c with
      | false => rfl
      | true => rw [blank_of_lineEnd hl] at hc; contradiction
    rw [strip, he]
    simp [firstLine, hl]

/-- A description is a first line, or what is shown where that would be blank. -/
theorem describe_ne_nil (m : List Char) {q : List Char} (hq : q ≠ []) :
    Fault.describe m q ≠ [] := by
  by_cases h : strip m = []
  · simpa [Fault.describe, h] using hq
  · simpa [Fault.describe, h] using firstLine_strip h

theorem description_ne_empty (f : Fault) : String.ofList f.description ≠ "" := by
  simp only [ne_eq, String.ofList_eq_empty_iff]
  apply describe_ne_nil
  simp [Fault.shown]

theorem append_ne_empty {s : String} (h : s ≠ "") (t : String) : s ++ t ≠ "" :=
  fun he => h (String.append_eq_empty_iff.mp he).1

theorem timeoutMessage_ne_empty (l : Limits) : l.timeoutMessage ≠ "" :=
  append_ne_empty (append_ne_empty (by decide) _) _

theorem digits_description_ne_empty : (Failure.tooManyDigits none).description ≠ "" := by
  simp only [Failure.description, ne_eq, String.ofList_eq_empty_iff]
  decide +kernel

theorem memoryMessage_ne_empty (l : Limits) : l.memoryMessage ≠ "" := by
  unfold Limits.memoryMessage
  split
  · exact append_ne_empty (append_ne_empty (by decide) _) _
  · exact digits_description_ne_empty

/-- A trouble that a caller is told in words. -/
def Worded (t : Trouble) : Prop := ∃ m, t.words = .ok m ∧ m ≠ ""

theorem execution_worded {m : String} (h : m ≠ "") : Worded (.execution m) := ⟨m, rfl, h⟩

theorem digits_worded : Worded (.unexpected (.tooManyDigits none)) :=
  ⟨_, rfl, digits_description_ne_empty⟩

theorem overflow_worded : Worded (.unexpected .tooLargeForFloat) := by
  refine ⟨_, rfl, ?_⟩
  simp only [Failure.description, ne_eq, String.ofList_eq_empty_iff]
  decide +kernel

/-- A fault that words can be found for: a description, or the text of a failed execution that the
engine reports itself, if that is not empty. -/
def Tellable (f : Fault) : Prop :=
  if f.kind.family = .execution then f.hasText = true ∧ f.message ≠ []
  else f.isDescribable = true

theorem worded_ofFault {f : Fault} (h : Tellable f) : Worded (.ofFault f) := by
  unfold Tellable at h
  unfold Trouble.ofFault
  split at h
  · next hf =>
    rw [if_pos hf]
    refine ⟨String.ofList f.message, ?_, ?_⟩
    · simp [Trouble.words, Fault.words, h.1]
    · simpa only [ne_eq, String.ofList_eq_empty_iff] using h.2
  · next hf =>
    rw [if_neg hf]
    refine ⟨String.ofList f.description, ?_, description_ne_empty f⟩
    simp [Trouble.words, Failure.line, h, Failure.description]

/-- Of any other fault nothing is told if it reports an execution, and has a text. Otherwise
something else is raised. -/
theorem words_of_not_tellable {f : Fault} (h : ¬ Tellable f) :
    (Trouble.ofFault f).words =
      if f.kind.family = .execution ∧ f.hasText = true then .ok ""
      else .error (.tooManyDigits none) := by
  unfold Tellable at h
  unfold Trouble.ofFault
  by_cases hf : f.kind.family = .execution
  · simp only [hf, if_true, true_and] at h ⊢
    rw [Trouble.words, Fault.words]
    split
    · next ht =>
      have hm : f.message = [] := by_contra fun hm => h ⟨ht, hm⟩
      rw [hm, String.ofList_nil]
    · rfl
  · simp only [hf, if_false, false_and] at h ⊢
    simp [Trouble.words, Failure.line, h]

/-- What a guest raises, and a want of memory, is always put into words. -/
theorem trouble_worded (l : Limits) {f : Fault}
    (h : f.kind.family = .memory ∨ f.kind.family = .guest) : Worded (l.trouble f) := by
  unfold Limits.trouble
  rcases h with h | h
  · simp only [h]
    exact execution_worded (memoryMessage_ne_empty l)
  · simp only [h]
    split
    · exact digits_worded
    · split
      · exact execution_worded (timeoutMessage_ne_empty l)
      · split
        · exact execution_worded (memoryMessage_ne_empty l)
        · exact execution_worded (description_ne_empty f)

theorem trouble_uncaught (l : Limits) {f : Fault} (hm : f.kind.family ≠ .memory)
    (hg : f.kind.family ≠ .guest) : l.trouble f = .ofFault f := by
  unfold Limits.trouble
  dsimp only
  split
  · next h => exact absurd h hm
  · next h => exact absurd h hg
  · rfl

theorem worded_ofLoad {f : Fault} (h : f.kind.family = .importing) :
    Worded (.ofLoad (Loader.failureOf f)) := by
  rw [Loader.failureOf, if_pos h, Fault.words]
  by_cases ht : f.hasText = true
  · rw [if_pos ht]
    exact execution_worded (append_ne_empty (by decide) _)
  · rw [if_neg ht]
    exact digits_worded

theorem ofLoad_uncaught {f : Fault} (h : f.kind.family ≠ .importing) :
    Trouble.ofLoad (Loader.failureOf f) = .ofFault f := by
  rw [Loader.failureOf, if_neg h]
  rfl

end Reckoner.Proofs.Descriptions
