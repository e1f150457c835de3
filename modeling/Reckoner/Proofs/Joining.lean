import Mathlib.Data.Set.Insert
import Reckoner.Proofs.Denied

namespace Reckoner.Proofs.Joining
open Snippet Text Denied

def detected (s : String) : Set String :=
  {c | ∃ v, verdict (.str s) = .ok v ∧
    "Dangerous pattern detected: " ++ c ∈ v.complaints.map Complaint.message}

/-- The constructs that are whole words. -/
def wholeWords : List String :=
  ["process", "global", "window", "document", "XMLHttpRequest", "WebSocket"]

theorem message_inj {c c' : String} :
    "Dangerous pattern detected: " ++ c = "Dangerous pattern detected: " ++ c' ↔ c = c' := by
  rw [← String.toList_inj, String.toList_append, String.toList_append, List.append_cancel_left_eq,
    String.toList_inj]

theorem denied_message_ne_empty (c : String) :
    "Dangerous pattern detected: " ++ c ≠ Complaint.empty.message := by
  intro h
  have hl := congrArg String.length h
  have hd : "Dangerous pattern detected: ".length = 28 := by decide +kernel
  have he : Complaint.empty.message.length = 20 := by decide +kernel
  rw [String.length_append] at hl
  omega

open Classical in
/-- A category is reported of a text that is not blank when its construct is found there. -/
theorem mem_detected (s c : String) :
    c ∈ detected s ↔ ¬ Blank s.toList ∧ ∃ d ∈ denied, d.1 = c ∧ Found d.2 s.toList := by
  have hv : c ∈ detected s ↔
      "Dangerous pattern detected: " ++ c ∈ (complaints s.toList).map Complaint.message := by
    simp only [detected, Set.mem_ofPred_eq, verdict_of_text, Except.ok.injEq, exists_eq_left']
  rw [hv]
  by_cases hb : Blank s.toList
  · have hc : complaints s.toList = [.empty] := if_pos (List.all_eq_true.mpr hb)
    rw [hc, List.map_singleton, List.mem_singleton]
    exact iff_of_false (denied_message_ne_empty c) fun h => h.1 hb
  · have hc : (complaints s.toList).map Complaint.message =
        (denied.filter fun d => Found d.2 s.toList).map complaintOf := by
      rw [complaints, if_neg fun h => hb (List.all_eq_true.mp h), List.map_map]
      exact messages_eq constructs_denied s.toList
    rw [hc, List.mem_map]
    constructor
    · rintro ⟨d, hd, hdc⟩
      obtain ⟨hd, hf⟩ := List.mem_filter.mp hd
      exact ⟨hb, d, hd, message_inj.mp hdc, of_decide_eq_true hf⟩
    · rintro ⟨-, d, hd, hdc, hf⟩
      exact ⟨d, List.mem_filter.mpr ⟨hd, decide_eq_true hf⟩, message_inj.mpr hdc⟩

/-- What stands at the front of a text stands there, too, when a line feed and more follow. -/
def Lasting (P : List Char → Prop) : Prop := ∀ cs more, P cs → P (cs ++ '\n' :: more)

theorem calls_lasting (name : String) : Lasting (Calls name) := by
  rintro _ more ⟨w, sp, rest, rfl, hw, hb⟩
  exact ⟨w, sp, rest ++ '\n' :: more, by simp, hw, hb⟩

theorem newFunction_lasting : Lasting NewFunction := by
  rintro _ more ⟨n, sp, f, sp', rest, rfl, hn, hs, hb, hf, hb'⟩
  exact ⟨n, sp, f, sp', rest ++ '\n' :: more, by simp, hn, hs, hb, hf, hb'⟩

theorem imports_lasting : Lasting Imports := by
  rintro _ more ⟨w, c, rest, rfl, hw, hc⟩
  exact ⟨w, c, rest ++ '\n' :: more, by simp, hw, hc⟩

/-- A word at the end of a text is still whole before a line feed. -/
theorem word_lasting (name : String) : Lasting (Word name) := by
  rintro _ more ⟨rest, rfl, hr⟩
  refine ⟨rest ++ '\n' :: more, by simp, fun c hc => ?_⟩
  cases rest with
  | nil =>
    obtain rfl : '\n' = c := Option.some.inj hc
    decide
  | cons d rest => exact hr c hc

theorem denied_lasting : ∀ d ∈ denied, Lasting d.2 := by
  simp only [denied, List.forall_mem_cons, calls_lasting, newFunction_lasting, imports_lasting,
    word_lasting, List.not_mem_nil, false_implies, implies_true, and_self]

variable {P : List Char → Prop} {s t : List Char}

theorem found_before (hP : Lasting P) (h : Found P s) : Found P (s ++ '\n' :: t) := by
  obtain ⟨before, rest, rfl, hb, hp⟩ := h
  exact ⟨before, rest ++ '\n' :: t, by simp, hb, hP rest t hp⟩

/-- No word character stands before the second text. -/
theorem found_after (h : Found P t) : Found P (s ++ '\n' :: t) := by
  obtain ⟨before, rest, rfl, hb, hp⟩ := h
  refine ⟨s ++ '\n' :: before, rest, by simp, fun c hc => ?_, hp⟩
  rw [List.getLast?_append_of_ne_nil _ (List.cons_ne_nil _ _)] at hc
  cases before with
  | nil =>
    obtain rfl : '\n' = c := Option.some.inj hc
    decide
  | cons b before =>
    rw [List.getLast?_cons_cons] at hc
    exact hb c hc

/-- A word that holds something, and no white space. -/
def Visible (name : String) : Prop :=
  name.toList ≠ [] ∧ ∀ c ∈ name.toList, isBlank c = false

variable {name : String}

theorem Visible.one_line (hv : Visible name) : '\n' ∉ name.toList := by
  intro hm
  have hb : isBlank '\n' = false := hv.2 _ hm
  revert hb
  decide

theorem wholeWords_visible : ∀ w ∈ wholeWords, Visible w := by
  simp [wholeWords, Visible, isBlank]

/-- A word that stands before a line feed, or further on, stands before it alone. -/
theorem word_before {u rest : List Char} (hv : Visible name)
    (he : u ++ '\n' :: t = name.toList ++ rest)
    (hr : ∀ c, rest.head? = some c → isWord c = false) : Word name u := by
  rcases List.append_eq_append_iff.mp he with ⟨v, hn, ht⟩ | ⟨v, rfl, ht⟩
  · cases v with
    | nil => exact ⟨[], by simpa using hn.symm, by simp⟩
    | cons c v =>
      obtain ⟨rfl, -⟩ := List.cons.inj ht
      exact absurd (hn ▸ by simp) hv.one_line
  · refine ⟨v, rfl, fun c hc => hr c ?_⟩
    rw [ht, List.head?_append, hc, Option.some_or]

/-- A word is found on one side of the line feed, if it is found at all. -/
theorem word_of_joined (hv : Visible name) (h : Found (Word name) (s ++ '\n' :: t)) :
    Found (Word name) s ∨ Found (Word name) t := by
  obtain ⟨before, _, he, hb, rest, rfl, hr⟩ := h
  -- The word stands at the line feed or after it, or it starts before it.
  rcases List.append_eq_append_iff.mp he with ⟨u, rfl, hu⟩ | ⟨u, rfl, hu⟩
  · cases u with
    | nil =>
      obtain ⟨c, cs, hc⟩ := List.exists_cons_of_ne_nil hv.1
      rw [List.nil_append, hc, List.cons_append] at hu
      obtain ⟨rfl, -⟩ := List.cons.inj hu
      exact absurd (hc ▸ List.mem_cons_self) hv.one_line
    | cons c u =>
      obtain ⟨rfl, rfl⟩ := List.cons.inj hu
      refine .inr ⟨u, _, rfl, fun d hd => hb d ?_, rest, rfl, hr⟩
      cases u with
      | nil => cases hd
      | cons b u =>
        rwa [List.getLast?_append_of_ne_nil _ (List.cons_ne_nil _ _), List.getLast?_cons_cons]
  · exact .inl ⟨before, u, rfl, hb, word_before hv hu.symm hr⟩

/-- A text in which a visible word is found is not blank. -/
theorem not_blank_of_word (hv : Visible name) (h : Found (Word name) s) : ¬ Blank s := by
  obtain ⟨before, _, rfl, -, rest, rfl, -⟩ := h
  obtain ⟨c, hc⟩ := List.exists_mem_of_ne_nil _ hv.1
  intro hb
  have hcb := hb c (List.mem_append_right _ (List.mem_append_left _ hc))
  rw [hv.2 c hc] at hcb
  cases hcb

/-- The category of a whole word stands for the word itself. -/
theorem denied_word : ∀ d ∈ denied, d.1 ∈ wholeWords → d.2 = Word d.1 := by
  simp [denied, wholeWords]

/-- A line feed between two texts hides no construct of either, and makes no new word. -/
theorem detected_joined (s t : String) :
    detected s ∪ detected t ⊆ detected (s ++ "\n" ++ t) ∧
      detected (s ++ "\n" ++ t) ∩ {c | c ∈ wholeWords} =
        (detected s ∪ detected t) ∩ {c | c ∈ wholeWords} := by
  have hj : (s ++ "\n" ++ t).toList = s.toList ++ '\n' :: t.toList := by simp
  have hsub : detected s ∪ detected t ⊆ detected (s ++ "\n" ++ t) := by
    rintro c (hc | hc)
    · obtain ⟨hb, d, hd, hdc, hf⟩ := (mem_detected s c).mp hc
      rw [mem_detected, hj]
      refine ⟨fun h => hb fun x hx => h x (List.mem_append_left _ hx), d, hd, hdc, ?_⟩
      exact found_before (denied_lasting d hd) hf
    · obtain ⟨hb, d, hd, hdc, hf⟩ := (mem_detected t c).mp hc
      rw [mem_detected, hj]
      exact ⟨fun h => hb fun x hx => h x (by simp [hx]), d, hd, hdc, found_after hf⟩
  refine ⟨hsub, Set.Subset.antisymm ?_ (Set.inter_subset_inter_left _ hsub)⟩
  rintro c ⟨hc, hw⟩
  obtain ⟨-, d, hd, rfl, hf⟩ := (mem_detected _ c).mp hc
  have hv := wholeWords_visible _ hw
  rw [denied_word d hd hw, hj] at hf
  refine ⟨?_, hw⟩
  have hword : ∀ u : String, Found (Word d.1) u.toList → d.1 ∈ detected u := by
    intro u hu
    refine (mem_detected u d.1).mpr ⟨not_blank_of_word hv hu, d, hd, rfl, ?_⟩
    rwa [denied_word d hd hw]
  exact (word_of_joined hv hf).imp (hword s) (hword t)

end Reckoner.Proofs.Joining
