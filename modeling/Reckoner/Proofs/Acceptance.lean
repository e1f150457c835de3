import Reckoner.Snippet.Program

namespace Reckoner.Proofs.Acceptance
open Snippet Text

/-- What keeps a snippet and its data from being run. -/
def Refused (code data : Value) : Prop :=
  (∀ s, code = .str s → s.toList.all isBlank = true) ∨
  (∃ s, code = .str s ∧ ∃ k ∈ Construct.all, k.occursIn s.toList = true) ∨
  (data ≠ .none ∧ ∀ es, data ≠ .dict es) ∨
  (∃ es, data = .dict es ∧ ∃ h : Helper, .str h.name ∈ es.map Prod.fst)

/-- The fields that data bring: none, or those of a dictionary. -/
def Brings (data : Value) (es : Entries) : Prop := (data = .none ∧ es = []) ∨ data = .dict es

theorem complaints_eq_nil_iff (cs : List Char) :
    complaints cs = [] ↔ cs.all isBlank = false ∧ ∀ k ∈ Construct.all, k.occursIn cs = false := by
  unfold complaints
  cases hb : cs.all isBlank with
  | true => simp
  | false =>
    simp only [Bool.false_eq_true, ↓reduceIte, List.map_eq_nil_iff, List.filter_eq_nil_iff,
      Bool.not_eq_true, true_and]

/-- What the check accepts, and what it makes of it. -/
theorem check_ok_iff (code data : Value) (s : String) (es : Entries) :
    check code data = .ok (s, es) ↔
      code = .str s ∧ complaints s.toList = [] ∧ Brings data es ∧
        ∀ k ∈ es.map Prod.fst, isHelperName k = false := by
  cases code with
  | str t =>
    cases hc : complaints t.toList with
    | cons c cs =>
      simp only [check, hc, reduceCtorEq, false_iff, not_and]
      rintro h hn
      cases h
      rw [hc] at hn
      contradiction
    | nil =>
      cases data with
      | none =>
        simp only [check, hc, Except.ok.injEq, Prod.mk.injEq, Value.str.injEq, Brings]
        constructor
        · rintro ⟨rfl, rfl⟩
          exact ⟨rfl, hc, .inl ⟨trivial, rfl⟩, by simp⟩
        · rintro ⟨rfl, -, ⟨-, rfl⟩ | h, -⟩
          · exact ⟨rfl, rfl⟩
          · cases h
      | dict fs =>
        cases hf : (fs.map Prod.fst).filter isHelperName with
        | nil =>
          have hn : ∀ k ∈ fs.map Prod.fst, isHelperName k = false := by
            simpa using List.filter_eq_nil_iff.mp hf
          simp only [check, hc, hf, Except.ok.injEq, Prod.mk.injEq, Value.str.injEq, Brings]
          constructor
          · rintro ⟨rfl, rfl⟩
            exact ⟨rfl, hc, .inr rfl, hn⟩
          · rintro ⟨rfl, -, ⟨h, -⟩ | h, -⟩
            · cases h
            · cases h
              exact ⟨rfl, rfl⟩
        | cons n ns =>
          simp only [check, hc, hf, reduceCtorEq, false_iff]
          rintro ⟨-, -, ⟨h, -⟩ | h, hn⟩
          · cases h
          · cases h
            rw [List.filter_eq_nil_iff.mpr (by simpa using hn)] at hf
            contradiction
      | _ => simp [check, hc, Brings]
  | _ => simp [check]

/-- Without data, a snippet is accepted unless something is complained of. -/
theorem check_bare {s : String} (hc : complaints s.toList = []) :
    check (.str s) .none = .ok (s, []) :=
  (check_ok_iff _ _ _ _).mpr ⟨rfl, hc, .inl ⟨rfl, rfl⟩, by simp⟩

/-- Accepted is what nothing keeps from being run. -/
theorem accepted_iff (code data : Value) :
    (∃ s es, check code data = .ok (s, es)) ↔ ¬ Refused code data := by
  constructor
  · rintro ⟨s, es, h⟩
    obtain ⟨rfl, hc, hb, hn⟩ := (check_ok_iff _ _ _ _).mp h
    obtain ⟨hblank, hnone⟩ := (complaints_eq_nil_iff _).mp hc
    rintro (h | ⟨t, ht, k, hk, ho⟩ | ⟨hd, hm⟩ | ⟨fs, hd, g, hg⟩)
    · rw [h s rfl] at hblank
      contradiction
    · cases ht
      rw [hnone k hk] at ho
      contradiction
    · rcases hb with ⟨h, -⟩ | h
      · exact hd h
      · exact hm es h
    · rcases hb with ⟨h, -⟩ | h
      · rw [hd] at h
        cases h
      · rw [hd] at h
        cases h
        have := hn _ hg
        rw [(isHelperName_iff _).mpr ⟨g, rfl⟩] at this
        contradiction
  · intro hr
    simp only [Refused, not_or, Classical.not_forall, not_exists, not_and] at hr
    obtain ⟨⟨s, hs, hb⟩, hk, hm, hg⟩ := hr
    have hc : complaints s.toList = [] :=
      (complaints_eq_nil_iff _).mpr ⟨by simpa using hb, fun k hm => by simpa using hk s hs k hm⟩
    by_cases hd : data = .none
    · exact ⟨s, [], (check_ok_iff _ _ _ _).mpr ⟨hs, hc, .inl ⟨hd, rfl⟩, by simp⟩⟩
    · obtain ⟨es, he⟩ := hm hd
      refine ⟨s, es, (check_ok_iff _ _ _ _).mpr ⟨hs, hc, .inr (Classical.not_not.mp he), ?_⟩⟩
      intro k hmem
      cases hh : isHelperName k with
      | false => rfl
      | true =>
        obtain ⟨g, rfl⟩ := (isHelperName_iff k).mp hh
        exact absurd hmem (hg es (Classical.not_not.mp he) g)

/-- The check fails exactly on what is refused. -/
theorem check_error_iff (code data : Value) :
    (∃ m, check code data = .error m) ↔ Refused code data := by
  have ha := accepted_iff code data
  cases h : check code data with
  | error m =>
    simp only [h, reduceCtorEq, exists_false, false_iff, Classical.not_not] at ha
    exact ⟨fun _ => ha, fun _ => ⟨m, rfl⟩⟩
  | ok p =>
    obtain ⟨s, es⟩ := p
    have hn := ha.mp ⟨s, es, h⟩
    simp [hn]

end Reckoner.Proofs.Acceptance
