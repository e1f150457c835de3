import Reckoner.Proofs.Denotations
import Reckoner.Snippet.Language

namespace Reckoner.Proofs.Constants
open Snippet Text Names Denotations

variable {e : Expr} {sc : Scope} {n : List Char} {g : Guest}

/-- An expression has this value in all scopes that leave the special numbers alone. -/
def Settles (e : Expr) (g : Guest) : Prop := ∀ sc, Unshadowed sc → eval sc e = .ok g

theorem unsigned_value (h : Unsigned e) : ∃ x, Settles e (.number x) := by
  cases h with
  | digits x =>
    refine ⟨.settle x, ?_⟩
    intro sc hu
    simp only [eval]
  | nan =>
    refine ⟨.float .nan, ?_⟩
    intro sc hu
    simp only [eval, resolve, resolve?, hu.nan]
    rfl
  | infinity =>
    refine ⟨.float (.inf false), ?_⟩
    intro sc hu
    simp only [eval, resolve, resolve?, hu.infinity]
    rfl

theorem elements_value {es : List Expr} (h : ∀ e ∈ es, ∃ g, Settles e g) :
    ∃ gs, ∀ sc, Unshadowed sc → evalAll sc es = .ok gs := by
  induction es with
  | nil =>
    refine ⟨[], ?_⟩
    intro sc hu
    simp only [evalAll]
  | cons e es ih =>
    obtain ⟨g, hg⟩ := h e List.mem_cons_self
    obtain ⟨gs, hgs⟩ := ih fun f hf => h f (List.mem_cons_of_mem _ hf)
    refine ⟨g :: gs, ?_⟩
    intro sc hu
    simp only [evalAll, hg sc hu, hgs sc hu]
    rfl

theorem members_value {ms : List (Units × Expr)} (h : ∀ m ∈ ms, ∃ g, Settles m.2 g) :
    ∃ gs, ∀ sc, Unshadowed sc → evalMembers sc ms = .ok gs := by
  induction ms with
  | nil =>
    refine ⟨[], ?_⟩
    intro sc hu
    simp only [evalMembers]
  | cons m ms ih =>
    obtain ⟨k, e⟩ := m
    obtain ⟨g, hg⟩ := h (k, e) List.mem_cons_self
    obtain ⟨gs, hgs⟩ := ih fun f hf => h f (List.mem_cons_of_mem _ hf)
    refine ⟨(k, g) :: gs, ?_⟩
    intro sc hu
    simp only [evalMembers, hg sc hu, hgs sc hu]
    rfl

/-- A literal has one value in all such scopes. -/
theorem literal_value (h : Literal e) : ∃ g, Settles e g := by
  induction h with
  | null => exact ⟨.null, fun sc _ => by simp only [eval]⟩
  | bool b => exact ⟨.bool b, fun sc _ => by simp only [eval]⟩
  | text u => exact ⟨.text u, fun sc _ => by simp only [eval]⟩
  | positive h =>
    obtain ⟨x, hx⟩ := unsigned_value h
    exact ⟨.number x, hx⟩
  | negative h =>
    obtain ⟨x, hx⟩ := unsigned_value h
    refine ⟨.number x.neg, ?_⟩
    intro sc hu
    rw [eval, hx sc hu]
    · rfl
    · intro cs ho
      cases ho
  | array _ ih =>
    obtain ⟨gs, hgs⟩ := elements_value ih
    refine ⟨.array gs, ?_⟩
    intro sc hu
    simp only [eval, hgs sc hu]
    rfl
  | object _ ih =>
    obtain ⟨gs, hgs⟩ := members_value ih
    refine ⟨objectOf gs, ?_⟩
    intro sc hu
    simp only [eval, hgs sc hu]
    rfl

def worth (e : Expr) : Guest := (eval [] e).toOption.getD .undefined

theorem worth_of_value (h : Settles e g) : worth e = g := by
  simp [worth, h [] ⟨rfl, rfl⟩, Except.toOption]

theorem eval_literal (h : Literal e) (hu : Unshadowed sc) : eval sc e = .ok (worth e) := by
  obtain ⟨g, hg⟩ := literal_value h
  simp only [worth_of_value hg, hg sc hu]

/-- Constants with the values of their literals. -/
def valued (ds : List (List Char × Expr)) : Scope := ds.map fun d => (d.1, some (worth d.2))

/-- Constants that are declared and have no value yet. -/
def pending (ds : List (List Char × Expr)) : Scope := ds.map fun d => (d.1, none)

/-- Constants of different names, none of them reserved, that are declared with literals. -/
structure Literals (ds : List (List Char × Expr)) : Prop where
  distinct : (ds.map Prod.fst).Nodup
  unreserved : ∀ d ∈ ds, String.ofList d.1 ∉ reservedWords
  literal : ∀ d ∈ ds, Literal d.2

theorem Literals.filter {ds : List (List Char × Expr)} (h : Literals ds)
    (p : List Char × Expr → Bool) : Literals (ds.filter p) where
  distinct := h.distinct.sublist (List.filter_sublist.map Prod.fst)
  unreserved := fun d hd => h.unreserved d (List.mem_of_mem_filter hd)
  literal := fun d hd => h.literal d (List.mem_of_mem_filter hd)

theorem Literals.perm {ds ds' : List (List Char × Expr)} (h : Literals ds) (hp : ds.Perm ds') :
    Literals ds' where
  distinct := (hp.map Prod.fst).nodup h.distinct
  unreserved := fun d hd => h.unreserved d (hp.mem_iff.mpr hd)
  literal := fun d hd => h.literal d (hp.mem_iff.mpr hd)

theorem define_append {done : Scope} (h : n ∉ done.map Prod.fst) (v : Guest) (sc : Scope) :
    (done ++ (n, none) :: sc).define n v = done ++ (n, some v) :: sc := by
  induction done with
  | nil => simp [Scope.define]
  | cons c done ih =>
    obtain ⟨m, w⟩ := c
    simp only [List.map_cons, List.mem_cons, not_or] at h
    simp [Scope.define, Ne.symm h.1, ih h.2]

/-- Constants that leave the names of the special numbers alone. -/
theorem unshadowed_of_unreserved (h : ∀ n ∈ sc.map Prod.fst, String.ofList n ∉ reservedWords) :
    Unshadowed sc := by
  constructor
  · exact get?_eq_none fun hm => h _ hm (by decide)
  · exact get?_eq_none fun hm => h _ hm (by decide)

variable {done ds ds' : List (List Char × Expr)}

theorem valued_names (ds : List (List Char × Expr)) :
    (valued ds).map Prod.fst = ds.map Prod.fst := by
  simp [valued, Function.comp_def]

theorem pending_names (ds : List (List Char × Expr)) :
    (pending ds).map Prod.fst = ds.map Prod.fst := by
  simp [pending, Function.comp_def]

/-- Declarations give every constant the value of its literal, one after the other. -/
theorem declare_valued (h : Literals (done ++ ds)) :
    declare (valued done ++ pending ds) ds = .ok (valued (done ++ ds)) := by
  induction ds generalizing done with
  | nil =>
    rw [pending, List.map_nil, List.append_nil, List.append_nil]
    rfl
  | cons d ds ih =>
    have hu : Unshadowed (valued done ++ pending (d :: ds)) := by
      apply unshadowed_of_unreserved
      rw [List.map_append, valued_names, pending_names, ← List.map_append]
      intro n hn
      obtain ⟨c, hc, rfl⟩ := List.mem_map.mp hn
      exact h.unreserved c hc
    have hfresh : d.1 ∉ (valued done).map Prod.fst := by
      have hd := h.distinct
      rw [List.map_append, List.nodup_append] at hd
      rw [valued_names]
      exact fun hm => hd.2.2 _ hm _ (by simp) rfl
    have hs := @ih (done ++ [d]) (by rwa [List.append_assoc])
    rw [declare, eval_literal (h.literal d (by simp)) hu]
    dsimp only
    rw [pending, List.map_cons, define_append hfresh]
    simpa [valued, pending] using hs

/-- Declared constants have the values of their literals. -/
theorem declare_literals (h : Literals ds) : declare (pending ds) ds = .ok (valued ds) :=
  @declare_valued [] ds h

/-- The world that a program enters has the constants that it declares, and no value yet. -/
theorem enter_literals (h : Literals ds) :
    Language.standard.enter ds = .ok (valued ds, .undefined) := by
  have hd := declare_literals h
  simp only [pending] at hd
  simp only [Language.standard, hd]

theorem get?_valued (hd : (ds.map Prod.fst).Nodup) (h : (n, e) ∈ ds) :
    (valued ds).get? n = some (some (worth e)) := by
  induction ds with
  | nil => cases h
  | cons d ds ih =>
    simp only [List.map_cons, List.nodup_cons] at hd
    simp only [valued, List.map_cons, Scope.get?]
    obtain he | hm := List.mem_cons.mp h
    · subst d
      exact if_pos rfl
    · have hne : d.1 ≠ n := by
        intro he
        apply hd.1
        rw [he]
        exact List.mem_map_of_mem hm
      rw [if_neg hne]
      exact ih hd.2 hm

theorem get?_valued_absent (h : n ∉ ds.map Prod.fst) : (valued ds).get? n = none :=
  get?_eq_none (by rwa [valued_names])

/-- Constants of the same names with the same literals are the same, in whatever order. -/
theorem get?_valued_congr (hd : (ds.map Prod.fst).Nodup) (hd' : (ds'.map Prod.fst).Nodup)
    (h : ∀ e, (n, e) ∈ ds ↔ (n, e) ∈ ds') : (valued ds).get? n = (valued ds').get? n := by
  by_cases hn : n ∈ ds.map Prod.fst
  · obtain ⟨⟨m, e⟩, hm, rfl⟩ := List.mem_map.mp hn
    rw [get?_valued hd hm, get?_valued hd' ((h e).mp hm)]
  · have hn' : n ∉ ds'.map Prod.fst := by
      intro hm
      obtain ⟨⟨m, e⟩, hd, rfl⟩ := List.mem_map.mp hm
      exact hn (List.mem_map_of_mem ((h e).mpr hd))
    rw [get?_valued_absent hn, get?_valued_absent hn']

end Reckoner.Proofs.Constants
