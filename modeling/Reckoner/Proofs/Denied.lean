import Mathlib.Data.List.Forall2
import Mathlib.Data.List.TakeWhile
import Reckoner.Snippet.Denylist

namespace Reckoner.Proofs.Denied
open Snippet Text

/-- A letter in either case; the letter `i` has a dotted capital and a dotless small form, too. -/
def SameLetter (letter c : Char) : Prop :=
  letter.toLower = c.toLower ∨ (letter.toLower = 'i' ∧ (c = '\u0130' ∨ c = '\u0131'))

/-- A name written in any mixture of cases. -/
def Spells (name : String) (cs : List Char) : Prop := List.Forall₂ SameLetter name.toList cs

def Blank (cs : List Char) : Prop := ∀ c ∈ cs, isBlank c = true

def Calls (name : String) (cs : List Char) : Prop :=
  ∃ w sp rest, cs = w ++ (sp ++ '(' :: rest) ∧ Spells name w ∧ Blank sp

/-- The construction of a function, in any case. -/
def NewFunction (cs : List Char) : Prop :=
  ∃ n sp f sp' rest, cs = n ++ (sp ++ (f ++ (sp' ++ '(' :: rest))) ∧
    Spells "new" n ∧ sp ≠ [] ∧ Blank sp ∧ Spells "Function" f ∧ Blank sp'

/-- An import in any case, with a white space character after it. -/
def Imports (cs : List Char) : Prop :=
  ∃ w c rest, cs = w ++ c :: rest ∧ Spells "import" w ∧ isBlank c = true

def Word (name : String) (cs : List Char) : Prop :=
  ∃ rest, cs = name.toList ++ rest ∧ ∀ c, rest.head? = some c → isWord c = false

/-- The constructs that are refused, under the names by which they are reported. -/
def denied : List (String × (List Char → Prop)) :=
  [("eval(", Calls "eval"), ("new Function(", NewFunction), ("process", Word "process"),
   ("require(", Calls "require"), ("import", Imports), ("global", Word "global"),
   ("window", Word "window"), ("document", Word "document"), ("fetch(", Calls "fetch"),
   ("XMLHttpRequest", Word "XMLHttpRequest"), ("WebSocket", Word "WebSocket")]

/-- A construct stands at some place of a text that no word character precedes. -/
def Found (P : List Char → Prop) (cs : List Char) : Prop :=
  ∃ before rest, cs = before ++ rest ∧ (∀ c, before.getLast? = some c → isWord c = false) ∧ P rest

theorem sameLetter_iff (a c : Char) : sameLetter a c = true ↔ SameLetter a c := by
  simp only [sameLetter, SameLetter, Bool.or_eq_true, Bool.and_eq_true, decide_eq_true_eq]

theorem dropAnyCase_iff {as cs rest : List Char} :
    dropAnyCase as cs = some rest ↔ ∃ w, cs = w ++ rest ∧ List.Forall₂ SameLetter as w := by
  induction as generalizing cs with
  | nil =>
    simp only [dropAnyCase, Option.some.injEq, List.forall₂_nil_left_iff]
    constructor
    · rintro rfl
      exact ⟨[], rfl, rfl⟩
    · rintro ⟨w, rfl, rfl⟩
      rfl
  | cons a as ih =>
    cases cs with
    | nil =>
      simp only [dropAnyCase, reduceCtorEq, false_iff, not_exists, not_and]
      intro w hw hs
      cases hs
      cases hw
    | cons c cs =>
      rw [dropAnyCase]
      by_cases hc : sameLetter a c = true
      · rw [if_pos hc, ih]
        constructor
        · rintro ⟨w, rfl, hw⟩
          exact ⟨c :: w, rfl, .cons ((sameLetter_iff a c).mp hc) hw⟩
        · rintro ⟨w, hw, hs⟩
          cases hs with
          | cons ha has =>
            rw [List.cons_append, List.cons.injEq] at hw
            exact ⟨_, hw.2, has⟩
      · rw [if_neg hc]
        simp only [reduceCtorEq, false_iff, not_exists, not_and]
        intro w hw hs
        cases hs with
        | cons ha has =>
          rw [List.cons_append, List.cons.injEq] at hw
          rw [← hw.1, ← sameLetter_iff] at ha
          exact hc ha

theorem dropExact_iff {as cs rest : List Char} :
    dropExact as cs = some rest ↔ cs = as ++ rest := by
  induction as generalizing cs with
  | nil => simp [dropExact]
  | cons a as ih =>
    cases cs with
    | nil => simp [dropExact]
    | cons c cs =>
      rw [dropExact]
      by_cases hc : a = c
      · simp [hc, ih]
      · simp [hc, Ne.symm hc]

/-- Pieces follow each other when the first is dropped and the others follow in what is left. -/
theorem startWith_cons (p : Piece) (ps : List Piece) (cs : List Char) :
    startWith (p :: ps) cs = true ↔ ∃ rest, p.drop? cs = some rest ∧ startWith ps rest = true := by
  rw [startWith]
  cases p.drop? cs <;> simp

theorem startWith_anyCase (name : String) (ps : List Piece) (cs : List Char) :
    startWith (.anyCase name.toList :: ps) cs = true ↔
      ∃ w rest, cs = w ++ rest ∧ Spells name w ∧ startWith ps rest = true := by
  simp only [startWith_cons, Piece.drop?, dropAnyCase_iff]
  constructor
  · rintro ⟨rest, ⟨w, he, hw⟩, hs⟩
    exact ⟨w, rest, he, hw, hs⟩
  · rintro ⟨w, rest, he, hw, hs⟩
    exact ⟨rest, ⟨w, he, hw⟩, hs⟩

theorem startWith_exact (as : List Char) (ps : List Piece) (cs : List Char) :
    startWith (.exact as :: ps) cs = true ↔ ∃ rest, cs = as ++ rest ∧ startWith ps rest = true := by
  simp only [startWith_cons, Piece.drop?, dropExact_iff]

/-- Pieces that only stand where no white space does. -/
def Solid (ps : List Piece) : Prop :=
  ∀ cs, startWith ps cs = true → ∃ c rest, cs = c :: rest ∧ isBlank c = false

theorem dropWhile_solid {sp cs : List Char} (hs : Blank sp)
    (hc : ∃ c rest, cs = c :: rest ∧ isBlank c = false) : (sp ++ cs).dropWhile isBlank = cs := by
  obtain ⟨c, rest, rfl, hb⟩ := hc
  rw [List.dropWhile_append_of_pos hs, List.dropWhile_cons_of_neg (by simp [hb])]

theorem takeWhile_blank (cs : List Char) : Blank (cs.takeWhile isBlank) :=
  fun _ hc => List.mem_takeWhile_imp hc

/-- White space before solid pieces may be read in one way only. -/
theorem startWith_blanks {ps : List Piece} (hp : Solid ps) (cs : List Char) :
    startWith (.blanks :: ps) cs = true ↔
      ∃ sp rest, cs = sp ++ rest ∧ Blank sp ∧ startWith ps rest = true := by
  simp only [startWith_cons, Piece.drop?, Option.some.injEq, exists_eq_left']
  constructor
  · intro h
    exact ⟨_, _, List.takeWhile_append_dropWhile.symm, takeWhile_blank cs, h⟩
  · rintro ⟨sp, rest, rfl, hb, hs⟩
    rwa [dropWhile_solid hb (hp rest hs)]

theorem startWith_someBlanks {ps : List Piece} (hp : Solid ps) (cs : List Char) :
    startWith (.someBlanks :: ps) cs = true ↔
      ∃ sp rest, cs = sp ++ rest ∧ sp ≠ [] ∧ Blank sp ∧ startWith ps rest = true := by
  simp only [startWith_cons, Piece.drop?, Option.ite_none_right_eq_some, Option.some.injEq]
  constructor
  · rintro ⟨rest, ⟨hb, rfl⟩, hs⟩
    refine ⟨_, _, List.takeWhile_append_dropWhile.symm, ?_, takeWhile_blank cs, hs⟩
    cases cs with
    | nil => simp at hb
    | cons c cs =>
      have hc : isBlank c = true := by simpa using hb
      simp [hc]
  · rintro ⟨sp, rest, rfl, hn, hb, hs⟩
    refine ⟨rest, ⟨?_, dropWhile_solid hb (hp rest hs)⟩, hs⟩
    cases sp with
    | nil => contradiction
    | cons c sp => simp [hb c List.mem_cons_self]

theorem solid_parenthesis : Solid [.exact ['(']] := by
  intro cs hs
  obtain ⟨rest, rfl, -⟩ := (startWith_exact _ _ _).mp hs
  exact ⟨'(', rest, rfl, by decide⟩

theorem startWith_calling (name : String) (cs : List Char) :
    startWith (Construct.calling name).pieces cs = true ↔ Calls name cs := by
  simp only [Construct.calling, startWith_anyCase, startWith_blanks solid_parenthesis,
    startWith_exact]
  constructor
  · rintro ⟨w, _, rfl, hw, sp, _, rfl, hb, rest, rfl, -⟩
    exact ⟨w, sp, rest, rfl, hw, hb⟩
  · rintro ⟨w, sp, rest, rfl, hw, hb⟩
    exact ⟨w, _, rfl, hw, sp, _, rfl, hb, rest, rfl, rfl⟩

theorem startWith_wordEnd (cs : List Char) :
    startWith [.wordEnd] cs = true ↔ ∀ c, cs.head? = some c → isWord c = false := by
  cases cs with
  | nil => simp [startWith, Piece.drop?]
  | cons c cs => cases h : isWord c <;> simp [startWith, Piece.drop?, h]

theorem startWith_word (name : String) (cs : List Char) :
    startWith (Construct.word name).pieces cs = true ↔ Word name cs := by
  simp only [Construct.word, startWith_exact, startWith_wordEnd, Word]

theorem lower_of_blank {c : Char} (h : isBlank c = true) : c.toLower = c := by
  have hc : ¬ (65 ≤ c.toNat ∧ c.toNat ≤ 90) := by
    simp only [isBlank, Bool.or_eq_true, Bool.and_eq_true, decide_eq_true_eq, beq_iff_eq] at h
    omega
  refine dif_neg ?_
  rintro ⟨hl, hu⟩
  exact hc ⟨UInt32.le_iff_toNat_le.mp hl, UInt32.le_iff_toNat_le.mp hu⟩

/-- No form of a letter is white space. -/
theorem solid_function (ps : List Piece) : Solid (.anyCase "Function".toList :: ps) := by
  intro cs hs
  obtain ⟨w, rest, rfl, hw, -⟩ := (startWith_anyCase _ _ _).mp hs
  have hn : "Function".toList = 'F' :: "unction".toList := by simp
  rw [Spells, hn] at hw
  obtain ⟨c, w, hc, -, rfl⟩ := List.forall₂_cons_left_iff.mp hw
  refine ⟨c, w ++ rest, rfl, ?_⟩
  cases hb : isBlank c with
  | false => rfl
  | true =>
    rcases hc with hl | ⟨hi, -⟩
    · rw [lower_of_blank hb] at hl
      rw [← hl] at hb
      revert hb
      decide
    · revert hi
      decide

theorem startWith_newFunction (cs : List Char) :
    startWith Construct.newFunction.pieces cs = true ↔ NewFunction cs := by
  simp only [Construct.newFunction, startWith_anyCase, startWith_someBlanks (solid_function _),
    startWith_blanks solid_parenthesis, startWith_exact]
  constructor
  · rintro ⟨n, _, rfl, hn, sp, _, rfl, hs, hb, f, _, rfl, hf, sp', _, rfl, hb', rest, rfl, -⟩
    exact ⟨n, sp, f, sp', rest, rfl, hn, hs, hb, hf, hb'⟩
  · rintro ⟨n, sp, f, sp', rest, rfl, hn, hs, hb, hf, hb'⟩
    exact ⟨n, _, rfl, hn, sp, _, rfl, hs, hb, f, _, rfl, hf, sp', _, rfl, hb', rest, rfl, rfl⟩

theorem startWith_importing (cs : List Char) :
    startWith Construct.importing.pieces cs = true ↔ Imports cs := by
  simp only [Construct.importing, startWith_anyCase]
  constructor
  · rintro ⟨w, ds, rfl, hw, hs⟩
    cases ds with
    | nil => simp [startWith, Piece.drop?] at hs
    | cons c rest =>
      refine ⟨w, c, rest, rfl, hw, ?_⟩
      cases hc : isBlank c with
      | true => rfl
      | false => simp [startWith, Piece.drop?, hc] at hs
  · rintro ⟨w, c, rest, rfl, hw, hc⟩
    exact ⟨w, c :: rest, rfl, hw, by simp [startWith, Piece.drop?, hc]⟩

/-- A construct occurs where no word character is before it: none before the text, if the text is
not itself preceded by one. -/
theorem occursAfter_iff (k : Construct) (inWord : Bool) (cs : List Char) :
    k.occursAfter inWord cs = true ↔
      ∃ before c rest, cs = before ++ c :: rest ∧ (before = [] → inWord = false) ∧
        (∀ d, before.getLast? = some d → isWord d = false) ∧
        startWith k.pieces (c :: rest) = true := by
  induction cs generalizing inWord with
  | nil => simp [Construct.occursAfter]
  | cons c cs ih =>
    rw [Construct.occursAfter, Bool.or_eq_true, Bool.and_eq_true, Bool.not_eq_true', ih]
    constructor
    · rintro (⟨hi, hs⟩ | ⟨before, d, rest, rfl, hi, hb, hs⟩)
      · exact ⟨[], c, cs, rfl, fun _ => hi, by simp, hs⟩
      · refine ⟨c :: before, d, rest, rfl, by simp, ?_, hs⟩
        intro x hx
        cases before with
        | nil =>
          rw [List.getLast?_singleton, Option.some.injEq] at hx
          rw [← hx]
          exact hi rfl
        | cons b before =>
          rw [List.getLast?_cons_cons] at hx
          exact hb x hx
    · rintro ⟨before, d, rest, he, hi, hb, hs⟩
      cases before with
      | nil =>
        rw [List.nil_append, List.cons.injEq] at he
        obtain ⟨rfl, rfl⟩ := he
        exact .inl ⟨hi rfl, hs⟩
      | cons b before =>
        rw [List.cons_append, List.cons.injEq] at he
        obtain ⟨rfl, rfl⟩ := he
        refine .inr ⟨before, d, rest, rfl, ?_, ?_, hs⟩
        · rintro rfl
          exact hb c rfl
        · intro x hx
          apply hb
          cases before with
          | nil => cases hx
          | cons b' before => rwa [List.getLast?_cons_cons]

theorem occursIn_iff {k : Construct} {P : List Char → Prop}
    (hk : ∀ cs, startWith k.pieces cs = true ↔ P cs) (hn : ¬ P []) (cs : List Char) :
    k.occursIn cs = true ↔ Found P cs := by
  simp only [Construct.occursIn, occursAfter_iff, Found, hk]
  constructor
  · rintro ⟨before, c, rest, rfl, -, hb, hp⟩
    exact ⟨before, c :: rest, rfl, hb, hp⟩
  · rintro ⟨before, rest, rfl, hb, hp⟩
    cases rest with
    | nil => exact absurd hp hn
    | cons c rest => exact ⟨before, c, rest, rfl, fun _ => trivial, hb, hp⟩

theorem calling_occursIn (name : String) (cs : List Char) :
    (Construct.calling name).occursIn cs = true ↔ Found (Calls name) cs := by
  apply occursIn_iff (startWith_calling name)
  rintro ⟨w, sp, rest, h, -⟩
  simp at h

theorem newFunction_occursIn (cs : List Char) :
    Construct.newFunction.occursIn cs = true ↔ Found NewFunction cs := by
  apply occursIn_iff startWith_newFunction
  rintro ⟨n, sp, f, sp', rest, h, -⟩
  simp at h

theorem importing_occursIn (cs : List Char) :
    Construct.importing.occursIn cs = true ↔ Found Imports cs := by
  apply occursIn_iff startWith_importing
  rintro ⟨w, c, rest, h, -⟩
  simp at h

theorem word_occursIn {name : String} (hn : name.toList ≠ []) (cs : List Char) :
    (Construct.word name).occursIn cs = true ↔ Found (Word name) cs := by
  apply occursIn_iff (startWith_word name)
  rintro ⟨rest, h, -⟩
  exact hn (List.append_eq_nil_iff.mp h.symm).1

/-- A construct of the check is reported by a name and occurs where a pattern is found. -/
def Reports (k : Construct) (d : String × (List Char → Prop)) : Prop :=
  k.name = d.1 ∧ ∀ cs, k.occursIn cs = true ↔ Found d.2 cs

/-- The constructs of the check are those that are refused, in their order. -/
theorem constructs_denied : List.Forall₂ Reports Construct.all denied :=
  .cons ⟨rfl, calling_occursIn "eval"⟩ <|
  .cons ⟨rfl, newFunction_occursIn⟩ <|
  .cons ⟨rfl, word_occursIn (by simp)⟩ <|
  .cons ⟨rfl, calling_occursIn "require"⟩ <|
  .cons ⟨rfl, importing_occursIn⟩ <|
  .cons ⟨rfl, word_occursIn (by simp)⟩ <|
  .cons ⟨rfl, word_occursIn (by simp)⟩ <|
  .cons ⟨rfl, word_occursIn (by simp)⟩ <|
  .cons ⟨rfl, calling_occursIn "fetch"⟩ <|
  .cons ⟨rfl, word_occursIn (by simp)⟩ <|
  .cons ⟨rfl, word_occursIn (by simp)⟩ <| .nil

def complaintOf (d : String × (List Char → Prop)) : String :=
  "Dangerous pattern detected: " ++ d.1

open Classical in
/-- Constructs that occur are reported as the patterns that are found, in the same order. -/
theorem messages_eq {ks : List Construct} {ds : List (String × (List Char → Prop))}
    (h : List.Forall₂ Reports ks ds) (cs : List Char) :
    ((ks.filter fun k => k.occursIn cs).map fun k => (Complaint.denied k).message) =
      (ds.filter fun d => Found d.2 cs).map complaintOf := by
  induction h with
  | nil => rfl
  | @cons k d ks ds hk _ ih =>
    obtain ⟨hn, ho⟩ := hk
    have hm : (Complaint.denied k).message = complaintOf d :=
      congrArg ("Dangerous pattern detected: " ++ ·) hn
    rw [List.filter_cons, List.filter_cons]
    by_cases hf : Found d.2 cs
    · rw [if_pos ((ho cs).mpr hf), if_pos (decide_eq_true hf), List.map_cons, List.map_cons, ih, hm]
    · rw [if_neg fun hk => hf ((ho cs).mp hk), if_neg (by simpa using hf), ih]

theorem denied_distinct : (denied.map complaintOf).Nodup := by
  decide +kernel

theorem verdict_of_text (s : String) :
    verdict (.str s) = .ok ⟨(complaints s.toList).isEmpty, complaints s.toList⟩ := by
  by_cases hs : s = ""
  · have hf : (Value.str s).truthy = false := by simp [Value.truthy, hs]
    have hc : complaints s.toList = [.empty] := by simp [complaints, hs]
    rw [verdict, review, hf, hc]
    rfl
  · have ht : (Value.str s).truthy = true := by simpa [Value.truthy] using hs
    rw [verdict, review, if_pos ht]
    rfl

open Classical in
/-- A blank text has one complaint. Any other text has one for each construct that is found in it,
in their order and without repetition; it may run when there is none. -/
theorem verdict_text (s : String) :
    ∃ v, verdict (.str s) = .ok v ∧
      (Blank s.toList → v.complaints.map Complaint.message = ["Code cannot be empty"]) ∧
      (¬ Blank s.toList → v.complaints.map Complaint.message =
        (denied.filter fun d => Found d.2 s.toList).map complaintOf) ∧
      (v.complaints.map Complaint.message).Nodup ∧
      (v.valid = true ↔ v.complaints.map Complaint.message = []) := by
  refine ⟨_, verdict_of_text s, ?_⟩
  by_cases hb : Blank s.toList
  · have hc : complaints s.toList = [.empty] := by
      rw [complaints, if_pos (List.all_eq_true.mpr hb)]
    rw [hc]
    exact ⟨fun _ => rfl, fun hn => absurd hb hn, by simp, by simp⟩
  · have hc : (complaints s.toList).map Complaint.message =
        (denied.filter fun d => Found d.2 s.toList).map complaintOf := by
      rw [complaints, if_neg fun h => hb (List.all_eq_true.mp h), List.map_map]
      exact messages_eq constructs_denied s.toList
    refine ⟨fun h => absurd h hb, fun _ => hc, ?_, ?_⟩
    · rw [hc]
      exact denied_distinct.sublist (List.filter_sublist.map _)
    · rw [List.isEmpty_iff, List.map_eq_nil_iff]

end Reckoner.Proofs.Denied
