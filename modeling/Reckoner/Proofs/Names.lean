import Mathlib.Data.List.TakeWhile
import Reckoner.Snippet.Eval

namespace Reckoner.Proofs.Names
open Snippet Text

/-- A name in full: a first character and any number of further ones. -/
def IsName (cs : List Char) : Prop :=
  ∃ c rest, cs = c :: rest ∧ isNameStart c = true ∧ ∀ d ∈ rest, isNamePart d = true

theorem isName_cons {c : Char} {cs : List Char} (hc : isNameStart c = true)
    (hcs : cs.all isNamePart = true) : IsName (c :: cs) :=
  ⟨c, cs, rfl, hc, List.all_eq_true.mp hcs⟩

theorem IsName.part {cs : List Char} (h : IsName cs) {c : Char} (hc : c ∈ cs) :
    isNamePart c = true := by
  obtain ⟨d, rest, rfl, hs, hr⟩ := h
  rcases List.mem_cons.mp hc with rfl | hm
  · simp [isNamePart, hs]
  · exact hr c hm

theorem IsName.no_line_feed {cs : List Char} (h : IsName cs) : '\n' ∉ cs := by
  intro hm
  have := h.part hm
  revert this
  decide

/-- An identifier is a name in full, or one with a line feed after it. -/
theorem isIdentifier_iff (cs : List Char) :
    isIdentifier cs = true ↔ IsName cs ∨ ∃ n, IsName n ∧ cs = n ++ ['\n'] := by
  cases cs with
  | nil => simp [isIdentifier, IsName]
  | cons c rest =>
    simp only [isIdentifier, Bool.and_eq_true, Bool.or_eq_true, beq_iff_eq]
    constructor
    · rintro ⟨hs, hr⟩
      rcases hr with hr | hr
      · exact .inl ⟨c, rest, rfl, hs, List.dropWhile_eq_nil_iff.mp hr⟩
      · have hf := List.takeWhile_append_dropWhile (p := isNamePart) (l := rest)
        rw [hr] at hf
        refine .inr ⟨c :: rest.takeWhile isNamePart, ⟨c, _, rfl, hs, ?_⟩, ?_⟩
        · exact fun d hd => List.mem_takeWhile_imp hd
        · rw [List.cons_append, hf]
    · rintro (⟨d, ds, h, hs, hr⟩ | ⟨n, ⟨d, ds, rfl, hs, hr⟩, h⟩)
      · cases h
        exact ⟨hs, .inl (List.dropWhile_eq_nil_iff.mpr hr)⟩
      · rw [List.cons_append, List.cons.injEq] at h
        obtain ⟨rfl, rfl⟩ := h
        refine ⟨hs, .inr ?_⟩
        rw [List.dropWhile_append_of_pos hr]
        rfl

theorem trim_name {n : List Char} (h : IsName n) : trim (· == '\n') n = n := by
  have hd : ∀ cs : List Char, '\n' ∉ cs → cs.dropWhile (· == '\n') = cs := by
    intro cs hcs
    cases cs with
    | nil => rfl
    | cons c cs =>
      have hc : c ≠ '\n' := fun he => hcs (by simp [he])
      simp [hc]
  have hn := h.no_line_feed
  simp only [trim, trimStart, trimEnd]
  rw [hd n hn, hd n.reverse (by simpa using hn), List.reverse_reverse]

/-- Keys of a payload are distinct, as keys of a dictionary are. -/
def KeysDistinct (es : Entries) : Prop :=
  (es.map Prod.fst).Pairwise fun j k => j.same k = false

/-- What the bindings of a program must be: names in full that are neither reserved nor helpers'
names to the reader of the program, and no two of which are one name to it. -/
structure SafelyNamed (ds : List Declaration) : Prop where
  full : ∀ d ∈ ds, IsName d.name.toList
  unreserved : ∀ d ∈ ds, String.ofList d.constant ∉ reservedWords
  helperless : ∀ d ∈ ds, ∀ h : Helper, String.ofList d.constant ≠ h.name
  distinct : (ds.map Declaration.constant).Nodup

/-- A field is declared under its own name, when that is an identifier which is neither reserved
nor a helper's, and its value has a literal. -/
theorem declaration?_eq_some_iff (e : Value × Value) (d : Declaration) :
    declaration? e = some d ↔
      e.1 = .str d.name ∧ isIdentifier d.name.toList = true ∧ d.name ∉ reservedWords ∧
        Helper.ofName? d.name = none ∧ literal? e.2 = some d.literal := by
  obtain ⟨k, v⟩ := e
  obtain ⟨name, literal⟩ := d
  cases k with
  | str s =>
    cases hh : Helper.ofName? s with
    | some h =>
      simp only [declaration?, isHelperName, hh, Option.isSome_some, ↓reduceIte, reduceCtorEq,
        false_iff, not_and, Value.str.injEq]
      rintro rfl - - hn
      rw [hh] at hn
      contradiction
    | none =>
      simp only [declaration?, isHelperName, hh, Option.isSome_none, Bool.false_eq_true,
        ↓reduceIte, bindable?, Value.str.injEq]
      by_cases hb : isIdentifier s.toList = true ∧ s ∉ reservedWords
      · simp only [hb.1, Bool.true_and, Bool.not_eq_true', List.contains_eq_mem,
          decide_eq_false_iff_not.mpr hb.2, ↓reduceIte, Option.map_eq_some_iff,
          Declaration.mk.injEq]
        constructor
        · rintro ⟨u, hu, rfl, rfl⟩
          exact ⟨rfl, hb.1, hb.2, hh, hu⟩
        · rintro ⟨rfl, -, -, -, hu⟩
          exact ⟨literal, hu, rfl, rfl⟩
      · have hc : (isIdentifier s.toList && !reservedWords.contains s) = false := by
          simpa [List.contains_eq_mem] using hb
        simp only [hc, Bool.false_eq_true, ↓reduceIte, reduceCtorEq, false_iff]
        rintro ⟨rfl, hi, hr, -⟩
        exact hb ⟨hi, hr⟩
  | _ => simp [declaration?, isHelperName, bindable?]

/-- A field whose name is one in full and a line feed, and whose value has a literal. -/
def EndsLine (e : Value × Value) : Prop :=
  ∃ n t, IsName n ∧ e.1 = .str (String.ofList (n ++ ['\n'])) ∧ literal? e.2 = some t

theorem reserved_one_line : ∀ w ∈ reservedWords, '\n' ∉ w.toList := by
  decide

theorem helper_one_line (h : Helper) : '\n' ∉ h.name.toList := by
  cases h <;> decide

/-- The filters of names let a line feed at the end pass. -/
theorem declared_of_endsLine {e : Value × Value} (he : EndsLine e) :
    ∃ d, declaration? e = some d ∧ ¬ IsName d.name.toList := by
  obtain ⟨n, t, hn, hk, ht⟩ := he
  have hm : '\n' ∈ (String.ofList (n ++ ['\n'])).toList := by simp
  refine ⟨⟨String.ofList (n ++ ['\n']), t⟩, ?_, fun hf => hf.no_line_feed hm⟩
  rw [declaration?_eq_some_iff]
  refine ⟨hk, ?_, fun hr => reserved_one_line _ hr hm, ?_, ht⟩
  · rw [String.toList_ofList, isIdentifier_iff]
    exact .inr ⟨n, hn, rfl⟩
  · cases hh : Helper.ofName? (String.ofList (n ++ ['\n'])) with
    | none => rfl
    | some h =>
      rw [← Helper.name_of_ofName? hh] at hm
      exact absurd hm (helper_one_line h)

/-- Without a line feed at its end, a declared field has a name in full. -/
theorem full_of_declared {e : Value × Value} {d : Declaration} (hd : declaration? e = some d)
    (he : ¬ EndsLine e) : IsName d.name.toList := by
  obtain ⟨hk, hi, -, -, hl⟩ := (declaration?_eq_some_iff e d).mp hd
  rcases (isIdentifier_iff _).mp hi with h | ⟨n, hn, hc⟩
  · exact h
  · exact absurd ⟨n, d.literal, hn, by rw [hk, ← hc, String.ofList_toList], hl⟩ he

theorem constant_of_full {d : Declaration} (h : IsName d.name.toList) :
    d.constant = d.name.toList := trim_name h

/-- Fields with distinct keys are declared under distinct names. -/
theorem names_distinct {es : Entries} (hd : KeysDistinct es) :
    (declarationsOf es).Pairwise fun c d => c.name ≠ d.name := by
  refine List.Pairwise.filterMap declaration? ?_ (List.pairwise_map.mp hd)
  intro e f hef c hc d hd' hn
  rw [((declaration?_eq_some_iff e c).mp hc).1, ((declaration?_eq_some_iff f d).mp hd').1,
    hn] at hef
  simp [Value.same] at hef

/-- Names in full are bound as they are written, so all that was filtered holds of the reader. -/
theorem safelyNamed_of_full {es : Entries} (hd : KeysDistinct es)
    (hf : ∀ d ∈ declarationsOf es, IsName d.name.toList) : SafelyNamed (declarationsOf es) where
  full := hf
  unreserved := by
    intro d hm
    obtain ⟨e, -, he⟩ := List.mem_filterMap.mp hm
    rw [constant_of_full (hf d hm), String.ofList_toList]
    exact ((declaration?_eq_some_iff e d).mp he).2.2.1
  helperless := by
    intro d hm h hn
    obtain ⟨e, -, he⟩ := List.mem_filterMap.mp hm
    have hh := ((declaration?_eq_some_iff e d).mp he).2.2.2.1
    rw [constant_of_full (hf d hm), String.ofList_toList] at hn
    rw [hn, Helper.ofName?_name] at hh
    contradiction
  distinct := by
    rw [List.map_congr_left (fun d hm => constant_of_full (hf d hm))]
    refine List.pairwise_map.mpr ((names_distinct hd).imp ?_)
    intro c d hn he
    exact hn (String.toList_injective he)

theorem keyword_reserved : ∀ w ∈ keywords, w ∈ reservedWords := by
  decide

/-- The reader refuses a name only when it is reserved or taken. -/
theorem refusal?_eq_none {taken : List (List Char)} {n : List Char}
    (hr : String.ofList n ∉ reservedWords) (ht : n ∉ taken) : refusal? taken n = none := by
  have hw : ∀ w ∈ reservedWords, n ≠ w.toList := by
    rintro w hm rfl
    rw [String.ofList_toList] at hr
    exact hr hm
  have hk : isKeyword n = false := by
    cases hk : isKeyword n with
    | false => rfl
    | true => exact absurd (keyword_reserved _ (List.contains_iff_mem.mp hk)) hr
  rw [refusal?, if_neg (hw "let" (by decide)), if_neg (hw "undefined" (by decide)), hk]
  simp [ht]

/-- Nothing but a literal keeps the reader from reading declarations. -/
def NamesReadable (ds : List Declaration) : Prop :=
  ∀ m, readDeclarations [] ds = .error m → ∃ d ∈ ds, parseExpr d.literal = .error m

/-- After the declarations were run, helpers' names still mean the helpers. -/
def HelpersVisible [Evaluator] (ds : List Declaration) : Prop :=
  ∀ cs sc, readDeclarations [] ds = .ok cs → declare (cs.map fun c => (c.1, none)) cs = .ok sc →
    ∀ h : Helper, resolve sc h.name.toList = .ok (.helper h)

theorem readDeclarations_error {taken : List (List Char)} {ds : List Declaration} {m : Malformed}
    (hr : ∀ d ∈ ds, String.ofList d.constant ∉ reservedWords)
    (hd : (ds.map Declaration.constant).Nodup) (ht : ∀ d ∈ ds, d.constant ∉ taken)
    (h : readDeclarations taken ds = .error m) : ∃ d ∈ ds, parseExpr d.literal = .error m := by
  induction ds generalizing taken with
  | nil => simp [readDeclarations] at h
  | cons d ds ih =>
    simp only [List.map_cons, List.nodup_cons] at hd
    simp only [readDeclarations,
      refusal?_eq_none (hr d List.mem_cons_self) (ht d List.mem_cons_self)] at h
    cases hp : parseExpr d.literal with
    | error m' =>
      simp only [hp, Except.error.injEq] at h
      exact ⟨d, List.mem_cons_self, by rw [hp, h]⟩
    | ok e =>
      cases hs : readDeclarations (d.constant :: taken) ds with
      | ok cs => simp [hp, hs, Except.map] at h
      | error m' =>
        simp only [hp, hs, Except.map, Except.error.injEq] at h
        subst m'
        have ht' : ∀ c ∈ ds, c.constant ∉ d.constant :: taken := by
          intro c hc hm
          rcases List.mem_cons.mp hm with he | hm
          · exact hd.1 (he ▸ List.mem_map_of_mem hc)
          · exact ht c (List.mem_cons_of_mem _ hc) hm
        obtain ⟨c, hc, he⟩ := ih (fun c hc => hr c (List.mem_cons_of_mem _ hc)) hd.2 ht' hs
        exact ⟨c, List.mem_cons_of_mem _ hc, he⟩

theorem readDeclarations_names {taken : List (List Char)} {ds : List Declaration}
    {cs : List (List Char × Expr)} (h : readDeclarations taken ds = .ok cs) :
    cs.map Prod.fst = ds.map Declaration.constant := by
  induction ds generalizing taken cs with
  | nil =>
    cases h
    rfl
  | cons d ds ih =>
    simp only [readDeclarations] at h
    split at h
    · contradiction
    · split at h
      · contradiction
      · cases hs : readDeclarations (d.constant :: taken) ds with
        | error m => simp [hs, Except.map] at h
        | ok cs' =>
          simp only [hs, Except.map, Except.ok.injEq] at h
          subst cs
          simp [ih hs]

theorem define_names (n : List Char) (v : Guest) (sc : Scope) :
    (sc.define n v).map Prod.fst = sc.map Prod.fst := by
  induction sc with
  | nil => rfl
  | cons c sc ih =>
    obtain ⟨m, w⟩ := c
    by_cases hm : m = n <;> simp [Scope.define, hm, ih]

/-- Running declarations gives values to names and adds no name. -/
theorem declare_names [Evaluator] {sc sc' : Scope} {cs : List (List Char × Expr)}
    (h : declare sc cs = .ok sc') : sc'.map Prod.fst = sc.map Prod.fst := by
  induction cs generalizing sc with
  | nil =>
    cases h
    rfl
  | cons c cs ih =>
    obtain ⟨n, e⟩ := c
    simp only [declare] at h
    split at h
    · contradiction
    · rw [ih h, define_names]

theorem get?_eq_none {sc : Scope} {n : List Char} (h : n ∉ sc.map Prod.fst) :
    sc.get? n = none := by
  induction sc with
  | nil => rfl
  | cons c sc ih =>
    obtain ⟨m, w⟩ := c
    simp only [List.map_cons, List.mem_cons, not_or] at h
    simp [Scope.get?, Ne.symm h.1, ih h.2]

theorem namesReadable_of_safe {ds : List Declaration} (h : SafelyNamed ds) : NamesReadable ds :=
  fun _ => readDeclarations_error h.unreserved h.distinct (by simp)

theorem helpersVisible_of_safe [Evaluator] {ds : List Declaration} (h : SafelyNamed ds) :
    HelpersVisible ds := by
  intro cs sc hr hd g
  have hn : g.name.toList ∉ sc.map Prod.fst := by
    rw [declare_names hd, List.map_map]
    intro hm
    change g.name.toList ∈ cs.map Prod.fst at hm
    rw [readDeclarations_names hr] at hm
    obtain ⟨d, hm, he⟩ := List.mem_map.mp hm
    exact h.helperless d hm g (by rw [he, String.ofList_toList])
  simp [resolve, resolve?, get?_eq_none hn, builtin?, Helper.ofName?_name]

/-- The names that a payload binds are safe exactly when none of its fields with a literal is named
by a name and a line feed. Then no name is refused by the reader, and none hides a helper. -/
theorem safelyNamed_iff [Evaluator] {es : Entries} (hd : KeysDistinct es) :
    (SafelyNamed (declarationsOf es) ↔ ∀ e ∈ es, ¬ EndsLine e) ∧
      (SafelyNamed (declarationsOf es) →
        NamesReadable (declarationsOf es) ∧ HelpersVisible (declarationsOf es)) := by
  refine ⟨⟨?_, ?_⟩, fun h => ⟨namesReadable_of_safe h, helpersVisible_of_safe h⟩⟩
  · intro h e hm he
    obtain ⟨d, hdecl, hf⟩ := declared_of_endsLine he
    exact hf (h.full d (List.mem_filterMap.mpr ⟨e, hm, hdecl⟩))
  · intro h
    apply safelyNamed_of_full hd
    intro d hm
    obtain ⟨e, he, hdecl⟩ := List.mem_filterMap.mp hm
    exact full_of_declared hdecl (h e he)

/-- The fields `a` and `a` with a line feed are two keys of a dictionary, but one name. -/
theorem line_feed_unsafe :
    KeysDistinct [(.str "a", .int 1), (.str "a\n", .int 2)] ∧
      ¬ SafelyNamed (declarationsOf [(.str "a", .int 1), (.str "a\n", .int 2)]) := by
  have hd : KeysDistinct [(.str "a", .int 1), (.str "a\n", .int 2)] := by
    have hs : (Value.str "a").same (.str "a\n") = false := by decide +kernel
    simpa [KeysDistinct] using hs
  refine ⟨hd, fun h => ?_⟩
  refine (safelyNamed_iff hd).1.mp h (.str "a\n", .int 2) (by simp) ⟨['a'], ['2'], ?_, rfl, ?_⟩
  · exact ⟨'a', [], rfl, by decide, by simp⟩
  · decide +kernel

end Reckoner.Proofs.Names
