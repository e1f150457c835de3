import Reckoner.Proofs.Constants

namespace Reckoner.Proofs.Scopes
open Snippet Text Names Quoting Crossing Denotations Constants

/-- Fields of a snippet's data: keys are distinct at every depth, none of them is a helper's name,
and none ends in a line feed. -/
structure Payload (es : Entries) : Prop where
  distinct : KeysDistinct es
  values : ∀ e ∈ es, WellKeyed e.2
  helperless : ∀ e ∈ es, isHelperName e.1 = false
  unended : ∀ e ∈ es, ∀ s, e.1 = .str s → s.toList.getLast? ≠ some '\n'

/-- Fields that are named by texts. -/
theorem payload_textKeyed {ms : List (String × Value)} (hd : (ms.map Prod.fst).Nodup)
    (hv : ∀ m ∈ ms, WellKeyed m.2) (hh : ∀ m ∈ ms, Helper.ofName? m.1 = none)
    (hu : ∀ m ∈ ms, m.1.toList.getLast? ≠ some '\n') : Payload (textKeyed ms) where
  distinct := textKeyed_distinct hd
  values := by
    intro e he
    obtain ⟨m, hm, rfl⟩ := List.mem_map.mp he
    exact hv m hm
  helperless := by
    intro e he
    obtain ⟨m, hm, rfl⟩ := List.mem_map.mp he
    simp [isHelperName, hh m hm]
  unended := by
    intro e he s hs
    obtain ⟨m, hm, rfl⟩ := List.mem_map.mp he
    rw [Value.str.injEq] at hs
    exact hs ▸ hu m hm

variable {es : Entries}

theorem Payload.full (h : Payload es) : ∀ d ∈ declarationsOf es, IsName d.name.toList := by
  intro d hd
  obtain ⟨e, he, hdecl⟩ := List.mem_filterMap.mp hd
  refine full_of_declared hdecl ?_
  rintro ⟨n, t, -, hk, -⟩
  exact h.unended e he _ hk (by simp)

theorem Payload.safe (h : Payload es) : SafelyNamed (declarationsOf es) :=
  safelyNamed_of_full h.distinct h.full

/-- The expression that a literal is parsed as. -/
def literalExpr (cs : List Char) : Expr := (parseExpr cs).toOption.getD .null

/-- A text that is parsed as a literal. -/
structure IsLiteral (cs : List Char) : Prop where
  parsed : parseExpr cs = .ok (literalExpr cs)
  literal : Literal (literalExpr cs)

theorem isLiteral_of_denotes {cs : List Char} {g : Guest} (h : Denotes cs g) :
    IsLiteral cs ∧ worth (literalExpr cs) = g := by
  obtain ⟨e, hp, hlit, he⟩ := h.parsed
  have hl : literalExpr cs = e := by rw [literalExpr, hp]; rfl
  refine ⟨⟨by rw [hl, hp], by rwa [hl]⟩, ?_⟩
  rw [hl, worth_of_value he]

theorem Payload.denoted (h : Payload es) :
    ∀ d ∈ declarationsOf es, ∃ g, Denotes d.literal g := by
  intro d hd
  obtain ⟨e, he, hdecl⟩ := List.mem_filterMap.mp hd
  obtain ⟨-, -, -, -, hl⟩ := (declaration?_eq_some_iff e d).mp hdecl
  obtain ⟨g, hg, -⟩ := literal_denoted (h.values e he) hl
  exact ⟨g, hg⟩

theorem Payload.isLiteral (h : Payload es) :
    ∀ d ∈ declarationsOf es, IsLiteral d.literal := by
  intro d hd
  obtain ⟨g, hg⟩ := h.denoted d hd
  exact (isLiteral_of_denotes hg).1

/-- Declarations as they are read. -/
def readAs (ds : List Declaration) : List (List Char × Expr) :=
  ds.map fun d => (d.constant, literalExpr d.literal)

theorem readDeclarations_readAs {taken : List (List Char)} {ds : List Declaration}
    (hr : ∀ d ∈ ds, String.ofList d.constant ∉ reservedWords)
    (hd : (ds.map Declaration.constant).Nodup) (ht : ∀ d ∈ ds, d.constant ∉ taken)
    (hm : ∀ d ∈ ds, IsLiteral d.literal) : readDeclarations taken ds = .ok (readAs ds) := by
  induction ds generalizing taken with
  | nil => rfl
  | cons d ds ih =>
    rw [List.map_cons, List.nodup_cons] at hd
    have ht' : ∀ c ∈ ds, c.constant ∉ d.constant :: taken := by
      intro c hc hmem
      rcases List.mem_cons.mp hmem with he | hmem
      · exact hd.1 (he ▸ List.mem_map_of_mem hc)
      · exact ht c (List.mem_cons_of_mem _ hc) hmem
    have hs := ih (fun c hc => hr c (List.mem_cons_of_mem _ hc)) hd.2 ht'
      fun c hc => hm c (List.mem_cons_of_mem _ hc)
    rw [readDeclarations, refusal?_eq_none (hr d List.mem_cons_self) (ht d List.mem_cons_self)]
    dsimp only
    rw [(hm d List.mem_cons_self).parsed]
    dsimp only
    rw [hs]
    rfl

def constantsOf (es : Entries) : List (List Char × Expr) := readAs (declarationsOf es)

theorem constantsOf_names (es : Entries) :
    (constantsOf es).map Prod.fst = (declarationsOf es).map Declaration.constant := by
  simp [constantsOf, readAs, Function.comp_def]

theorem Payload.literals (h : Payload es) : Literals (constantsOf es) where
  distinct := by
    rw [constantsOf_names]
    exact h.safe.distinct
  unreserved := by
    intro c hc
    obtain ⟨d, hd, rfl⟩ := List.mem_map.mp hc
    exact h.safe.unreserved d hd
  literal := by
    intro c hc
    obtain ⟨d, hd, rfl⟩ := List.mem_map.mp hc
    exact (h.isLiteral d hd).literal

theorem Payload.declared (h : Payload es) :
    readDeclarations [] (declarationsOf es) = .ok (constantsOf es) :=
  readDeclarations_readAs h.safe.unreserved h.safe.distinct (by simp) h.isLiteral

theorem Payload.read (h : Payload es) (code : String) (w : Wrapping) :
    (Program.ofFields code es w).read =
      (parse w code.toList).map fun ss => (constantsOf es, ss) := by
  simp only [Program.read, Program.ofFields, h.declared]

def scopeOf (es : Entries) : Scope := valued (constantsOf es)

/-- The statements of a program run in the scope of its payload. -/
theorem Payload.entered (h : Payload es) :
    Language.standard.enter (constantsOf es) = .ok (scopeOf es, .undefined) :=
  enter_literals h.literals

/-- What the field of a name declares, if it is declared. -/
def held? (es : Entries) (n : List Char) : Option Guest :=
  (es.field? (String.ofList n)).bind fun v =>
    (declaration? (.str (String.ofList n), v)).map fun d => worth (literalExpr d.literal)

theorem same_text {k : Value} {s : String} : k.same (.str s) = true ↔ k = .str s := by
  cases k <;> simp [Value.same, Value.place?]

@[simp] theorem field?_nil (k : String) : Entries.field? k [] = none := rfl

@[simp] theorem field?_text_cons (j k : String) (v : Value) (es : Entries) :
    Entries.field? k ((.str j, v) :: es) = if j = k then some v else es.field? k := by
  have hj : (Value.str j).same (.str k) = true ↔ j = k := by rw [same_text, Value.str.injEq]
  exact if_congr hj rfl rfl

/-- The field of a name is the entry under that key, as keys are distinct. -/
theorem field?_eq_some_iff (hd : KeysDistinct es) {k : String} {v : Value} :
    es.field? k = some v ↔ (.str k, v) ∈ es := by
  induction es with
  | nil => simp
  | cons e es ih =>
    obtain ⟨j, w⟩ := e
    rw [KeysDistinct, List.map_cons, List.pairwise_cons] at hd
    rw [Entries.field?, Entries.get?, List.mem_cons, Prod.mk.injEq]
    split
    · next hj =>
      have hjk : j = .str k := same_text.mp hj
      have hno : (.str k, v) ∉ es := by
        intro hm
        have hne := hd.1 _ (List.mem_map_of_mem hm)
        rw [hjk, same_text.mpr rfl] at hne
        contradiction
      simp [hjk, hno, eq_comm]
    · next hj =>
      have hjk : .str k ≠ j := fun he => hj (same_text.mpr he.symm)
      simp only [hjk, false_and, false_or]
      exact ih hd.2

theorem scopeOf_cons (e : Value × Value) (es : Entries) :
    scopeOf (e :: es) = match declaration? e with
      | some d => (d.constant, some (worth (literalExpr d.literal))) :: scopeOf es
      | none => scopeOf es := by
  rw [scopeOf, constantsOf, declarationsOf, List.filterMap_cons]
  cases declaration? e <;> rfl

/-- A name in full that is declared is the key of its field. -/
theorem key_of_full {e : Value × Value} {d : Declaration} (he : declaration? e = some d)
    (hf : IsName d.name.toList) : e.1 = .str (String.ofList d.constant) := by
  rw [constant_of_full hf, String.ofList_toList]
  exact ((declaration?_eq_some_iff e d).mp he).1

/-- The constants of a payload are those that its fields declare. -/
theorem Payload.mem_constantsOf (h : Payload es) {n : List Char} {x : Expr} :
    (n, x) ∈ constantsOf es ↔
      ∃ v d, es.field? (String.ofList n) = some v ∧
        declaration? (.str (String.ofList n), v) = some d ∧ literalExpr d.literal = x := by
  constructor
  · intro hm
    obtain ⟨d, hd, he⟩ := List.mem_map.mp hm
    cases he
    obtain ⟨⟨k, v⟩, he, hdecl⟩ := List.mem_filterMap.mp hd
    have hk : k = .str (String.ofList d.constant) := key_of_full hdecl (h.full d hd)
    subst k
    exact ⟨v, d, (field?_eq_some_iff h.distinct).mpr he, hdecl, rfl⟩
  · rintro ⟨v, d, hf, hdecl, rfl⟩
    have hd : d ∈ declarationsOf es :=
      List.mem_filterMap.mpr ⟨_, (field?_eq_some_iff h.distinct).mp hf, hdecl⟩
    have hn : n = d.constant := by
      have hk := key_of_full hdecl (h.full d hd)
      rwa [Value.str.injEq, String.ofList_inj] at hk
    subst n
    exact List.mem_map.mpr ⟨d, hd, rfl⟩

section Names

variable {k v : Value} {n : List Char}

theorem held?_own : held? ((.str (String.ofList n), v) :: es) n =
    (declaration? (.str (String.ofList n), v)).map fun d => worth (literalExpr d.literal) := by
  rw [held?, field?_text_cons, if_pos rfl]
  rfl

theorem held?_other (hk : k ≠ .str (String.ofList n)) :
    held? ((k, v) :: es) n = held? es n := by
  rw [held?, Entries.field?, Entries.get?, if_neg (mt same_text.mp hk)]
  rfl

/-- A name that is no key is not declared. -/
theorem get?_absent (hf : ∀ d ∈ declarationsOf es, IsName d.name.toList)
    (hn : ∀ e ∈ es, e.1 ≠ .str (String.ofList n)) :
    (scopeOf es).get? n = none := by
  refine get?_valued_absent fun hmem => ?_
  rw [constantsOf_names] at hmem
  obtain ⟨d, hd, rfl⟩ := List.mem_map.mp hmem
  obtain ⟨e, he, hdecl⟩ := List.mem_filterMap.mp hd
  exact hn e he (key_of_full hdecl (hf d hd))

end Names

/-- The scope of a payload gives a name what its field declares. -/
theorem get?_scopeOf (hd : KeysDistinct es) (hf : ∀ d ∈ declarationsOf es, IsName d.name.toList)
    (n : List Char) : (scopeOf es).get? n = (held? es n).map some := by
  induction es with
  | nil => rfl
  | cons e es ih =>
    obtain ⟨k, v⟩ := e
    rw [KeysDistinct, List.map_cons, List.pairwise_cons] at hd
    have hrest : ∀ d ∈ declarationsOf es, IsName d.name.toList := by
      intro d hm
      refine hf d ?_
      rw [declarationsOf, List.filterMap_cons]
      split
      · exact hm
      · exact List.mem_cons_of_mem _ hm
    have hkey : ∀ d, declaration? (k, v) = some d → k = .str (String.ofList d.constant) :=
      fun d hdecl => key_of_full hdecl (hf d (by simp [declarationsOf, hdecl]))
    by_cases hk : k = .str (String.ofList n)
    · subst k
      rw [held?_own, scopeOf_cons]
      cases hdecl : declaration? (.str (String.ofList n), v) with
      | some d =>
        have hc : d.constant = n := by
          have he := hkey d hdecl
          rw [Value.str.injEq, String.ofList_inj] at he
          exact he.symm
        dsimp only
        rw [Scope.get?, if_pos hc]
        rfl
      | none =>
        refine get?_absent hrest fun f hm he => ?_
        have hne := hd.1 f.1 (List.mem_map_of_mem hm)
        rw [he, same_text.mpr rfl] at hne
        contradiction
    · rw [held?_other hk, ← ih hd.2 hrest, scopeOf_cons]
      cases hdecl : declaration? (k, v) with
      | none => rfl
      | some d =>
        have hne : d.constant ≠ n := by
          rintro rfl
          exact hk (hkey d hdecl)
        dsimp only
        rw [Scope.get?, if_neg hne]

theorem literal_lacks {c : Char} {cs : List Char} (h : c ∉ cs) : c ∉ (String.ofList cs).toList := by
  rwa [String.toList_ofList]

-- A line is decided as the list that its literal stands for, since reading a literal by position is
-- slow.
theorem prelude_whole : '\x00' ∉ Prelude.text := by
  have hl : ∀ l ∈ Prelude.allLines, '\x00' ∉ l.toList := by
    simp only [Prelude.allLines, Prelude.opening, Prelude.avgLines, Prelude.sumLines,
      Prelude.extremeLines, Prelude.maxLines, Prelude.minLines, Prelude.groupByLines,
      Prelude.closing, List.forall_mem_cons, List.forall_mem_append]
    and_intros <;> first
      | exact literal_lacks (by decide +kernel)
      | exact List.forall_mem_nil _
  intro hm
  obtain ⟨l, hmem, hc⟩ := List.mem_flatMap.mp hm
  rw [List.mem_append] at hc
  exact hc.elim (hl l hmem) (by decide)

theorem visible_whole {cs : List Char} (h : Visible cs) : '\x00' ∉ cs := by
  intro hm
  exact absurd (h _ hm) (by decide)

theorem declaration_whole {d : Declaration} (hn : IsName d.name.toList) {g : Guest}
    (hl : Denotes d.literal g) : '\x00' ∉ d.text := by
  have hname := visible_whole (name_visible hn)
  have hliteral := visible_whole hl.visible
  have hopen : '\x00' ∉ "const ".toList ++ d.name.toList :=
    List.not_mem_append (by decide +kernel) hname
  have hequal : '\x00' ∉ "const ".toList ++ d.name.toList ++ " = ".toList :=
    List.not_mem_append hopen (by decide +kernel)
  exact List.not_mem_append (List.not_mem_append hequal hliteral) (by decide +kernel)

theorem lines_whole {ls : List (List Char)} (h : ∀ l ∈ ls, '\x00' ∉ l) : '\x00' ∉ lines ls := by
  induction ls with
  | nil => simp [lines]
  | cons l ls ih =>
    have hl := h l List.mem_cons_self
    have hs := ih fun m hm => h m (List.mem_cons_of_mem _ hm)
    cases ls with
    | nil => simpa [lines] using hl
    | cons m ls =>
      have he : lines (l :: m :: ls) = l ++ '\n' :: lines (m :: ls) := by
        simp [lines]
      rw [he, List.mem_append, List.mem_cons, not_or, not_or]
      exact ⟨hl, by decide, hs⟩

theorem mem_between {c : Char} {as cs bs : List Char} (ha : c ∉ as) (hb : c ∉ bs) :
    c ∈ as ++ cs ++ bs ↔ c ∈ cs := by
  simp only [List.mem_append]
  tauto

theorem around_whole (code : String) (w : Wrapping) :
    '\x00' ∈ w.around code ↔ '\x00' ∈ code.toList := by
  cases w with
  | block => exact mem_between (by decide +kernel) (by decide +kernel)
  | function => exact mem_between (by decide +kernel) (by decide +kernel)

/-- A null character comes into a program with its declarations or with its snippet. -/
theorem text_whole_iff (code : String) (es : Entries) (w : Wrapping) :
    '\x00' ∈ (Program.ofFields code es w).text ↔
      '\x00' ∈ lines ((declarationsOf es).map Declaration.text) ∨ '\x00' ∈ code.toList := by
  have hbody : '\x00' ∈ (Program.ofFields code es w).body ↔
      '\x00' ∈ lines ((declarationsOf es).map Declaration.text) ∨ '\x00' ∈ code.toList := by
    refine (mem_between (by decide +kernel) (by decide +kernel)).trans ?_
    split
    · next he =>
      change (declarationsOf es).isEmpty = true at he
      rw [List.isEmpty_iff.mp he, List.map_nil, Program.ofFields, around_whole]
      exact ⟨.inr, fun hm => hm.resolve_left (by decide)⟩
    · have hn : '\x00' ≠ '\n' := by decide
      rw [List.mem_append, List.mem_cons, Program.ofFields, around_whole]
      exact or_congr Iff.rfl ⟨fun hm => hm.resolve_left hn, .inr⟩
  rw [Program.text, List.mem_append, hbody]
  exact ⟨fun hm => hm.resolve_left prelude_whole, .inr⟩

/-- Only a snippet itself brings a null character into its program. -/
theorem Payload.whole_iff (h : Payload es) (code : String) (w : Wrapping) :
    '\x00' ∈ (Program.ofFields code es w).text ↔ '\x00' ∈ code.toList := by
  have hl : '\x00' ∉ lines ((declarationsOf es).map Declaration.text) := by
    apply lines_whole
    intro l hl
    obtain ⟨d, hd, rfl⟩ := List.mem_map.mp hl
    obtain ⟨g, hg⟩ := h.denoted d hd
    exact declaration_whole (h.full d hd) hg
  exact (text_whole_iff code es w).trans ⟨fun hm => hm.resolve_left hl, .inr⟩

end Reckoner.Proofs.Scopes
