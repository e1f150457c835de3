import Mathlib.Data.List.TakeWhile
import Reckoner.Proofs.Crossing
import Reckoner.Proofs.JsonTexts
import Reckoner.Proofs.Results

namespace Reckoner.Proofs.JsonValues
open Text Crossing JsonTexts Results

/-- A value that has a JSON text; the special numbers have one where their names count. -/
inductive JsonValue (specials : Bool) : Value → Prop where
  | none : JsonValue specials .none
  | bool (b : Bool) : JsonValue specials (.bool b)
  | int (n : Int) (short : n.natAbs < 10 ^ Numeral.digitLimit) : JsonValue specials (.int n)
  | float (x : Binary64) (named : specials = true ∨ x.isFinite = true) :
      JsonValue specials (.float x)
  | str (s : String) : JsonValue specials (.str s)
  | list (vs : List Value) (elements : ∀ v ∈ vs, JsonValue specials v) :
      JsonValue specials (.list vs)
  | dict (ms : List (String × Value)) (distinct : (ms.map Prod.fst).Nodup)
      (values : ∀ m ∈ ms, JsonValue specials m.2) : JsonValue specials (.dict (textKeyed ms))

/-- A number of this size has few enough digits. -/
theorem JsonValue.small {specials : Bool} {n : Int} {k : Nat} (hn : n.natAbs < 2 ^ k)
    (hk : k ≤ Numeral.digitLimit) : JsonValue specials (.int n) :=
  .int n (hn.trans_le (two_pow_le_limit hk))

theorem json_hasText {specials : Bool} {v : Value} (hv : JsonValue specials v) :
    v.hasText = true := by
  induction hv with
  | none => rfl
  | bool b => rfl
  | int n hn => exact decide_eq_true (decimalDigits_length hn)
  | float x hx => rfl
  | str s => rfl
  | list vs _ ih => exact (Value.haveTexts_iff vs).mpr ih
  | dict ms _ _ ih =>
    refine (Value.entriesHaveTexts_iff _).mpr fun e he => ?_
    obtain ⟨m, hm, rfl⟩ := List.mem_map.mp he
    exact ⟨rfl, ih m hm⟩

section
variable (s : Json.Style) {v : Value}

/-- At every depth a style writes a text that is read as the value. -/
def Readable (v : Value) : Prop :=
  ∀ depth, ∃ cs, Json.writeAt s depth v = .ok cs ∧ JsonText cs v

theorem float_readable {x : Binary64} (hx : s.specials = true ∨ x.isFinite = true) :
    Readable s (.float x) := by
  have hr : s.refuses (.float x) = false := by
    rcases hx with h | h
    · exact Json.Style.refuses_of_specials h _
    · simp [Json.Style.refuses, h]
  intro depth
  refine ⟨x.text .literal, ?_, literal_text x⟩
  rw [Json.writeAt, hr, if_neg Bool.false_ne_true]

theorem str_readable (t : String) : Readable s (.str t) := by
  have h := string_text s.ascii t.toList
  rw [String.ofList_toList] at h
  exact fun _ => ⟨_, rfl, h⟩

/-- The elements of a list and their texts. -/
theorem elements_readable {vs : List Value} (hv : ∀ v ∈ vs, Readable s v) (depth : Nat) :
    ∃ ps : List (List Char × Value), Json.writeAll s depth vs = .ok (ps.map Prod.fst) ∧
      ps.map Prod.snd = vs ∧ ∀ p ∈ ps, JsonText p.1 p.2 := by
  induction vs with
  | nil => exact ⟨[], rfl, rfl, by simp⟩
  | cons v vs ih =>
    obtain ⟨cs, hw, ht⟩ := hv v List.mem_cons_self depth
    obtain ⟨ps, hws, rfl, hts⟩ := ih fun w hw => hv w (List.mem_cons_of_mem _ hw)
    refine ⟨(cs, v) :: ps, ?_, rfl, List.forall_mem_cons.mpr ⟨ht, hts⟩⟩
    rw [Json.writeAll, hw, hws]
    rfl

/-- The members of a dictionary and their texts. -/
theorem members_readable {ms : List (String × Value)} (hm : ∀ m ∈ ms, Readable s m.2)
    (depth : Nat) :
    ∃ ps : List Part,
      Json.writeEntries s depth (textKeyed ms) = .ok (ps.map (Part.styled s)) ∧
      ps.map Part.entry = textKeyed ms ∧ ps.map Part.key = ms.map Prod.fst ∧
      ∀ p ∈ ps, JsonText p.text p.value := by
  induction ms with
  | nil => exact ⟨[], rfl, rfl, rfl, by simp⟩
  | cons m ms ih =>
    obtain ⟨cs, hw, ht⟩ := hm m List.mem_cons_self depth
    obtain ⟨ps, hws, hes, hks, hts⟩ := ih fun n hn => hm n (List.mem_cons_of_mem _ hn)
    refine ⟨⟨m.1, cs, m.2⟩ :: ps, ?_, ?_, ?_, List.forall_mem_cons.mpr ⟨ht, hts⟩⟩
    · rw [textKeyed] at hws
      rw [textKeyed, List.map_cons, Json.writeEntries, Json.keyText_str, hw, hws]
      rfl
    · rw [List.map_cons, hes]
      rfl
    · rw [List.map_cons, hks, List.map_cons]

/-- Every value that has a text in a style is read back from it. -/
theorem readable (hv : JsonValue s.specials v) : Readable s v := by
  induction hv with
  | none => exact fun _ => ⟨_, rfl, null_text⟩
  | bool b =>
    have h := bool_text b
    exact fun _ => ⟨_, rfl, by cases b <;> exact h⟩
  | int n hn => exact fun _ => ⟨_, rfl, int_text hn⟩
  | float x hx => exact float_readable s hx
  | str t => exact str_readable s t
  | list vs _ ih =>
    intro depth
    obtain ⟨ps, hw, rfl, ht⟩ := elements_readable s ih (depth + 1)
    refine ⟨_, ?_, list_text s depth ht⟩
    rw [Json.writeAt, hw]
    rfl
  | dict ms hd _ ih =>
    intro depth
    obtain ⟨ps, hw, he, hk, ht⟩ := members_readable s ih (depth + 1)
    have h := dict_text s depth ht
    rw [ofList_distinct (by rwa [hk]), he] at h
    refine ⟨_, ?_, h⟩
    rw [Json.writeAt, hw]
    rfl

/-- A value that has a text in a style is written, and its text is read as the value. -/
theorem write_read (hv : JsonValue s.specials v) :
    ∃ cs, Json.write s v = .ok cs ∧ Json.read cs = .ok v := by
  obtain ⟨cs, hw, ht⟩ := readable s hv 0
  exact ⟨cs, hw, ht.whole⟩

end

theorem natOf_lt {ds : List Char} (hd : ∀ c ∈ ds, Json.isDigit c = true) :
    Json.natOf ds < 10 ^ ds.length := by
  have h : ∀ n, ds.foldl (fun n c => 10 * n + (c.toNat - 48)) n < (n + 1) * 10 ^ ds.length := by
    induction ds with
    | nil => simp
    | cons c ds ih =>
      intro n
      have hc : c.toNat - 48 < 10 := by
        have := hd c List.mem_cons_self
        simp only [Json.isDigit, Bool.and_eq_true, decide_eq_true_eq] at this
        have hle : c.toNat ≤ 57 := this.2
        omega
      refine (ih (fun d hm => hd d (List.mem_cons_of_mem _ hm)) _).trans_le ?_
      rw [List.length_cons, pow_succ, Nat.mul_comm _ 10, ← Nat.mul_assoc]
      refine Nat.mul_le_mul_right _ ?_
      dsimp only
      omega
  exact (h 0).trans_eq (by rw [Nat.zero_add, Nat.one_mul])

theorem digits_isDigit (cs : List Char) : ∀ c ∈ (Json.digits cs).1, Json.isDigit c = true :=
  fun _ hc => List.mem_takeWhile_imp hc

theorem whole?_isDigit {cs ds rest : List Char} (h : Json.whole? cs = some (ds, rest)) :
    ∀ c ∈ ds, Json.isDigit c = true := by
  cases cs with
  | nil => cases h
  | cons c cs =>
    rw [Json.whole?] at h
    split at h
    · cases h
      intro d hd
      rw [List.mem_singleton.mp hd]
      rfl
    · split at h
      · next hc =>
        cases h
        intro d hd
        rcases List.mem_cons.mp hd with rfl | hd
        · exact hc
        · exact digits_isDigit _ d hd
      · cases h

/-- A number that is read has no more digits than an integer may have. -/
theorem unsigned?_json {negative : Bool} {cs rest : List Char} {v : Value}
    (h : Json.unsigned? negative cs = some (.ok (v, rest))) : JsonValue true v := by
  rw [Json.unsigned?] at h
  cases hw : Json.whole? cs with
  | none => simp [hw] at h
  | some p =>
    simp only [hw, Option.bind_eq_bind, Option.bind_some] at h
    split at h
    · split at h
      · cases h
      · next hl =>
        cases h
        have hn := (natOf_lt (whole?_isDigit hw)).trans_le
          (Nat.pow_le_pow_right (by omega) (Nat.le_of_not_lt hl))
        refine .int _ ?_
        split <;> simpa using hn
    · cases h
      exact .float _ (.inl rfl)
    · cases h
      exact .float _ (.inl rfl)

theorem number_json {cs rest : List Char} {v : Value} (h : Json.number cs = .ok (v, rest)) :
    JsonValue true v := by
  unfold Json.number at h
  split at h
  · next cs' =>
    cases hu : Json.unsigned? true cs' with
    | none => simp [hu] at h
    | some r =>
      rw [hu, Option.getD_some] at h
      exact unsigned?_json (by rw [hu, h])
  · cases hu : Json.unsigned? false cs with
    | none => simp [hu] at h
    | some r =>
      rw [hu, Option.getD_some] at h
      exact unsigned?_json (by rw [hu, h])

theorem word?_json {cs rest : List Char} {v : Value} (h : Json.word? cs = some (v, rest)) :
    JsonValue true v := by
  unfold Json.word? at h
  split at h <;> cases h
  · exact .none
  · exact .bool true
  · exact .bool false
  · exact .float _ (.inl rfl)
  · exact .float _ (.inl rfl)
  · exact .float _ (.inl rfl)

/-- Entries of a dictionary that a text writes. -/
def JsonEntries (es : Entries) : Prop :=
  ∃ ms : List (String × Value), es = textKeyed ms ∧ (ms.map Prod.fst).Nodup ∧
    ∀ m ∈ ms, JsonValue true m.2

theorem JsonEntries.value {es : Entries} (h : JsonEntries es) : JsonValue true (.dict es) := by
  obtain ⟨ms, rfl, hd, hv⟩ := h
  exact .dict ms hd hv

/-- The field of a name among entries with texts as keys. -/
theorem field?_textKeyed (k : String) (ms : List (String × Value)) :
    Entries.field? k (textKeyed ms) = ms.lookup k := by
  induction ms with
  | nil => rfl
  | cons m ms ih =>
    rw [Entries.field?, textKeyed] at ih
    rw [Entries.field?, textKeyed, List.map_cons, Entries.get?, ih, List.lookup_cons]
    by_cases hm : m.1 = k
    · simp [Value.same, hm]
    · simp [Value.same, hm, beq_false_of_ne (Ne.symm hm)]

theorem field?_json {es : Entries} (h : JsonEntries es) {k : String} {v : Value}
    (hv : es.field? k = some v) : JsonValue true v := by
  obtain ⟨ms, rfl, -, hms⟩ := h
  rw [field?_textKeyed, List.lookup_eq_some_iff] at hv
  obtain ⟨as, bs, rfl, -⟩ := hv
  exact hms (k, v) (by simp)

theorem JsonEntries.of_value {es : Entries} (h : JsonValue true (.dict es)) : JsonEntries es := by
  cases h with
  | dict ms hd hv => exact ⟨ms, rfl, hd, hv⟩

/-- Members with a key written over them: in its place, or at the end. -/
theorem insert_textKeyed (k : String) (v : Value) (ms : List (String × Value)) :
    ∃ ns : List (String × Value), (textKeyed ms).insert (.str k) v = textKeyed ns ∧
      (∀ n ∈ ns, n ∈ ms ∨ n = (k, v)) ∧
      ((k ∈ ms.map Prod.fst ∧ ns.map Prod.fst = ms.map Prod.fst) ∨
        (k ∉ ms.map Prod.fst ∧ ns.map Prod.fst = ms.map Prod.fst ++ [k])) := by
  induction ms with
  | nil => exact ⟨[(k, v)], rfl, by simp, by simp⟩
  | cons m ms ih =>
    by_cases hm : m.1 = k
    · refine ⟨(m.1, v) :: ms, ?_, ?_, .inl ⟨by simp [hm], rfl⟩⟩
      · simp [textKeyed, Entries.insert, Value.same, hm]
      · intro n hn
        rcases List.mem_cons.mp hn with rfl | hn
        · exact .inr (by rw [hm])
        · exact .inl (List.mem_cons_of_mem _ hn)
    · obtain ⟨ns, he, hmem, hk⟩ := ih
      rw [textKeyed] at he
      refine ⟨m :: ns, ?_, ?_, ?_⟩
      · simp [textKeyed, Entries.insert, Value.same, hm, he]
      · intro n hn
        rcases List.mem_cons.mp hn with rfl | hn
        · exact .inl List.mem_cons_self
        · exact (hmem n hn).imp (List.mem_cons_of_mem _) id
      · rcases hk with ⟨hin, hk⟩ | ⟨hout, hk⟩
        · exact .inl ⟨by simp [List.mem_map.mp hin], by simp [hk]⟩
        · refine .inr ⟨?_, by simp [hk]⟩
          rw [List.map_cons, List.mem_cons, not_or]
          exact ⟨fun h => hm h.symm, hout⟩

theorem JsonEntries.insert {es : Entries} (h : JsonEntries es) (k : String) {v : Value}
    (hv : JsonValue true v) : JsonEntries (es.insert (.str k) v) := by
  obtain ⟨ms, rfl, hd, hvs⟩ := h
  obtain ⟨ns, he, hmem, hk⟩ := insert_textKeyed k v ms
  refine ⟨ns, he, ?_, ?_⟩
  · rcases hk with ⟨-, hk⟩ | ⟨hout, hk⟩
    · rwa [hk]
    · rw [hk, List.nodup_append]
      refine ⟨hd, by simp, ?_⟩
      rintro a ha b hb rfl
      exact hout (List.mem_singleton.mp hb ▸ ha)
  · intro n hn
    rcases hmem n hn with hn | rfl
    · exact hvs n hn
    · exact hv

/-- What is read with some fuel, of every kind, is of JSON texts. -/
structure ReadsJson (fuel : Nat) : Prop where
  value : ∀ cs v rest, Json.value fuel cs = .ok (v, rest) → JsonValue true v
  elements : ∀ cs vs rest, Json.elements fuel cs = .ok (vs, rest) → ∀ v ∈ vs, JsonValue true v
  members : ∀ es cs fs rest, JsonEntries es → Json.members fuel es cs = .ok (fs, rest) →
    JsonEntries fs

theorem jsonEntries_nil : JsonEntries [] := ⟨[], rfl, by simp, by simp⟩

section
variable {fuel : Nat} (ih : ReadsJson fuel)
include ih

theorem ReadsJson.value_succ {cs rest : List Char} {v : Value}
    (h : Json.value (fuel + 1) cs = .ok (v, rest)) : JsonValue true v := by
  unfold Json.value at h
  split at h
  · obtain ⟨r, -, he⟩ := ok_of_map h
    cases he
    exact .str _
  · split at h
    · cases h
      exact jsonEntries_nil.value
    · obtain ⟨r, hr, he⟩ := ok_of_map h
      cases he
      exact (ih.members _ _ _ _ jsonEntries_nil hr).value
  · split at h
    · cases h
      exact .list [] (by simp)
    · obtain ⟨r, hr, he⟩ := ok_of_map h
      cases he
      exact .list _ (ih.elements _ _ _ hr)
  · split at h
    · next hw =>
      cases h
      exact word?_json hw
    · exact number_json h

theorem ReadsJson.elements_succ {cs rest : List Char} {vs : List Value}
    (h : Json.elements (fuel + 1) cs = .ok (vs, rest)) : ∀ v ∈ vs, JsonValue true v := by
  unfold Json.elements at h
  cases hx : Json.value fuel cs with
  | error e => simp [hx, bind, Except.bind] at h
  | ok p =>
    have hv := ih.value _ _ _ hx
    simp only [hx, bind, Except.bind] at h
    split at h
    · cases h
      simpa using hv
    · split at h
      · cases h
      · next hxs =>
        cases h
        exact List.forall_mem_cons.mpr ⟨hv, ih.elements _ _ _ hxs⟩
    · cases h

theorem ReadsJson.members_succ {es fs : Entries} {cs rest : List Char} (hes : JsonEntries es)
    (h : Json.members (fuel + 1) es cs = .ok (fs, rest)) : JsonEntries fs := by
  unfold Json.members at h
  split at h
  · simp only [bind, Except.bind] at h
    split at h
    · cases h
    · split at h
      · split at h
        · cases h
        · next hv =>
          have hi := fun k => hes.insert k (ih.value _ _ _ hv)
          split at h
          · cases h
            exact hi _
          · exact ih.members _ _ _ _ (hi _) h
          · cases h
      · cases h
  · cases h

end

theorem readsJson (fuel : Nat) : ReadsJson fuel := by
  induction fuel with
  | zero =>
    constructor
    · intro cs v rest h
      simp [Json.value] at h
    · intro cs vs rest h
      simp [Json.elements] at h
    · intro es cs fs rest _ h
      simp [Json.members] at h
  | succ fuel ih =>
    exact ⟨fun _ _ _ h => ih.value_succ h, fun _ _ _ h => ih.elements_succ h,
      fun _ _ _ _ hes h => ih.members_succ hes h⟩

/-- Every value that a text is read as is a value of JSON texts. -/
theorem read_json {cs : List Char} {v : Value} (h : Json.read cs = .ok v) : JsonValue true v := by
  unfold Json.read at h
  split at h
  · cases h
  · dsimp only at h
    split at h
    · cases h
    · next hv =>
      split at h
      · cases h
        exact (readsJson _).value _ _ _ hv
      · cases h

end Reckoner.Proofs.JsonValues
