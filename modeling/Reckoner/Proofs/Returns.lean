import Reckoner.Proofs.Denotations
import Reckoner.Proofs.JsonTexts
import Reckoner.Snippet.Written

namespace Reckoner.Proofs.Returns
open Snippet Text Crossing Denotations JsonTexts UnitTexts

/-- A value inside an array or an object that comes back as it went: no key sets a parent, and no
number is written as an integer of another value. -/
inductive Kept : Value → Prop where
  | none : Kept .none
  | bool (b : Bool) : Kept (.bool b)
  | int (n : Int) : Kept (.int n)
  | float (x : Binary64)
      (exact : ∀ n, x.text .snippet = intText n → (Value.int n).same (.float x) = true) :
      Kept (.float x)
  | str (s : String) : Kept (.str s)
  | list (vs : List Value) (elements : ∀ v ∈ vs, Kept v) : Kept (.list vs)
  | dict (es : Entries) (own : ∀ e ∈ es, e.1 ≠ .str "__proto__") (values : ∀ e ∈ es, Kept e.2) :
      Kept (.dict es)

theorem Kept.exact {x : Binary64} (h : Kept (.float x)) :
    ∀ n, x.text .snippet = intText n → (Value.int n).same (.float x) = true := by
  cases h with
  | float _ exact => exact exact

/-- A snippet's value comes back as another value. -/
def ComesBack (g : Guest) (w : Value) : Prop := ∃ cs, json? g = some cs ∧ JsonText cs w

/-- What comes back of a value is that value exactly when it is kept. -/
def Faithful (v : Value) : Prop :=
  ∃ w, ComesBack (ofValue v) w ∧ (w.same v = true ↔ Kept v)

theorem same_int (n : Int) : (Value.int n).same (.int n) = true := by
  simp [Value.same, Value.place?]

theorem int_same_float {n : Int} {x : Binary64} (h : x.place? = some (.ofInt n)) :
    (Value.int n).same (.float x) = true := by
  simp [Value.same, Value.place?, h]

theorem same_float {x : Binary64} (hx : x.isFinite = true) :
    (Value.float x).same (.float x) = true := by
  cases x with
  | nan => contradiction
  | inf s => contradiction
  | fin s m => cases s <;> simp [Value.same, Value.place?, Binary64.place?]

theorem none_faithful : Faithful .none := by
  refine ⟨.none, ⟨_, by rw [ofValue, json?], null_text⟩, ?_⟩
  simp [Value.same, Kept.none]

theorem bool_faithful (b : Bool) : Faithful (.bool b) := by
  refine ⟨.bool b, ⟨_, by rw [ofValue, json?], bool_text b⟩, ?_⟩
  simp [Value.same, Value.place?, Kept.bool]

theorem str_faithful (s : String) : Faithful (.str s) := by
  refine ⟨.str s, ⟨Json.string false s.toList, ?_, ?_⟩, ?_⟩
  · rw [ofValue, Guest.ofString, json?, quotedUnits, Units.ofString, toChars_ofChars]
  · have h := string_text false s.toList
    rwa [String.ofList_toList] at h
  · simp [Value.same, Kept.str]

theorem number_json {x : Binary64} (hx : x.isFinite = true) :
    json? (.number (literalNumber x)) = some (x.text .snippet) := by
  rw [json?, jsonNumber, literalNumber_value, if_pos hx]

theorem int_faithful {n : Int} (hn : n.natAbs < 2 ^ 53) : Faithful (.int n) := by
  refine ⟨.int n, ⟨intText n, ?_, int_text (hn.trans_le (two_pow_le_limit (by decide)))⟩, ?_⟩
  · rw [ofValue, number_json (Integers.isFinite_ofInt hn.le), IntegerText.text_ofInt hn]
  · simp [same_int, Kept.int]

theorem float_faithful {x : Binary64} (hx : x.isFinite = true) : Faithful (.float x) := by
  obtain ⟨w, hw, ⟨n, hn, rfl⟩ | ⟨hn, rfl⟩⟩ := float_text hx
  · refine ⟨.int n, ⟨_, by rw [ofValue, number_json hx], hw⟩, ?_⟩
    constructor
    · intro hs
      refine .float x fun k hk => ?_
      rwa [← intText_inj (hn.symm.trans hk)]
    · exact fun hk => hk.exact n hn
  · refine ⟨.float x, ⟨_, by rw [ofValue, number_json hx], hw⟩, ?_⟩
    have hk : Kept (.float x) := .float x fun k hk => absurd hk (hn k)
    simp [same_float hx, hk]

section Numbers
open Binary64 Integers Layouts Rounding

/-- A magnitude that is spelt as a numeral is nearest to that natural. -/
theorem nearest_digits {m : Nat} (hm : m ≠ 0) (hlt : m < magnitudes)
    (hn : (magnitudeSpelling .snippet m).IsNumeral) :
    nearest ((magnitudeSpelling .snippet m).digits * unit) 1 = m := by
  have h := ofDecimal_magnitude snippet_faithful false hlt
  have hs : (magnitudeSpelling .snippet m).scale = 0 := by
    rw [Spellings.Spelling.scale, hn.1, hn.2]
    rfl
  rw [hs, ofDecimal_natural (digits_pos hm hlt), ofGrid, ofMag] at h
  split at h
  · rw [fin.injEq, Fin.mk.injEq] at h
    exact h.2
  · cases h

theorem gridOf_lt {s : Bool} {m : Fin magnitudes} {n : Int}
    (ht : (Binary64.fin s m).trunc? = some n) (hn : n.natAbs < 2 ^ 53) :
    gridOf m < 2 ^ 53 * unit := by
  have hd : n.natAbs = gridOf m / unit := by
    cases s with
    | false =>
      cases ht
      rw [Int.natAbs_tdiv, Int.natAbs_natCast, Int.natAbs_natCast]
      rfl
    | true =>
      cases ht
      rw [Int.natAbs_tdiv, Int.natAbs_neg, Int.natAbs_natCast, Int.natAbs_natCast]
      rfl
  rw [hd] at hn
  exact (Nat.div_lt_iff_lt_mul unit_pos).mp hn

/-- Below `2 ^ 53`, the digits of a numeral are its value. -/
theorem gridOf_digits {m : Nat} (hlt : m < magnitudes) (hg : gridOf m < 2 ^ 53 * unit)
    (hs : (magnitudeSpelling .snippet m).IsNumeral) :
    gridOf m = (magnitudeSpelling .snippet m).digits * unit := by
  by_cases hm : m = 0
  · subst m
    decide +kernel
  · have hpos := digits_pos hm hlt
    have hnear := nearest_digits hm hlt hs
    generalize (magnitudeSpelling .snippet m).digits = a at *
    have ha : a < 2 ^ 53 := by
      by_contra hge
      have hle := le_nearest (Nat.not_lt.mp hge)
      rw [hnear] at hle
      omega
    rw [← hnear, nearest_integer hpos ha, gridOf_magnitude hpos ha]

/-- A number whose whole part is below `2 ^ 53` is kept. -/
theorem kept_of_trunc {x : Binary64} {n : Int} (ht : x.trunc? = some n)
    (hn : n.natAbs < 2 ^ 53) : Kept (.float x) := by
  cases x with
  | nan => cases ht
  | inf s => cases ht
  | fin s m =>
    refine .float _ fun k hk => ?_
    obtain ⟨hs, rfl⟩ := numeral_of_intText hk
    have hv := gridOf_digits m.isLt (gridOf_lt ht hn) hs
    apply int_same_float
    rw [digitsInt_eq]
    cases s with
    | false => rw [Binary64.place?, hv, Nat.cast_mul, if_neg Bool.false_ne_true, Place.ofInt]
    | true => rw [Binary64.place?, hv, Nat.cast_mul, if_pos rfl, Place.ofInt, neg_mul]

/-- The digits of `2 ^ 60` are padded with zeros, which makes them another integer. -/
theorem power_not_kept : ¬ Kept (.float (.ofInt (2 ^ 60))) := by
  intro h
  have ht : (Binary64.ofInt (2 ^ 60)).text .snippet = intText 1152921504606847000 := by
    decide +kernel
  have hs := h.exact _ ht
  revert hs
  decide +kernel

end Numbers

theorem elements_faithful {vs : List Value} (hv : ∀ v ∈ vs, Faithful v) :
    ∃ ps : List (List Char × Value), jsonElements (ofValues vs) = ps.map Prod.fst ∧
      (∀ p ∈ ps, JsonText p.1 p.2) ∧
      (Value.sameAll (ps.map Prod.snd) vs = true ↔ ∀ v ∈ vs, Kept v) := by
  induction vs with
  | nil => exact ⟨[], rfl, by simp, by simp [Value.sameAll]⟩
  | cons v vs ih =>
    obtain ⟨w, ⟨cs, hj, ht⟩, hk⟩ := hv v List.mem_cons_self
    obtain ⟨ps, hjs, hts, hks⟩ := ih fun u hu => hv u (List.mem_cons_of_mem _ hu)
    refine ⟨(cs, w) :: ps, ?_, ?_, ?_⟩
    · rw [ofValues, jsonElements, hj, hjs]
      rfl
    · simpa using ⟨ht, fun a b h => hts (a, b) h⟩
    · rw [List.map_cons, Value.sameAll, Bool.and_eq_true, hk, hks]
      simp

theorem list_faithful {vs : List Value} (hv : ∀ v ∈ vs, Faithful v) : Faithful (.list vs) := by
  obtain ⟨ps, hj, ht, hk⟩ := elements_faithful hv
  refine ⟨.list (ps.map Prod.snd), ⟨_, by rw [ofValue, json?, hj], array_text ht⟩, ?_⟩
  rw [Value.same, hk]
  constructor
  · exact fun h => .list vs h
  · intro h
    cases h with
    | list _ he => exact he

/-- The members of an object that do not set its parent. -/
def ownMembers (ms : List (String × Value)) : List (String × Value) :=
  ms.filter fun m => m.1 ≠ "__proto__"

variable {ms : List (String × Value)}

theorem ofMembers_own :
    (ofMembers ms).filter (fun m => m.1 ≠ parentKey) = ofMembers (ownMembers ms) := by
  rw [ofMembers, List.filter_map, ofMembers, ownMembers]
  congr 1
  refine List.filter_congr fun m _ => ?_
  have hk : Units.ofString m.1 = parentKey ↔ m.1 = "__proto__" := ofString_inj
  simp [hk]

def parentOf (ms : List (String × Value)) : Option Guest :=
  ((ofMembers ms).find? fun m => m.1 = parentKey && m.2.isParent).map Prod.snd

theorem ofValue_object (hd : (ms.map Prod.fst).Nodup) :
    ofValue (.dict (textKeyed ms)) = .object (parentOf ms) (ofMembers (ownMembers ms)) := by
  have hn : ((ofMembers (ownMembers ms)).map Prod.fst).Nodup := by
    rw [ofMembers_names]
    refine (hd.sublist ?_).map fun s t h => ofString_inj.mp h
    exact List.filter_sublist.map Prod.fst
  rw [ofValue, ofEntries_textKeyed]
  unfold objectOf
  dsimp only
  rw [ofMembers_own, written_distinct (by simpa using hn), List.nil_append, parentOf]

theorem parentOf_mem {p : Guest} (hp : parentOf ms = some p) : ∃ m ∈ ms, p = ofValue m.2 := by
  obtain ⟨a, ha, rfl⟩ := Option.map_eq_some_iff.mp hp
  obtain ⟨m, hm, rfl⟩ := List.mem_map.mp (List.mem_of_find?_eq_some ha)
  exact ⟨m, hm, rfl⟩

theorem ofValue_ne_helper (v : Value) (h : Helper) : ofValue v ≠ .helper h := by
  cases v <;> simp [ofValue, Guest.ofString, objectOf]

theorem ofValue_ne_native (v : Value) (n : Native) : ofValue v ≠ .native n := by
  cases v <;> simp [ofValue, Guest.ofString, objectOf]

theorem member?_mem {key : Units} {gs : List (Units × Guest)} {g : Guest}
    (h : member? key gs = some g) : ∃ m ∈ gs, m.2 = g := by
  induction gs with
  | nil => cases h
  | cons m gs ih =>
    obtain ⟨k, w⟩ := m
    rw [member?] at h
    split at h
    · exact ⟨(k, w), List.mem_cons_self, Option.some.inj h⟩
    · obtain ⟨n, hn, he⟩ := ih h
      exact ⟨n, List.mem_cons_of_mem _ hn, he⟩

theorem indexed_ne_helper {n : Nat} {f : Nat → Option Guest} {h : Helper}
    (hf : ∀ i, f i ≠ some (.helper h)) (key : Units) :
    Guest.indexed n f key ≠ some (.helper h) := by
  intro he
  rw [Guest.indexed] at he
  split at he
  · cases he
  · obtain ⟨i, -, hi⟩ := Option.bind_eq_some_iff.mp he
    exact hf i hi

/-- What is found in a value that crossed is no helper. -/
theorem find?_ne_helper {v : Value} (hv : Crossable v) (key : Units) (h : Helper) :
    (ofValue v).find? key ≠ some (.helper h) := by
  induction hv with
  | str s =>
    rw [ofValue, Guest.ofString, Guest.find?]
    refine indexed_ne_helper (fun i he => ?_) key
    obtain ⟨c, -, hc⟩ := Option.map_eq_some_iff.mp he
    cases hc
  | list vs hvs ih =>
    rw [ofValue, Guest.find?]
    refine indexed_ne_helper (fun i he => ?_) key
    rw [ofValues_eq_map] at he
    obtain ⟨v, -, hv⟩ := List.mem_map.mp (List.mem_of_getElem? he)
    exact ofValue_ne_helper v h hv
  | dict ms hd hms ih =>
    rw [ofValue_object hd, Guest.find?]
    intro he
    cases hm : member? key (ofMembers (ownMembers ms)) with
    | some g =>
      rw [hm, Option.some_or, Option.some.injEq] at he
      obtain ⟨a, ha, hag⟩ := member?_mem hm
      obtain ⟨m, -, rfl⟩ := List.mem_map.mp ha
      exact ofValue_ne_helper m.2 h (hag.trans he)
    | none =>
      rw [hm, Option.none_or] at he
      cases hp : parentOf ms with
      | none =>
        rw [hp] at he
        cases he
      | some p =>
        obtain ⟨m, hm, rfl⟩ := parentOf_mem hp
        rw [hp, Guest.inherited?] at he
        exact ih m hm he
  | _ => simp [ofValue, Guest.find?]

theorem jsonHelper?_eq_none {v : Value} (hv : Crossable v) : jsonHelper? (ofValue v) = none := by
  unfold jsonHelper?
  split
  · next h he => exact absurd he (find?_ne_helper hv _ h)
  · rfl

theorem placeByIndex_perm (i : Nat) (p : List Char) (ps : List (Nat × List Char)) :
    (placeByIndex i p ps).Perm ((i, p) :: ps) := by
  induction ps with
  | nil => exact .refl _
  | cons q ps ih =>
    obtain ⟨j, r⟩ := q
    rw [placeByIndex]
    split
    · exact .refl _
    · exact (ih.cons (j, r)).trans (.swap (i, p) (j, r) ps)

/-- Members placed one after the other are all those that are named by indexes. -/
theorem placed_perm {step : List (Nat × List Char) → Units × List Char → List (Nat × List Char)}
    (hnone : ∀ acc m, arrayIndex? m.1 = none → step acc m = acc)
    (hsome : ∀ acc m i, arrayIndex? m.1 = some i → step acc m = placeByIndex i m.2 acc)
    (gs : List (Units × List Char)) (acc : List (Nat × List Char)) :
    ((gs.foldl step acc).map Prod.snd).Perm
      (acc.map Prod.snd ++ (gs.filter fun m => (arrayIndex? m.1).isSome).map Prod.snd) := by
  induction gs generalizing acc with
  | nil => simp
  | cons g gs ih =>
    rw [List.foldl_cons]
    refine (ih _).trans ?_
    cases hg : arrayIndex? g.1 with
    | none => simp [hg, hnone acc g hg]
    | some i =>
      have hp := ((placeByIndex_perm i g.2 acc).map Prod.snd).append_right
        ((gs.filter fun m => (arrayIndex? m.1).isSome).map Prod.snd)
      rw [hsome acc g i hg]
      refine hp.trans ?_
      simpa [hg] using List.perm_middle.symm

/-- Members are ordered, and none is lost or written twice. -/
theorem orderMembers_perm (gs : List (Units × List Char)) :
    (orderMembers gs).Perm (gs.map Prod.snd) := by
  unfold orderMembers
  dsimp only
  refine ((placed_perm ?_ ?_ gs []).append_right _).trans ?_
  · intro acc m h
    rw [h]
  · intro acc m i h
    rw [h]
  rw [List.map_nil, List.nil_append]
  rw [← List.map_append]
  have hn : ∀ m : Units × List Char, (arrayIndex? m.1).isNone = !(arrayIndex? m.1).isSome := by
    intro m
    cases arrayIndex? m.1 <;> rfl
  simp only [hn]
  exact (List.filter_append_perm _ gs).map Prod.snd

theorem orderMembers_parts (qs : List Part) :
    ∃ ps : List Part, ps.Perm qs ∧
      orderMembers (qs.map fun p => (Units.ofString p.key, p.whole)) = ps.map Part.whole := by
  have hp := orderMembers_perm (qs.map fun p => (Units.ofString p.key, p.whole))
  rw [List.map_map] at hp
  have h := congrFun (congrFun (List.eq_map_comp_perm Part.whole)
    (orderMembers (qs.map fun p => (Units.ofString p.key, p.whole)))) qs
  obtain ⟨ps, hps, hperm⟩ := h.mpr hp
  exact ⟨ps, hperm, hps⟩

/-- A member that came back, against the one that went. -/
def Returned (p : Part) (m : String × Value) : Prop :=
  p.key = m.1 ∧ (p.value.same m.2 = true ↔ Kept m.2)

/-- The members of an object as they are written, each with what comes back of it. -/
theorem members_faithful (hv : ∀ m ∈ ms, Faithful m.2) :
    ∃ ps : List Part,
      jsonMembers (ofMembers ms) = ps.map (fun p => (Units.ofString p.key, p.whole)) ∧
      (∀ p ∈ ps, JsonText p.text p.value) ∧ List.Forall₂ Returned ps ms := by
  induction ms with
  | nil => exact ⟨[], rfl, by simp, .nil⟩
  | cons m ms ih =>
    obtain ⟨w, ⟨cs, hj, ht⟩, hk⟩ := hv m List.mem_cons_self
    obtain ⟨ps, hjs, hts, hks⟩ := ih fun n hn => hv n (List.mem_cons_of_mem _ hn)
    refine ⟨⟨m.1, cs, w⟩ :: ps, ?_, ?_, .cons ⟨rfl, hk⟩ hks⟩
    · rw [ofMembers, List.map_cons, ← ofMembers, jsonMembers, hj, hjs, List.map_cons, Part.whole,
        quotedUnits, Units.ofString, toChars_ofChars]
    · intro p hp
      rcases List.mem_cons.mp hp with rfl | hp
      · exact ht
      · exact hts p hp

/-- Members that came back in any order, against those that went. -/
structure AllReturned (ps : List Part) (ms : List (String × Value)) : Prop where
  length : ps.length = ms.length
  keys : (ps.map Part.key).Perm (ms.map Prod.fst)
  known : ∀ p ∈ ps, ∃ m ∈ ms, Returned p m
  found : ∀ m ∈ ms, ∃ p ∈ ps, Returned p m

theorem allReturned_of_forall₂ {ps : List Part} (h : List.Forall₂ Returned ps ms) :
    AllReturned ps ms := by
  induction h with
  | nil => exact ⟨rfl, .refl _, by simp, by simp⟩
  | cons hr _ ih =>
    refine ⟨congrArg Nat.succ ih.length, ?_, ?_, ?_⟩
    · rw [List.map_cons, List.map_cons, hr.1]
      exact ih.keys.cons _
    · intro p hp
      rcases List.mem_cons.mp hp with rfl | hp
      · exact ⟨_, List.mem_cons_self, hr⟩
      · obtain ⟨m, hm, h⟩ := ih.known p hp
        exact ⟨m, List.mem_cons_of_mem _ hm, h⟩
    · intro m hm
      rcases List.mem_cons.mp hm with rfl | hm
      · exact ⟨_, List.mem_cons_self, hr⟩
      · obtain ⟨p, hp, h⟩ := ih.found m hm
        exact ⟨p, List.mem_cons_of_mem _ hp, h⟩

theorem AllReturned.perm {ps qs : List Part} (h : AllReturned qs ms) (hp : ps.Perm qs) :
    AllReturned ps ms where
  length := hp.length_eq.trans h.length
  keys := (hp.map Part.key).trans h.keys
  known := fun p hm => h.known p (hp.subset hm)
  found := by
    intro m hm
    obtain ⟨p, hq, hr⟩ := h.found m hm
    exact ⟨p, hp.symm.subset hq, hr⟩

/-- An object comes back as its own members in some order. -/
theorem object_comesBack (hd : (ms.map Prod.fst).Nodup) (hc : ∀ m ∈ ms, Crossable m.2)
    (hv : ∀ m ∈ ms, Faithful m.2) :
    ∃ ps : List Part, ComesBack (ofValue (.dict (textKeyed ms))) (.dict (ps.map Part.entry)) ∧
      AllReturned ps (ownMembers ms) := by
  have hown : ∀ m ∈ ownMembers ms, Faithful m.2 := fun m hm => hv m (List.mem_of_mem_filter hm)
  obtain ⟨qs, hj, ht, hk⟩ := members_faithful hown
  obtain ⟨ps, hperm, hps⟩ := orderMembers_parts qs
  have hr := (allReturned_of_forall₂ hk).perm hperm
  have hkeys : (ps.map Part.key).Nodup :=
    hr.keys.nodup_iff.mpr (hd.sublist (List.filter_sublist.map Prod.fst))
  have hjson : json? (ofValue (.dict (textKeyed ms))) =
      some ('\x7b' :: ([','].intercalate (ps.map Part.whole) ++ ['\x7d'])) := by
    have hh := jsonHelper?_eq_none (.dict ms hd hc)
    rw [ofValue_object hd] at hh ⊢
    rw [json?, hh]
    dsimp only
    rw [hj, hps]
  have htext := object_text fun p hp => ht p (hperm.subset hp)
  rw [ofList_distinct hkeys] at htext
  exact ⟨ps, ⟨_, hjson, htext⟩, hr⟩

theorem sameEntries_iff (es fs : Entries) : Value.sameEntries es fs = true ↔
    ∀ e ∈ es, ∃ f ∈ fs, e.1.same f.1 = true ∧ e.2.same f.2 = true := by
  induction es with
  | nil => simp [Value.sameEntries]
  | cons e es ih =>
    obtain ⟨k, v⟩ := e
    rw [Value.sameEntries, Bool.and_eq_true, ih, List.any_eq_true, List.forall_mem_cons]
    simp only [Bool.and_eq_true]

theorem dict_same_iff (ps : List Part) (ms : List (String × Value)) :
    (Value.dict (ps.map Part.entry)).same (.dict (textKeyed ms)) = true ↔
      ps.length = ms.length ∧ ∀ p ∈ ps, ∃ m ∈ ms, p.key = m.1 ∧ p.value.same m.2 = true := by
  rw [Value.same, Bool.and_eq_true, sameEntries_iff, beq_iff_eq]
  simp [textKeyed, Part.entry, Value.same]

theorem kept_dict_iff : Kept (.dict (textKeyed ms)) ↔
    (∀ m ∈ ms, m.1 ≠ "__proto__") ∧ ∀ m ∈ ms, Kept m.2 := by
  constructor
  · intro h
    cases h with
    | dict _ ho hv =>
      refine ⟨fun m hm he => ?_, fun m hm => hv _ (List.mem_map_of_mem hm)⟩
      exact ho _ (List.mem_map_of_mem hm) (by rw [he])
  · rintro ⟨ho, hv⟩
    refine .dict _ (fun e he => ?_) fun e he => ?_
    · obtain ⟨m, hm, rfl⟩ := List.mem_map.mp he
      simpa using ho m hm
    · obtain ⟨m, hm, rfl⟩ := List.mem_map.mp he
      exact hv m hm

theorem ownMembers_eq_iff : (ownMembers ms).length = ms.length ↔ ∀ m ∈ ms, m.1 ≠ "__proto__" := by
  rw [ownMembers, List.length_filter_eq_length_iff]
  simp only [decide_eq_true_eq]

/-- An object comes back as it went when no member sets its parent and all of them are kept. -/
theorem dict_faithful (hd : (ms.map Prod.fst).Nodup) (hc : ∀ m ∈ ms, Crossable m.2)
    (hv : ∀ m ∈ ms, Faithful m.2) : Faithful (.dict (textKeyed ms)) := by
  obtain ⟨ps, hb, hr⟩ := object_comesBack hd hc hv
  refine ⟨_, hb, ?_⟩
  rw [dict_same_iff, kept_dict_iff, ← ownMembers_eq_iff, hr.length]
  refine and_congr_right fun hl => ?_
  have hown : ∀ m ∈ ms, m ∈ ownMembers ms := by
    intro m hm
    exact List.mem_filter.mpr ⟨hm, by simpa using ownMembers_eq_iff.mp hl m hm⟩
  constructor
  · intro h m hm
    obtain ⟨p, hp, hkey, hk⟩ := hr.found m (hown m hm)
    obtain ⟨n, hn, hkey', hs⟩ := h p hp
    have he : m = n := List.inj_on_of_nodup_map hd hm hn (hkey.symm.trans hkey')
    exact hk.mp (he ▸ hs)
  · intro h p hp
    obtain ⟨m, hm, hkey, hk⟩ := hr.known p hp
    have hm' := List.mem_of_mem_filter hm
    exact ⟨m, hm', hkey, hk.mpr (h m hm')⟩

/-- What comes back of a value that may cross is that value exactly when it is kept. -/
theorem faithful {v : Value} (hv : Crossable v) : Faithful v := by
  induction hv with
  | none => exact none_faithful
  | bool b => exact bool_faithful b
  | int n hn => exact int_faithful hn
  | float x hx => exact float_faithful hx
  | str s _ => exact str_faithful s
  | list vs _ ih => exact list_faithful ih
  | dict ms hd hc ih => exact dict_faithful hd hc ih

end Reckoner.Proofs.Returns
