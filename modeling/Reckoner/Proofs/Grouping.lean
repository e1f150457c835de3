import Reckoner.Proofs.Crossing
import Reckoner.Proofs.Partitions

namespace Reckoner.Proofs.Grouping
open Aggregate Snippet Text UnitTexts Crossing

/-- Further names that arrays have members under. -/
def arrayNames : List String :=
  ["length", "at", "concat", "copyWithin", "entries", "every", "fill", "filter", "find",
   "findIndex", "findLast", "findLastIndex", "flat", "flatMap", "forEach", "includes", "indexOf",
   "join", "keys", "lastIndexOf", "map", "pop", "push", "reduce", "reduceRight", "reverse",
   "shift", "slice", "some", "sort", "splice", "toReversed", "toSorted", "toSpliced", "unshift",
   "values", "with"]

def textNames : List String :=
  ["length", "anchor", "at", "big", "blink", "bold", "charAt", "charCodeAt", "codePointAt",
   "concat", "endsWith", "fixed", "fontcolor", "fontsize", "includes", "indexOf", "isWellFormed",
   "italics", "lastIndexOf", "link", "localeCompare", "match", "matchAll", "normalize", "padEnd",
   "padStart", "repeat", "replace", "replaceAll", "search", "slice", "small", "split",
   "startsWith", "strike", "sub", "substr", "substring", "sup", "toLocaleLowerCase",
   "toLocaleUpperCase", "toLowerCase", "toUpperCase", "toWellFormed", "trim", "trimEnd",
   "trimLeft", "trimRight", "trimStart"]

def numberNames : List String := ["toExponential", "toFixed", "toPrecision"]

/-- What a path may find in a plain value. -/
def Found (v : Value) : Prop := Plain v ∨ v = .missing

/-- A key that is neither an index nor a name that values have members under by themselves. -/
structure OrdinaryKey (k : List Char) : Prop where
  noIndex : allDigits k = false
  noName : String.ofList k ∉ objectNames ++ arrayNames ++ textNames ++ numberNames

theorem same_str (s t : String) : (Value.str s).same (.str t) = decide (s = t) := by
  rw [Value.same]

theorem member?_agrees (ms : List (String × Value)) (k : List Char) :
    member? (Units.ofChars k) (ofMembers ms) =
      (Entries.get? (.str (String.ofList k)) (textKeyed ms)).map ofValue := by
  induction ms with
  | nil => rfl
  | cons m ms ih =>
    have hk : Units.ofString m.1 = Units.ofChars k ↔ m.1 = String.ofList k := by
      rw [← ofString_inj, Units.ofString, Units.ofString, String.toList_ofList]
    simp only [ofMembers, textKeyed, List.map_cons] at ih ⊢
    rw [member?, Entries.get?, same_str]
    by_cases h : m.1 = String.ofList k
    · rw [if_pos (hk.mpr h), if_pos (decide_eq_true h), Option.map_some]
    · rw [if_neg (mt hk.mp h), if_neg (by simpa using h), ih]

theorem get?_mem {key : Value} {v : Value} {ms : List (String × Value)}
    (h : Entries.get? key (textKeyed ms) = some v) : ∃ m ∈ ms, m.2 = v := by
  induction ms with
  | nil => simp [textKeyed, Entries.get?] at h
  | cons m ms ih =>
    rw [textKeyed, List.map_cons, Entries.get?] at h
    split at h
    · exact ⟨m, List.mem_cons_self, by simpa using h⟩
    · obtain ⟨m', hm, he⟩ := ih h
      exact ⟨m', List.mem_cons_of_mem _ hm, he⟩

theorem digitLike_of_unitDigit {c : Char}
    (h : ∀ u ∈ Units.ofChar c, (unitDigit? u).isSome = true) : isDigitLike c = true := by
  by_cases hc : c.toNat < 0x10000
  · obtain ⟨he, hn, -⟩ := basic_char c hc
    have hd := h (UInt16.ofNat c.toNat) (by rw [he]; exact List.mem_singleton_self _)
    simp only [unitDigit?, hn, Option.isSome_ite] at hd
    have hv : digitValue? c = some (c.toNat - 48) := by
      simp only [digitValue?, decimalZeros, List.find?_cons]
      simp [hd.1, show c.toNat < 58 by omega]
    simp [isDigitLike, hv]
  · obtain ⟨u, v, he, hu, -⟩ := paired_char c hc
    have hd := h u (by rw [he]; exact List.mem_cons_self)
    simp only [unitDigit?, Option.isSome_ite] at hd
    omega

theorem isSome_of_mapM {α β : Type} {f : α → Option β} {xs : List α} {ys : List β}
    (h : xs.mapM f = some ys) : ∀ x ∈ xs, (f x).isSome = true := by
  induction xs generalizing ys with
  | nil => simp
  | cons x xs ih =>
    rw [List.mapM_cons] at h
    cases hx : f x with
    | none => simp [hx] at h
    | some y =>
      cases hm : xs.mapM f with
      | none => simp [hx, hm] at h
      | some zs => simpa [hx] using ih hm

theorem arrayIndex?_none {k : List Char} (h : allDigits k = false) :
    arrayIndex? (Units.ofChars k) = none := by
  unfold arrayIndex?
  cases hm : (Units.ofChars k).mapM unitDigit? with
  | none => rfl
  | some ds =>
    cases k with
    | nil =>
      cases hm
      rfl
    | cons c cs =>
      have hall : ∀ d ∈ c :: cs, isDigitLike d = true := by
        intro d hd
        apply digitLike_of_unitDigit
        intro u hu
        exact isSome_of_mapM hm u (List.mem_flatMap.mpr ⟨d, hd, hu⟩)
      rw [allDigits, List.all_eq_true.mpr hall] at h
      simp at h

/-- Arrays and texts have nothing under an ordinary key. -/
theorem indexed_none {k : List Char} (hk : OrdinaryKey k) (n : Nat) (f : Nat → Option Guest) :
    Guest.indexed n f (Units.ofChars k) = none := by
  have hl : Units.ofChars k ≠ Units.ofString "length" := by
    intro h
    have he : k = "length".toList := ofChars_inj.mp h
    apply hk.noName
    rw [he, String.ofList_toList]
    decide
  rw [Guest.indexed, if_neg hl, arrayIndex?_none hk.noIndex, Option.bind_none]

theorem member_missing {v : Value} {k : List Char} (hm : Aggregate.member v k = .ok .missing)
    (hg : (ofValue v).find? (Units.ofChars k) = none) :
    ∃ w, Aggregate.member v k = .ok w ∧ Found w ∧
      ((ofValue v).find? (Units.ofChars k)).getD .undefined = ofValue w :=
  ⟨.missing, hm, .inr rfl, by simp only [hg, Option.getD_none, ofValue]⟩

/-- One ordinary key finds the same in a plain value on both sides. -/
theorem member_agrees {v : Value} (hv : Plain v) {k : List Char} (hk : OrdinaryKey k) :
    ∃ w, Aggregate.member v k = .ok w ∧ Found w ∧
      ((ofValue v).find? (Units.ofChars k)).getD .undefined = ofValue w := by
  cases hv with
  | none => exact member_missing rfl (by simp only [ofValue, Guest.find?])
  | bool b => exact member_missing rfl (by simp only [ofValue, Guest.find?])
  | int n hn => exact member_missing rfl (by simp only [ofValue, Guest.find?])
  | str s =>
    apply member_missing rfl
    simp only [ofValue, Guest.ofString, Guest.find?, indexed_none hk]
  | list vs hvs =>
    apply member_missing
    · simp [Aggregate.member, element, hk.noIndex]
    · simp only [ofValue, Guest.find?, indexed_none hk]
  | dict ms hd ho hms =>
    refine ⟨_, rfl, ?_, ?_⟩
    · cases hg : Entries.get? (.str (String.ofList k)) (textKeyed ms) with
      | none => exact .inr rfl
      | some w =>
        obtain ⟨m, hm, rfl⟩ := get?_mem hg
        exact .inl (hms m hm)
    · rw [ofValue_plain hd ho, Guest.find?, Guest.inherited?, Option.or_none, member?_agrees]
      cases Entries.get? (.str (String.ofList k)) (textKeyed ms) with
      | none => simp only [Option.map_none, Option.getD_none, ofValue]
      | some w => rfl

theorem lookup_cons {g : Guest} (hu : g ≠ .undefined) (hn : g ≠ .null) (key : Units)
    (path : List Units) :
    Builtin.lookup g (key :: path) =
      Builtin.lookup ((g.find? key).getD .undefined) path := by
  cases g <;> first | contradiction | rfl

/-- An ordinary path finds the same in a plain value on both sides, and always finds something. -/
theorem lookup_agrees {v : Value} (hv : Found v) {path : List (List Char)}
    (hp : ∀ k ∈ path, OrdinaryKey k) :
    ∃ w, Aggregate.lookup v path = .ok w ∧ Found w ∧
      Builtin.lookup (ofValue v) (path.map Units.ofChars) = ofValue w := by
  induction path generalizing v with
  | nil => exact ⟨v, rfl, hv, rfl⟩
  | cons k path ih =>
    rcases hv with hv | rfl
    · rcases plain_cases hv with rfl | ⟨ha, hu, hn⟩
      · exact ⟨.missing, rfl, .inr rfl, by simp only [ofValue, List.map_cons, Builtin.lookup]⟩
      · obtain ⟨w, hw, hf, hg⟩ := member_agrees hv (hp k List.mem_cons_self)
        obtain ⟨x, hx, hxf, hxg⟩ := ih hf fun k hk => hp k (List.mem_cons_of_mem _ hk)
        refine ⟨x, ?_, hxf, ?_⟩
        · rw [Aggregate.lookup, ha, if_neg (by simp), hw]
          exact hx
        · rw [List.map_cons, lookup_cons hu hn, hg, hxg]
    · exact ⟨.missing, rfl, .inr rfl, by simp only [ofValue, List.map_cons, Builtin.lookup]⟩

theorem found_hasLabel {v : Value} (hv : Found v) : hasLabel v = true := by
  rcases hv with hv | rfl
  · exact plain_hasLabel hv
  · rfl

theorem found_toText {v : Value} (hv : Found v) :
    (ofValue v).toText = .ok (Units.ofChars (label v)) := by
  rcases hv with hv | rfl
  · exact plain_toText hv
  · simp only [ofValue]
    rfl

/-- Groups while they are made, as a snippet sees them. -/
def ofNamed (gs : Groups) : List (Units × List Guest) :=
  gs.map fun g => (Units.ofChars g.1, g.2.map ofValue)

def ofGroups (gs : Groups) : Guest := Builtin.groupsObject (ofNamed gs)

/-- What holds of groups of plain items at every step: each has its own name, and no other items. -/
structure Grouped (gs : Groups) : Prop where
  distinct : gs.names.Nodup
  plain : ∀ g ∈ gs, ∀ v ∈ g.2, Plain v

theorem grouped_nil : Grouped [] := ⟨List.nodup_nil, by simp⟩

/-- Groups of plain items can be told from what a snippet sees of them. -/
theorem toValue_ofGroups {gs : Groups} (h : Grouped gs) : toValue (ofGroups gs) = gs.toValue := by
  rw [ofGroups, ofNamed, Builtin.groupsObject, Guest.bare, List.map_map, toValue,
    toEntries_eq_map, List.map_map, Groups.toValue]
  congr 1
  refine List.map_congr_left fun g hg => ?_
  have hp : (g.2.map ofValue).map toValue = g.2 := by
    rw [List.map_map]
    exact (List.map_congr_left fun v hv => toValue_ofValue (h.plain g hg v hv)).trans
      (List.map_id g.2)
  simp only [Function.comp_apply, toChars_ofChars, toValue, toValues_eq_map, hp]

theorem mem_add {name : List Char} {item : Value} {gs : Groups} {g : List Char × List Value}
    (hg : g ∈ gs.add name item) {v : Value} (hv : v ∈ g.2) :
    v = item ∨ ∃ g' ∈ gs, v ∈ g'.2 := by
  have hm := (Partitions.flatMap_add name item gs).mem_iff.mp (List.mem_flatMap.mpr ⟨g, hg, hv⟩)
  rcases List.mem_append.mp hm with hm | hm
  · exact .inr (List.mem_flatMap.mp hm)
  · exact .inl (List.mem_singleton.mp hm)

theorem grouped_add {gs : Groups} (h : Grouped gs) (name : List Char) {item : Value}
    (hi : Plain item) : Grouped (gs.add name item) where
  distinct := Partitions.nodup_add h.distinct name item
  plain := by
    intro g hg v hv
    rcases mem_add hg hv with rfl | ⟨g', hg', hv⟩
    · exact hi
    · exact h.plain g' hg' v hv

/-- An item is added to the same group on both sides. -/
theorem addTo_agrees (name : List Char) (item : Value) (gs : Groups) :
    Builtin.addTo (Units.ofChars name) (ofValue item) (ofNamed gs) =
      ofNamed (gs.add name item) := by
  induction gs with
  | nil => rfl
  | cons g gs ih =>
    obtain ⟨n, items⟩ := g
    simp only [ofNamed] at ih
    by_cases hn : n = name
    · simp [ofNamed, Builtin.addTo, Groups.add, hn]
    · simp [ofNamed, Builtin.addTo, Groups.add, hn, ofChars_inj, ih]

theorem groupName_agrees {item : Value} (hi : Plain item) {path : List (List Char)}
    (hp : ∀ k ∈ path, OrdinaryKey k) :
    ∃ name, groupName path item = .ok name ∧
      (Builtin.lookup (ofValue item) (path.map Units.ofChars)).toText =
        .ok (Units.ofChars name) := by
  obtain ⟨w, hw, hf, hg⟩ := lookup_agrees (.inl hi) hp
  refine ⟨label w, ?_, ?_⟩
  · simp only [groupName, hw, found_hasLabel hf, ↓reduceIte]
  · rw [hg, found_toText hf]

/-- A run over items makes the same groups on both sides. -/
theorem groupInto_agrees {items : List Value} (hi : ∀ v ∈ items, Plain v)
    {path : List (List Char)} (hp : ∀ k ∈ path, OrdinaryKey k) {gs : Groups} (hs : Grouped gs) :
    ∃ gs', Aggregate.groupInto path gs items = .ok gs' ∧ Grouped gs' ∧
      Builtin.groupInto (path.map Units.ofChars) (ofNamed gs) (items.map ofValue) =
        .ok (ofNamed gs') := by
  -- The groups made so far are the same on both sides, and stay well-formed.
  induction items generalizing gs with
  | nil => exact ⟨gs, rfl, hs, rfl⟩
  | cons item items ih =>
    have hitem := hi item List.mem_cons_self
    obtain ⟨name, hname, htext⟩ := groupName_agrees hitem hp
    obtain ⟨gs', hgs, hs', hg⟩ := ih (fun v hv => hi v (List.mem_cons_of_mem _ hv))
      (grouped_add hs name hitem)
    refine ⟨gs', ?_, hs', ?_⟩
    · rw [Aggregate.groupInto, hname]
      exact hgs
    · rw [List.map_cons, Builtin.groupInto, htext]
      dsimp only
      rw [addTo_agrees, hg]

/-- A snippet groups plain items as they are grouped outside of it, by any path of ordinary keys:
both give groups, whose names are distinct, and what the snippet gives stands for those groups. -/
theorem groupBy_agrees {items : List Value} (hi : ∀ v ∈ items, Plain v) {key : String}
    (hk : ∀ k ∈ splitAt '.' key.toList, OrdinaryKey k) :
    ∃ gs, Aggregate.groupBy (.list items) (.str key) = .ok gs ∧ gs.names.Nodup ∧
      Builtin.apply .groupBy [ofValue (.list items), ofValue (.str key)] = .ok (ofGroups gs) ∧
      toValue (ofGroups gs) = gs.toValue := by
  obtain ⟨gs, hgs, hs, hg⟩ := groupInto_agrees hi hk grouped_nil
  refine ⟨gs, hgs, hs.distinct, ?_, toValue_ofGroups hs⟩
  have hl : ofValue (.list items) = .array (items.map ofValue) := by
    rw [ofValue, ofValues_eq_map]
  have ht : (ofValue (.str key)).toText = .ok (Units.ofChars key.toList) := by
    rw [ofValue, Guest.ofString, Units.ofString]
    rfl
  rw [hl, Builtin.apply, Builtin.argument, Builtin.argument]
  simp only [List.getElem?_cons_zero, List.getElem?_cons_succ, Option.getD_some,
    Builtin.groupBy, ht, pathOf_ofChars]
  change Except.map Builtin.groupsObject (Builtin.groupInto _ (ofNamed []) _) = _
  rw [hg]
  rfl

def tagged : List Value := [.dict [(.str "tags", .list [.int 7, .none])], .none]

theorem tagged_plain : ∀ v ∈ tagged, Plain v := by
  have hl : ∀ v ∈ [.int 7, .none], Plain v := by
    simp only [List.mem_cons, List.not_mem_nil, or_false, forall_eq_or_imp, forall_eq]
    exact ⟨.int 7 (by decide), .none⟩
  have hd : Plain (.dict [(.str "tags", .list [.int 7, .none])]) :=
    .dict [("tags", .list [.int 7, .none])] (by simp) (by decide) (by simpa using .list _ hl)
  simp only [tagged, List.mem_cons, List.not_mem_nil, or_false, forall_eq_or_imp, forall_eq]
  exact ⟨hd, .none⟩

/-- In a snippet, they are in the group of their texts and in that of what is not there. -/
theorem tags_grouped :
    (∀ v ∈ tagged, Plain v) ∧ (∀ k ∈ splitAt '.' "tags".toList, OrdinaryKey k) ∧
      Builtin.apply .groupBy [ofValue (.list tagged), ofValue (.str "tags")] =
        .ok (ofGroups [("7,".toList, [.dict [(.str "tags", .list [.int 7, .none])]]),
          ("undefined".toList, [.none])]) := by
  have hk : ∀ k ∈ splitAt '.' "tags".toList, OrdinaryKey k := by
    intro k hm
    rw [show splitAt '.' "tags".toList = ["tags".toList] by decide, List.mem_singleton] at hm
    subst k
    exact ⟨by decide, by decide⟩
  obtain ⟨gs, hgs, -, hg, -⟩ := groupBy_agrees tagged_plain hk
  have hr : Aggregate.groupBy (.list tagged) (.str "tags") =
      .ok [("7,".toList, [.dict [(.str "tags", .list [.int 7, .none])]]),
        ("undefined".toList, [.none])] := rfl
  rw [hr] at hgs
  cases hgs
  exact ⟨tagged_plain, hk, hg⟩

end Reckoner.Proofs.Grouping
