import Reckoner.Aggregate.Group
import Reckoner.Proofs.IntegerText
import Reckoner.Proofs.UnitTexts
import Reckoner.Snippet.Eval

namespace Reckoner.Proofs.Crossing
open Aggregate Snippet Text UnitTexts Integers IntegerText

def isNegative : Binary64 → Bool
  | .nan => false
  | .inf s => s
  | .fin s _ => s

/-- A number held as its literal is: a minus in front is an operation on what follows it. -/
def literalNumber (x : Binary64) : Held :=
  if isNegative x then (Held.settle x.neg).neg else .settle x

theorem negated_twice (x : Binary64) : x.neg.neg = x := by
  cases x <;> simp [Binary64.neg]

theorem literalNumber_value (x : Binary64) : (literalNumber x).value = x := by
  unfold literalNumber
  split
  · rw [Held.neg_value, Held.settle, negated_twice]
  · rw [Held.settle]

mutual

def ofValue : Value → Guest
  | .none => .null
  | .bool b => .bool b
  | .int n => .number (literalNumber (.ofInt n))
  | .float x => .number (literalNumber x)
  | .str s => .ofString s
  | .list xs => .array (ofValues xs)
  | .tuple xs => .array (ofValues xs)
  | .dict es => objectOf (ofEntries es)
  | _ => .undefined

def ofValues : List Value → List Guest
  | [] => []
  | v :: vs => ofValue v :: ofValues vs

/-- Members, each under the name that its key has in JSON text. -/
def ofEntries : List (Value × Value) → List (Units × Guest)
  | [] => []
  | (k, v) :: es =>
    match Json.keyName k with
    | .ok name => (Units.ofChars name, ofValue v) :: ofEntries es
    | .error _ => ofEntries es

end

theorem ofValues_eq_map (vs : List Value) : ofValues vs = vs.map ofValue := by
  induction vs with
  | nil => rfl
  | cons v vs ih => rw [ofValues, ih, List.map_cons]

theorem ofValue_list (vs : List Value) : ofValue (.list vs) = .array (vs.map ofValue) := by
  rw [ofValue, ofValues_eq_map]

mutual

/-- The value that a snippet's value stands for, whole numbers as integers. -/
def toValue : Guest → Value
  | .null => .none
  | .bool b => .bool b
  | .number x => if x.value.isWhole then .int (x.value.trunc?.getD 0) else .float x.value
  | .text u => .str (String.ofList (Units.toChars u))
  | .array xs => .list (toValues xs)
  | .object _ ms => .dict (toEntries ms)
  | _ => .missing

def toValues : List Guest → List Value
  | [] => []
  | g :: gs => toValue g :: toValues gs

def toEntries : List (Units × Guest) → Entries
  | [] => []
  | (k, g) :: ms => (.str (String.ofList (Units.toChars k)), toValue g) :: toEntries ms

end

theorem toValues_eq_map (gs : List Guest) : toValues gs = gs.map toValue := by
  induction gs with
  | nil => rfl
  | cons g gs ih => rw [toValues, ih, List.map_cons]

theorem toEntries_eq_map (ms : List (Units × Guest)) :
    toEntries ms =
      ms.map fun m => (.str (String.ofList (Units.toChars m.1)), toValue m.2) := by
  induction ms with
  | nil => rfl
  | cons m ms ih => rw [toEntries, ih, List.map_cons]

/-- The names that every object has members under unless it hides them. -/
def objectNames : List String :=
  ["constructor", "__defineGetter__", "__defineSetter__", "hasOwnProperty", "__lookupGetter__",
   "__lookupSetter__", "isPrototypeOf", "propertyIsEnumerable", "toString", "valueOf",
   "__proto__", "toLocaleString"]

def textKeyed (ms : List (String × Value)) : Entries := ms.map fun m => (.str m.1, m.2)

/-- What JSON text without fractions writes: integers are exact as floating point numbers, and no
member of an object hides one that every object has. -/
inductive Plain : Value → Prop where
  | none : Plain .none
  | bool (b : Bool) : Plain (.bool b)
  | int (n : Int) (exact : n.natAbs < 2 ^ 53) : Plain (.int n)
  | str (s : String) : Plain (.str s)
  | list (vs : List Value) (elements : ∀ v ∈ vs, Plain v) : Plain (.list vs)
  | dict (ms : List (String × Value)) (distinct : (ms.map Prod.fst).Nodup)
      (own : ∀ m ∈ ms, m.1 ∉ objectNames) (values : ∀ m ∈ ms, Plain m.2) :
      Plain (.dict (textKeyed ms))

theorem setMember_of_notMem {key : Units} {v : Guest} {ms : List (Units × Guest)}
    (h : key ∉ ms.map Prod.fst) : setMember key v ms = ms ++ [(key, v)] := by
  induction ms with
  | nil => rfl
  | cons m ms ih =>
    obtain ⟨k, w⟩ := m
    simp only [List.map_cons, List.mem_cons, not_or] at h
    rw [setMember, if_neg (Ne.symm h.1), ih h.2, List.cons_append]

theorem written_distinct {done ms : List (Units × Guest)}
    (h : ((done ++ ms).map Prod.fst).Nodup) :
    ms.foldl (fun acc m => setMember m.1 m.2 acc) done = done ++ ms := by
  induction ms generalizing done with
  | nil => simp
  | cons m ms ih =>
    have hm : m.1 ∉ done.map Prod.fst := by
      intro hm
      rw [List.map_append, List.map_cons, List.nodup_append] at h
      exact h.2.2 _ hm _ List.mem_cons_self rfl
    rw [List.foldl_cons, setMember_of_notMem hm, ih (by simpa using h)]
    simp

/-- Members under distinct names, none of which sets the parent, are those of a usual object. -/
theorem objectOf_distinct {ms : List (Units × Guest)} (hd : (ms.map Prod.fst).Nodup)
    (hp : parentKey ∉ ms.map Prod.fst) : objectOf ms = .object none ms := by
  have hn : ∀ m ∈ ms, m.1 ≠ parentKey := fun m hm he => hp (List.mem_map.mpr ⟨m, hm, he⟩)
  have hfind : ms.find? (fun m => m.1 = parentKey && m.2.isParent) = none :=
    List.find?_eq_none.mpr fun m hm => by simp [hn m hm]
  have hfilter : ms.filter (fun m => m.1 ≠ parentKey) = ms :=
    List.filter_eq_self.mpr fun m hm => by simp [hn m hm]
  unfold objectOf
  dsimp only
  rw [hfind, hfilter, written_distinct (by simpa using hd), List.nil_append, Option.map_none]

def ofMembers (ms : List (String × Value)) : List (Units × Guest) :=
  ms.map fun m => (Units.ofString m.1, ofValue m.2)

theorem ofMembers_names (ms : List (String × Value)) :
    (ofMembers ms).map Prod.fst = (ms.map Prod.fst).map Units.ofString := by
  simp [ofMembers]

theorem ofEntries_textKeyed (ms : List (String × Value)) :
    ofEntries (textKeyed ms) = ofMembers ms := by
  induction ms with
  | nil => rfl
  | cons m ms ih =>
    simp only [textKeyed, ofMembers, List.map_cons] at ih ⊢
    rw [ofEntries, Json.keyName, ih, Units.ofString]

/-- An object that sets no parent has its members, in their order, and the usual parent. -/
theorem ofValue_dict {ms : List (String × Value)} (hd : (ms.map Prod.fst).Nodup)
    (hp : ∀ m ∈ ms, m.1 ≠ "__proto__") :
    ofValue (.dict (textKeyed ms)) = .object none (ofMembers ms) := by
  rw [ofValue, ofEntries_textKeyed, objectOf_distinct]
  · rw [ofMembers_names]
    exact hd.map fun s t h => ofString_inj.mp h
  · rw [ofMembers_names]
    intro hm
    obtain ⟨k, hk, he⟩ := List.mem_map.mp hm
    obtain ⟨m, hm, rfl⟩ := List.mem_map.mp hk
    exact hp m hm (ofString_inj.mp he)

theorem own_ne {ms : List (String × Value)} (ho : ∀ m ∈ ms, m.1 ∉ objectNames) {name : String}
    (hn : name ∈ objectNames) : ∀ m ∈ ms, m.1 ≠ name :=
  fun m hm he => ho m hm (he ▸ hn)

/-- A plain object has its members, in their order, and the usual parent. -/
theorem ofValue_plain {ms : List (String × Value)} (hd : (ms.map Prod.fst).Nodup)
    (ho : ∀ m ∈ ms, m.1 ∉ objectNames) :
    ofValue (.dict (textKeyed ms)) = .object none (ofMembers ms) :=
  ofValue_dict hd (own_ne ho (by decide))

theorem toChars_ofString (s : String) : String.ofList (Units.toChars (Units.ofString s)) = s := by
  rw [Units.ofString, toChars_ofChars, String.ofList_toList]

/-- A plain value can be told from what a snippet sees of it. -/
theorem toValue_ofValue {v : Value} (hv : Plain v) : toValue (ofValue v) = v := by
  induction hv with
  | none => simp only [ofValue, toValue]
  | bool b => simp only [ofValue, toValue]
  | int n hn =>
    obtain ⟨hw, ht⟩ := trunc?_ofInt hn.le
    simp only [ofValue, toValue, literalNumber_value, hw, ht, ↓reduceIte, Option.getD_some]
  | str s => simp only [ofValue, Guest.ofString, toValue, toChars_ofString]
  | list vs hvs ih =>
    have hvs : (vs.map ofValue).map toValue = vs := by
      rw [List.map_map]
      exact (List.map_congr_left ih).trans (List.map_id vs)
    simp only [ofValue, toValue, ofValues_eq_map, toValues_eq_map, hvs]
  | dict ms hd ho hms ih =>
    rw [ofValue_plain hd ho, toValue, toEntries_eq_map, ofMembers, List.map_map, textKeyed]
    congr 1
    refine List.map_congr_left fun m hm => ?_
    simp only [Function.comp_apply, toChars_ofString, ih m hm]

theorem plain_cases {v : Value} (hv : Plain v) :
    v = .none ∨ (isAbsent v = false ∧ ofValue v ≠ .undefined ∧ ofValue v ≠ .null) := by
  cases hv with
  | none => exact .inl rfl
  | bool b => exact .inr ⟨rfl, by simp [ofValue], by simp [ofValue]⟩
  | int n hn =>
    refine .inr ⟨rfl, ?_, ?_⟩ <;> simp only [ofValue, ne_eq, reduceCtorEq, not_false_eq_true]
  | str s => exact .inr ⟨rfl, by simp [ofValue, Guest.ofString], by simp [ofValue, Guest.ofString]⟩
  | list vs hvs => exact .inr ⟨rfl, by simp [ofValue], by simp [ofValue]⟩
  | dict ms hd ho hms =>
    rw [ofValue_plain hd ho]
    exact .inr ⟨rfl, by simp, by simp⟩

theorem object_toText {ms : List (Units × Guest)}
    (h : member? (Units.ofString "toString") ms = none) :
    (Guest.object none ms).toText = .ok Guest.objectText := by
  have hf : (Guest.object none ms).find? (Units.ofString "toString") = none := by
    rw [Guest.find?, h, Guest.inherited?, Option.or_none]
  have hc : (Guest.object none ms).converted? "toString" = some (.text Guest.objectText) := by
    rw [Guest.converted?, hf]
    rfl
  rw [Guest.toText, Guest.objectPrimitive, hc]
  rfl

theorem member?_ofMembers {name : String} {ms : List (String × Value)}
    (h : ∀ m ∈ ms, m.1 ≠ name) : member? (Units.ofString name) (ofMembers ms) = none := by
  induction ms with
  | nil => rfl
  | cons m ms ih =>
    obtain ⟨hm, hms⟩ := List.forall_mem_cons.mp h
    have hs := ih hms
    simp only [ofMembers, List.map_cons] at hs ⊢
    rw [member?, if_neg fun he => hm (ofString_inj.mp he), hs]

/-- What the text of a list holds of an element with this text: of nothing, it holds nothing. -/
def elementText (v : Value) (text : List Char) : List Char :=
  match v with
  | .none => []
  | _ => text

theorem elementLabels_cons (v : Value) (vs : List Value) :
    elementLabels (v :: vs) = elementText v (label v) :: elementLabels vs := by
  cases v <;> rfl

/-- A snippet leaves the text of nothing empty inside an array, too, and only that one. -/
theorem elementTexts_cons {v : Value}
    (hv : v = .none ∨ ofValue v ≠ .undefined ∧ ofValue v ≠ .null) {text : List Char}
    (ht : (ofValue v).toText = .ok (Units.ofChars text)) {vs : List Value}
    {texts : List (List Char)}
    (hs : Guest.elementTexts (ofValues vs) = .ok (texts.map Units.ofChars)) :
    Guest.elementTexts (ofValues (v :: vs)) =
      .ok ((elementText v text :: texts).map Units.ofChars) := by
  rcases hv with rfl | ⟨hu, hn⟩
  · simp only [ofValues, ofValue, Guest.elementTexts, hs]
    rfl
  · have he : elementText v text = text := by
      cases v
      case none => exact absurd (by rw [ofValue]) hn
      all_goals rfl
    rw [ofValues, Guest.elementTexts, ht, hs, he]
    · rfl
    · exact hu
    · exact hn

theorem elementTexts_agree {vs : List Value} (hp : ∀ v ∈ vs, Plain v)
    (ht : ∀ v ∈ vs, (ofValue v).toText = .ok (Units.ofChars (label v))) :
    Guest.elementTexts (ofValues vs) = .ok ((elementLabels vs).map Units.ofChars) := by
  induction vs with
  | nil => rfl
  | cons v vs ih =>
    have hvs := ih (fun v hv => hp v (List.mem_cons_of_mem _ hv))
      fun v hv => ht v (List.mem_cons_of_mem _ hv)
    have hc := (plain_cases (hp v List.mem_cons_self)).imp_right And.right
    rw [elementTexts_cons hc (ht v List.mem_cons_self) hvs, elementLabels_cons]

/-- A plain value has the same text on both sides. -/
theorem plain_toText {v : Value} (hv : Plain v) :
    (ofValue v).toText = .ok (Units.ofChars (label v)) := by
  induction hv with
  | none => simp only [ofValue]; rfl
  | bool b => cases b <;> rfl
  | int n hn =>
    rw [ofValue, Guest.toText, Guest.primitiveText, Guest.numberText, literalNumber_value,
      text_ofInt hn, label_int]
    all_goals simp
  | str s =>
    rw [label_str, ← Units.ofString, ofValue, Guest.ofString]
    rfl
  | list vs hvs ih =>
    rw [ofValue, Guest.toText, elementTexts_agree hvs ih, Except.map, ofChars_intercalate,
      label_list]
  | dict ms hd ho hms ih =>
    rw [ofValue_plain hd ho, object_toText (member?_ofMembers (own_ne ho (by decide))), label_dict]
    rfl

/-- The label of a plain value can be written. -/
theorem plain_hasLabel {v : Value} (hv : Plain v) : hasLabel v = true := by
  induction hv with
  | none => rfl
  | bool b => rfl
  | int n hn =>
    rw [hasLabel, decide_eq_true_eq]
    rcases Nat.eq_zero_or_pos n.natAbs with h0 | hpos
    · rw [h0]
      decide
    · rw [Digits.decimalDigits_eq hpos, List.length_reverse]
      exact (width_le hpos hn).trans (by decide)
  | str s => rfl
  | list vs hvs ih =>
    rw [hasLabel, haveLabels_iff]
    exact ih
  | dict ms hd ho hms ih => rfl

end Reckoner.Proofs.Crossing
