import Reckoner.Proofs.Results
import Reckoner.Proofs.Returns
import Reckoner.Proofs.TextNumbers

namespace Reckoner.Proofs.Extremes
open Aggregate Snippet Text Crossing Returns TextNumbers

/-- A value that both sides read as the same number. -/
def Alike (v : Value) : Prop :=
  ∃ x, (ofValue v).toNumber = .ok x ∧ SameNumber (toNumber v) x.value

/-- Both sides give the same number, or a NaN each. -/
def Agree (host : Except Failure Number) (guest : Except Thrown Guest) : Prop :=
  ∃ n x, host = .ok n ∧ guest = .ok (.number x) ∧ SameNumber n x.value

section
variable {beats : Number → Number → Bool} {beats' : Binary64 → Binary64 → Bool}

/-- Two comparisons that agree on numbers that are the same. -/
def SameOrder (beats : Number → Number → Bool) (beats' : Binary64 → Binary64 → Bool) : Prop :=
  ∀ {m n x y}, SameNumber m x → SameNumber n y → beats m n = beats' x y

theorem less_same : SameOrder Number.lt Binary64.lt := by
  intro m n x y hm hn
  rw [Binary64.lt, hm, hn]
  rfl

/-- What the host's choice among numbers does from a best one on. -/
def bestOf (beats : Number → Number → Bool) (n : Number) (ns : List Number) : Number :=
  if ns.any Number.isNaN then .float .nan
  else ns.foldl (fun best y => if beats y best then y else best) n

theorem bestOf_nan {m : Number} (h : m.isNaN = true) (n : Number) (ns : List Number) :
    bestOf beats n (m :: ns) = .float .nan := by
  rw [bestOf, List.any_cons, h, Bool.true_or, if_pos rfl]

theorem bestOf_cons {m : Number} (h : m.isNaN = false) (n : Number) (ns : List Number) :
    bestOf beats n (m :: ns) = bestOf beats (if beats m n then m else n) ns := by
  rw [bestOf, List.any_cons, h, Bool.false_or, List.foldl_cons, bestOf]

/-- From numbers that are the same on, elements that are read alike lead to such numbers. -/
theorem best_agree (ho : SameOrder beats beats') {vs : List Value} (hv : ∀ v ∈ vs, Alike v)
    {n : Number} {x : Held} (hx : SameNumber n x.value) :
    ∃ y, Builtin.best beats' x (vs.map ofValue) = .ok y ∧
      SameNumber (bestOf beats n (vs.map toNumber)) y.value := by
  induction vs generalizing n x with
  | nil => exact ⟨x, rfl, hx⟩
  | cons v vs ih =>
    obtain ⟨y, hy, hs⟩ := hv v List.mem_cons_self
    have hvs := fun w hw => hv w (List.mem_cons_of_mem _ hw)
    have hn := hs.isNaN
    rw [List.map_cons, Builtin.best, hy]
    dsimp only
    cases hnan : y.value.isNaN with
    | true =>
      refine ⟨.float .nan, rfl, ?_⟩
      rw [List.map_cons, bestOf_nan (hn.symm.trans hnan)]
      rfl
    | false =>
      have hb : SameNumber (if beats (toNumber v) n then toNumber v else n)
          (if beats' y.value x.value then y else x).value := by
        rw [ho hs hx]
        split <;> assumption
      obtain ⟨z, hz, hzs⟩ := ih hvs hb
      refine ⟨z, hz, ?_⟩
      rw [List.map_cons, bestOf_cons (hn.symm.trans hnan)]
      exact hzs

theorem extreme_cons (n : Number) (ns : List Number) :
    Aggregate.extreme beats (n :: ns) = bestOf beats n (n :: ns) := by
  rw [Aggregate.extreme, bestOf, List.foldl_cons, ite_self]

theorem extreme_agree (ho : SameOrder beats beats') {vs : List Value} (hv : ∀ v ∈ vs, Alike v) :
    Agree (.ok (Aggregate.extreme beats (vs.map toNumber)))
      (Builtin.extreme beats' (.array (vs.map ofValue))) := by
  cases vs with
  | nil => exact ⟨_, .float .nan, rfl, rfl, rfl⟩
  | cons v vs =>
    obtain ⟨x, hx, hs⟩ := hv v List.mem_cons_self
    obtain ⟨y, hy, hys⟩ := best_agree ho hv hs
    refine ⟨_, y, rfl, ?_, ?_⟩
    · rw [List.map_cons] at hy
      rw [List.map_cons, Builtin.extreme, hx]
      dsimp only
      rw [hy]
      rfl
    · rw [List.map_cons, extreme_cons]
      exact hys

/-- One number is its own extreme, and a NaN a NaN. -/
theorem host_single (n : Number) : (Aggregate.extreme beats [n]).place? = n.place? := by
  cases hn : n.isNaN with
  | true =>
    rw [← number_place?_isNone, Option.isNone_iff_eq_none] at hn
    rw [extreme_cons, bestOf_nan (by rw [← number_place?_isNone, hn]; rfl), hn]
    rfl
  | false => rw [extreme_cons, bestOf_cons hn, ite_self]; rfl

theorem guest_single {g x : Guest} (h : Builtin.extreme beats' (.array [g]) = .ok x) :
    ∃ y z : Held, g.toNumber = .ok y ∧ x = .number z ∧ z.value.place? = y.value.place? := by
  rw [Builtin.extreme] at h
  cases hg : g.toNumber with
  | error e =>
    rw [hg] at h
    cases h
  | ok y =>
    rw [hg] at h
    dsimp only at h
    rw [Builtin.best, hg] at h
    dsimp only at h
    cases hn : y.value.isNaN with
    | true =>
      rw [hn] at h
      cases h
      refine ⟨y, _, rfl, rfl, ?_⟩
      rw [← place?_isNone, Option.isNone_iff_eq_none] at hn
      exact hn.symm
    | false =>
      rw [hn, if_neg Bool.false_ne_true, ite_self, Builtin.best] at h
      cases h
      exact ⟨y, y, rfl, rfl, rfl⟩

/-- An array of one element shows how that one is read. -/
theorem alike_of_single {v : Value}
    (h : Agree (.ok (Aggregate.extreme beats [toNumber v]))
      (Builtin.extreme beats' (.array [ofValue v]))) : Alike v := by
  obtain ⟨n, x, hn, hx, hs⟩ := h
  obtain ⟨y, z, hy, he, hz⟩ := guest_single hx
  cases hn
  cases he
  refine ⟨y, hy, ?_⟩
  rw [SameNumber, host_single, hz] at hs
  exact hs

end

theorem none_alike : Alike .none := by
  have hz : (Binary64.zero false).place? = some (.ofInt 0) := by decide +kernel
  exact ⟨.settle (.zero false), by rw [ofValue]; rfl, hz⟩

theorem int_alike {n : Int} (hn : n.natAbs < 2 ^ 53) : Alike (.int n) := by
  refine ⟨literalNumber (.ofInt n), by rw [ofValue]; rfl, ?_⟩
  rw [SameNumber, literalNumber_value, Integers.place?_ofInt hn.le]
  rfl

theorem bool_alike (b : Bool) : Alike (.bool b) := by
  have he : Integers.Exact (if b then 1 else 0) := by
    unfold Integers.Exact
    cases b <;> decide
  refine ⟨.settle (.ofInt (if b then 1 else 0)), by rw [ofValue]; rfl, ?_⟩
  rw [SameNumber, Held.settle, Integers.place?_ofInt he]
  rfl

theorem float_alike (x : Binary64) : Alike (.float x) := by
  refine ⟨literalNumber x, by rw [ofValue]; rfl, ?_⟩
  rw [SameNumber, literalNumber_value]
  rfl

theorem text_alike_iff (s : String) : Alike (.str s) ↔ ¬ Divided s := by
  rw [← sameNumber_iff]
  have ht : (ofValue (.str s)).toNumber = .ok (.settle (numberOfText (Units.ofString s))) := by
    rw [ofValue]
    rfl
  constructor
  · rintro ⟨x, hx, hs⟩
    rw [ht] at hx
    cases hx
    exact hs
  · exact fun hs => ⟨_, ht, hs⟩

theorem array_toNumber (gs : List Guest) : (Guest.array gs).toNumber =
    (Guest.array gs).toText.map fun u => .settle (numberOfText u) := by
  rw [Guest.toNumber, Guest.toPrimitive]
  cases (Guest.array gs).toText <;> rfl

/-- An array is no number for the host: the sides agree if it has a text that is none, either. -/
theorem array_alike_iff (vs : List Value) : Alike (.list vs) ↔
    ∃ u, (ofValue (.list vs)).toText = .ok u ∧ (numberOfText u).isNaN = true := by
  have hn : toNumber (.list vs) = .float .nan := rfl
  rw [Alike, ofValue_list, array_toNumber, hn]
  constructor
  · rintro ⟨x, hx, hs⟩
    obtain ⟨u, hu, he⟩ := Results.ok_of_map hx
    refine ⟨u, hu, ?_⟩
    cases he
    exact hs.isNaN
  · rintro ⟨u, hu, hx⟩
    exact ⟨.settle (numberOfText u), by rw [hu]; rfl, .of_isNaN rfl hx⟩

theorem elementTexts_length {gs : List Guest} {us : List Units}
    (h : Guest.elementTexts gs = .ok us) : us.length = gs.length := by
  induction gs generalizing us with
  | nil =>
    cases h
    rfl
  | cons g gs ih =>
    have hcons : ∃ u vs, us = u :: vs ∧ Guest.elementTexts gs = .ok vs := by
      unfold Guest.elementTexts at h
      split at h
      · next he => cases he
      · next he =>
        cases he
        obtain ⟨vs, hv, rfl⟩ := Results.ok_of_map h
        exact ⟨_, vs, rfl, hv⟩
      · next he =>
        cases he
        obtain ⟨vs, hv, rfl⟩ := Results.ok_of_map h
        exact ⟨_, vs, rfl, hv⟩
      · next he =>
        cases he
        split at h
        · cases h
        · obtain ⟨vs, hv, rfl⟩ := Results.ok_of_map h
          exact ⟨_, vs, rfl, hv⟩
    obtain ⟨u, vs, rfl, hv⟩ := hcons
    rw [List.length_cons, List.length_cons, ih hv]

/-- A comma is a character wherever it is a unit. -/
theorem comma_mem_toChars {u : Units} (h : (44 : UInt16) ∈ u) : ',' ∈ Units.toChars u := by
  fun_induction Units.toChars u with
  | case1 => cases h
  | case2 u =>
    rw [List.mem_singleton] at h
    subst u
    decide
  | case3 u v us hp ih =>
    have hu : u ≠ 44 := by
      rintro rfl
      simp [Units.isHigh] at hp
    have hv : v ≠ 44 := by
      rintro rfl
      simp [Units.isLow] at hp
    rw [List.mem_cons, List.mem_cons] at h
    exact List.mem_cons_of_mem _ (ih ((h.resolve_left hu.symm).resolve_left hv.symm))
  | case4 u v us hp ih =>
    rcases List.mem_cons.mp h with rfl | hm
    · exact List.mem_cons.mpr (.inl (by decide))
    · exact List.mem_cons_of_mem _ (ih hm)

/-- An array of more than one element is no number in a snippet, either: its text has a comma. -/
theorem long_array {vs : List Value} (hl : 2 ≤ vs.length) {u : Units}
    (hu : (ofValue (.list vs)).toText = .ok u) : (numberOfText u).isNaN = true := by
  rw [ofValue_list, Guest.toText] at hu
  obtain ⟨ts, ht, rfl⟩ := Results.ok_of_map hu
  have hlen := elementTexts_length ht
  rw [List.length_map] at hlen
  obtain ⟨a, b, rest, rfl⟩ : ∃ a b rest, ts = a :: b :: rest := by
    rcases ts with - | ⟨a, - | ⟨b, rest⟩⟩
    · simp at hlen
      omega
    · simp at hlen
      omega
    · exact ⟨a, b, rest, rfl⟩
  have hc : (44 : UInt16) ∈ (Units.ofChar ',').intercalate (a :: b :: rest) := by
    have hs : Units.ofChar ',' = [44] := rfl
    rw [hs, List.intercalate, List.intersperse_cons_cons, List.flatten_cons, List.flatten_cons]
    simp
  by_contra hn
  rcases number_characters (by simpa using hn) ',' (comma_mem_toChars hc) with h | h <;> cases h

section
variable {ms : List (String × Value)}

/-- A member of a JSON value is no function, so nothing is converted by it. -/
theorem converted?_member {name : String} {g : Guest}
    (h : member? (Units.ofString name) (ofMembers ms) = some g) :
    (Guest.object none (ofMembers ms)).converted? name = none := by
  obtain ⟨a, ha, hag⟩ := member?_mem h
  obtain ⟨m, -, rfl⟩ := List.mem_map.mp ha
  have hf : (Guest.object none (ofMembers ms)).find? (Units.ofString name) = some g := by
    rw [Guest.find?, h, Option.some_or]
  rw [Guest.converted?, hf]
  cases g with
  | helper k => exact absurd hag (ofValue_ne_helper m.2 k)
  | native n => exact absurd hag (ofValue_ne_native m.2 n)
  | _ => rfl

theorem converted?_missing {name : String}
    (h : member? (Units.ofString name) (ofMembers ms) = none) :
    (Guest.object none (ofMembers ms)).converted? name =
      if name = "toString" then some (.text Guest.objectText) else none := by
  have hf : (Guest.object none (ofMembers ms)).find? (Units.ofString name) = none := by
    rw [Guest.find?, h, Guest.inherited?, Option.or_none]
  rw [Guest.converted?, hf]
  by_cases hn : name = "toString" <;> simp [hn, Guest.hasUsualRoot, Guest.rootIsUsual]

theorem valueOf_none : (Guest.object none (ofMembers ms)).converted? "valueOf" = none := by
  cases h : member? (Units.ofString "valueOf") (ofMembers ms) with
  | none => rw [converted?_missing h, if_neg (by decide)]
  | some g => exact converted?_member h

theorem member?_ofMembers_some {name : String} (h : name ∈ ms.map Prod.fst) :
    ∃ g, member? (Units.ofString name) (ofMembers ms) = some g := by
  induction ms with
  | nil => cases h
  | cons m ms ih =>
    rw [ofMembers, List.map_cons, member?]
    split
    · exact ⟨_, rfl⟩
    · next hne =>
      refine ih ((List.mem_cons.mp h).resolve_left ?_)
      rintro rfl
      exact hne rfl

/-- An object is a NaN on both sides unless a member of its own stands for its text. -/
theorem object_alike_iff (hd : (ms.map Prod.fst).Nodup) (hp : ∀ m ∈ ms, m.1 ≠ "__proto__") :
    Alike (.dict (textKeyed ms)) ↔ "toString" ∉ ms.map Prod.fst := by
  have hn : toNumber (.dict (textKeyed ms)) = .float .nan := rfl
  rw [Alike, ofValue_dict hd hp, Guest.toNumber, Guest.toPrimitive, Guest.objectPrimitive, hn,
    valueOf_none, if_neg Bool.false_ne_true, Option.none_or]
  constructor
  · rintro ⟨x, hx, -⟩ hm
    obtain ⟨g, hg⟩ := member?_ofMembers_some hm
    rw [converted?_member hg] at hx
    cases hx
  · intro hm
    have hnone : member? (Units.ofString "toString") (ofMembers ms) = none :=
      member?_ofMembers fun m hmem he => hm (List.mem_map.mpr ⟨m, hmem, he⟩)
    have ht : (numberOfText Guest.objectText).isNaN = true := by decide +kernel
    rw [converted?_missing hnone, if_pos rfl]
    exact ⟨.settle (numberOfText Guest.objectText), rfl, .of_isNaN rfl ht⟩

end

/-- A value of JSON text whose integers are exact. A member named after the parent is none: in a
snippet it sets the parent of the object that it is written in. -/
inductive Element : Value → Prop where
  | none : Element .none
  | bool (b : Bool) : Element (.bool b)
  | int (n : Int) (exact : n.natAbs < 2 ^ 53) : Element (.int n)
  | float (x : Binary64) : Element (.float x)
  | str (s : String) : Element (.str s)
  | list (vs : List Value) (elements : ∀ v ∈ vs, Element v) : Element (.list vs)
  | dict (ms : List (String × Value)) (distinct : (ms.map Prod.fst).Nodup)
      (own : ∀ m ∈ ms, m.1 ≠ "__proto__") (values : ∀ m ∈ ms, Element m.2) :
      Element (.dict (textKeyed ms))

/-- The elements that the two sides read as different numbers. -/
inductive Parted : Value → Prop where
  | text (s : String) (divided : Divided s) : Parted (.str s)
  /-- Only in a snippet, an array whose text is a numeral is that number. -/
  | short (vs : List Value) (length : vs.length < 2) (u : Units)
      (written : (ofValue (.list vs)).toText = .ok u) (number : (numberOfText u).isNaN = false) :
      Parted (.list vs)
  /-- Only in a snippet, an array without a text is an error. -/
  | unwritten (vs : List Value) (e : Thrown) (fails : (ofValue (.list vs)).toText = .error e) :
      Parted (.list vs)
  /-- Only in a snippet, an object is an error if a member hides how it is converted. -/
  | hidden (ms : List (String × Value)) (own : "toString" ∈ ms.map Prod.fst) :
      Parted (.dict (textKeyed ms))

theorem list_alike_iff (vs : List Value) : Alike (.list vs) ↔ ¬ Parted (.list vs) := by
  rw [array_alike_iff]
  constructor
  · rintro ⟨u, hu, hn⟩ hp
    cases hp with
    | short _ w _ hw number =>
      rw [hu] at hw
      cases hw
      rw [hn] at number
      cases number
    | unwritten _ e fails =>
      rw [hu] at fails
      cases fails
  · intro hp
    cases hu : (ofValue (.list vs)).toText with
    | error e => exact absurd (.unwritten vs e hu) hp
    | ok u =>
      refine ⟨u, rfl, ?_⟩
      by_contra hn
      have hl : vs.length < 2 := by
        by_contra hl
        exact hn (long_array (by omega) hu)
      exact hp (.short vs hl u hu (by simpa using hn))

theorem textKeyed_inj {ms ns : List (String × Value)} (h : textKeyed ms = textKeyed ns) :
    ms = ns := by
  refine List.map_injective_iff.mpr (fun a b he => ?_) h
  cases a
  cases b
  simpa using he

/-- The two sides read an element as the same number exactly if it is not parted. -/
theorem alike_iff {v : Value} (hv : Element v) : Alike v ↔ ¬ Parted v := by
  cases hv with
  | none => exact iff_of_true none_alike nofun
  | bool b => exact iff_of_true (bool_alike b) nofun
  | int n hn => exact iff_of_true (int_alike hn) nofun
  | float x => exact iff_of_true (float_alike x) nofun
  | str s =>
    rw [text_alike_iff]
    exact not_congr ⟨.text s, fun h => by cases h; assumption⟩
  | list vs hvs => exact list_alike_iff vs
  | dict ms hd hp hms =>
    rw [object_alike_iff hd hp]
    refine not_congr ⟨.hidden ms, fun h => ?_⟩
    generalize he : Value.dict (textKeyed ms) = v at h
    cases h with
    | hidden ns own =>
      rw [textKeyed_inj (Value.dict.inj he)]
      exact own
    | _ => cases he

/-- The greatest element of an array is the same on both sides, and so is the least. -/
structure SameExtremes (vs : List Value) : Prop where
  greatest : Agree (Aggregate.greatest (.list vs)) (Builtin.apply .max [ofValue (.list vs)])
  least : Agree (Aggregate.least (.list vs)) (Builtin.apply .min [ofValue (.list vs)])

theorem sameExtremes (vs : List Value) (hv : ∀ v ∈ vs, Alike v) : SameExtremes vs := by
  have hl : SameOrder (fun y best => y.lt best) (fun y x : Binary64 => y.lt x) := less_same
  have hg : SameOrder (fun y best => best.lt y) (fun y x : Binary64 => x.lt y) :=
    fun hm hn => less_same hn hm
  constructor
  · rw [ofValue_list]
    exact extreme_agree hg hv
  · rw [ofValue_list]
    exact extreme_agree hl hv

/-- For every array of JSON values, the greatest and the least element are the same on both sides if
no element is parted, and for each parted element an array of that one differs in both. -/
theorem extremes_agree {vs : List Value} (hv : ∀ v ∈ vs, Element v) :
    ((∀ v ∈ vs, ¬ Parted v) → SameExtremes vs) ∧
      ∀ v ∈ vs, Parted v →
        ¬ Agree (Aggregate.greatest (.list [v])) (Builtin.apply .max [ofValue (.list [v])]) ∧
        ¬ Agree (Aggregate.least (.list [v])) (Builtin.apply .min [ofValue (.list [v])]) := by
  refine ⟨fun hp => sameExtremes vs fun v hm => (alike_iff (hv v hm)).mpr (hp v hm), ?_⟩
  intro v hm hp
  have ha : ¬ Alike v := fun ha => (alike_iff (hv v hm)).mp ha hp
  rw [ofValue_list]
  exact ⟨fun h => ha (alike_of_single h), fun h => ha (alike_of_single h)⟩

/-- Hexadecimal digits are a number in a snippet only, a padded decimal is one on both sides. -/
theorem hexadecimal_differs :
    (∀ v ∈ [Value.none, .bool true, .str " 2.5e1\n", .str "0x10"], Element v) ∧
      (∀ v ∈ [Value.none, .bool true, .str " 2.5e1\n"], ¬ Parted v) ∧ Parted (.str "0x10") ∧
      SameExtremes [.none, .bool true, .str " 2.5e1\n"] ∧
      ¬ Agree (Aggregate.greatest (.list [.str "0x10"]))
        (Builtin.apply .max [ofValue (.list [.str "0x10"])]) := by
  have he : ∀ v ∈ [Value.none, .bool true, .str " 2.5e1\n", .str "0x10"], Element v := by
    simp [Element.none, Element.bool, Element.str]
  have hs : SameNumber (toNumber (.str " 2.5e1\n")) (numberOfText (Units.ofString " 2.5e1\n")) := by
    unfold SameNumber
    decide +kernel
  have hp : ∀ v ∈ [Value.none, .bool true, .str " 2.5e1\n"], ¬ Parted v := by
    have hn : ¬ Parted .none := nofun
    have hb : ¬ Parted (.bool true) := nofun
    have ht : ¬ Parted (.str " 2.5e1\n") :=
      (alike_iff (.str _)).mp ((text_alike_iff _).mpr ((sameNumber_iff _).mp hs))
    simp [hn, hb, ht]
  have hx : Parted (.str "0x10") :=
    .text _ (.snippetOnly (by decide +kernel) (.inl ⟨.ofInt 16, by decide +kernel⟩))
  have hfirst := extremes_agree fun v hv => he v (List.mem_of_mem_dropLast (l := [_, _, _, _]) hv)
  have hlast := extremes_agree he
  exact ⟨he, hp, hx, hfirst.1 hp, (hlast.2 _ (by simp) hx).1⟩

end Reckoner.Proofs.Extremes
