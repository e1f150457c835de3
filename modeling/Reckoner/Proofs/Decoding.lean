import Reckoner.Proofs.Denotations
import Reckoner.Proofs.JsonTexts
import Reckoner.Proofs.Results

namespace Reckoner.Proofs.Decoding
open Snippet Text Crossing Literals Denotations JsonTexts Quoting Results

/-- Atoms first, then containers of values that have a property. -/
theorem value_induction {P : Value → Prop} (atom : ∀ v, isContainer v = false → P v)
    (list : ∀ vs, (∀ v ∈ vs, P v) → P (.list vs)) (tuple : ∀ vs, (∀ v ∈ vs, P v) → P (.tuple vs))
    (dict : ∀ es : Entries, (∀ e ∈ es, P e.2) → P (.dict es)) (v : Value) : P v := by
  have inner := fun w (_ : sizeOf w < sizeOf v) => value_induction atom list tuple dict w
  cases v with
  | list vs =>
    refine list vs fun v hv => inner v ?_
    have := List.sizeOf_lt_of_mem hv
    simp
    omega
  | tuple vs =>
    refine tuple vs fun v hv => inner v ?_
    have := List.sizeOf_lt_of_mem hv
    simp
    omega
  | dict es =>
    refine dict es fun e he => inner e.2 ?_
    have hm := List.sizeOf_lt_of_mem he
    have hs : sizeOf e = 1 + sizeOf e.1 + sizeOf e.2 := by cases e; rfl
    simp
    omega
  | _ => exact atom _ rfl
termination_by sizeOf v

/-- A value that is the key of a member as a text or by its own literal. -/
def isKey : Value → Bool
  | .none => true
  | .bool _ => true
  | .int _ => true
  | .float _ => true
  | .str _ => true
  | _ => false

/-- A value that no text writes: one that holds itself, is of a kind of its own, or has such a part
or a key of another kind than keys are. -/
inductive Unwritable : Value → Prop where
  | circular : Unwritable .cyclic
  | bytes (bs : List UInt8) : Unwritable (.bytes bs)
  | function : Unwritable .function
  | helper (h : Helper) : Unwritable (.helper h)
  | set : Unwritable .set
  | missing : Unwritable .missing
  | element (vs : List Value) (v : Value) (mem : v ∈ vs) (h : Unwritable v) : Unwritable (.list vs)
  | component (vs : List Value) (v : Value) (mem : v ∈ vs) (h : Unwritable v) :
      Unwritable (.tuple vs)
  | value (es : Entries) (e : Value × Value) (mem : e ∈ es) (h : Unwritable e.2) :
      Unwritable (.dict es)
  | key (es : Entries) (e : Value × Value) (mem : e ∈ es) (h : isKey e.1 = false) :
      Unwritable (.dict es)

mutual

def integers : Value → List Int
  | .int n => [n]
  | .list vs => integersAmong vs
  | .tuple vs => integersAmong vs
  | .dict es => entryIntegers es
  | _ => []

def integersAmong : List Value → List Int
  | [] => []
  | v :: vs => integers v ++ integersAmong vs

def entryIntegers : List (Value × Value) → List Int
  | [] => []
  | (k, v) :: es => integers k ++ integers v ++ entryIntegers es

end

def Short (v : Value) : Prop := ∀ n ∈ integers v, n.natAbs < 10 ^ Numeral.digitLimit

/-- The text that a key becomes: a text is itself, and any other key its literal. -/
def keyString : Value → String
  | .str s => s
  | k => String.ofList ((literal? k).getD [])

def lastValue (k : String) (ms : List (String × Value)) : Value :=
  (ms.reverse.lookup k).getD .none

/-- Members under distinct keys: each where it is first, with the value that it is last given. -/
def merged (ms : List (String × Value)) : List (String × Value) :=
  (ms.map Prod.fst).eraseDups.map fun k => (k, lastValue k ms)

mutual

/-- What a literal of a value stands for: arrays for tuples, and texts for keys. -/
def decoded : Value → Value
  | .list vs => .list (decodedAll vs)
  | .tuple vs => .list (decodedAll vs)
  | .dict es => .dict (textKeyed (merged (decodedEntries es)))
  | v => v

def decodedAll : List Value → List Value
  | [] => []
  | v :: vs => decoded v :: decodedAll vs

def decodedEntries : List (Value × Value) → List (String × Value)
  | [] => []
  | (k, v) :: es => (keyString k, decoded v) :: decodedEntries es

end

section
variable {ms : List (String × Value)} {k : String} {v : Value}

theorem eraseDups_concat (ks : List String) (k : String) :
    (ks ++ [k]).eraseDups = if k ∈ ks then ks.eraseDups else ks.eraseDups ++ [k] := by
  rw [List.eraseDups_append, List.removeAll]
  by_cases h : k ∈ ks <;> simp [h, List.eraseDups_cons]

theorem nodup_eraseDups (ks : List String) : ks.eraseDups.Nodup := by
  induction ks using List.reverseRecOn with
  | nil => exact List.nodup_nil
  | append_singleton ks k ih =>
    rw [eraseDups_concat]
    split
    · exact ih
    · next h =>
      have hk : k ∉ ks.eraseDups := mt List.mem_eraseDups.mp h
      exact List.nodup_append_comm.mp (List.nodup_cons.mpr ⟨hk, ih⟩)

theorem lastValue_concat (j : String) :
    lastValue j (ms ++ [(k, v)]) = if j = k then v else lastValue j ms := by
  rw [lastValue, lastValue, List.reverse_append, List.reverse_singleton, List.singleton_append,
    List.lookup_cons]
  by_cases h : j = k
  · simp [h]
  · rw [beq_false_of_ne h, if_neg h]

theorem textKeyed_merged (ms : List (String × Value)) : textKeyed (merged ms) =
    (ms.map Prod.fst).eraseDups.map fun j => (.str j, lastValue j ms) := by
  rw [textKeyed, merged, List.map_map]
  rfl

/-- A value set under one of distinct keys takes the place of the one that was there. -/
theorem insert_known {ks : List String} (hd : ks.Nodup) (hk : k ∈ ks) (f : String → Value) :
    Entries.insert (.str k) v (ks.map fun j => (.str j, f j)) =
      ks.map fun j => (.str j, if j = k then v else f j) := by
  induction ks with
  | nil => cases hk
  | cons j ks ih =>
    obtain ⟨hj, hd⟩ := List.nodup_cons.mp hd
    by_cases he : j = k
    · subst j
      have hrest : ∀ i ∈ ks, (Value.str i, f i) = (.str i, if i = k then v else f i) :=
        fun i hi => by rw [if_neg (ne_of_mem_of_not_mem hi hj)]
      simp [Entries.insert, Value.same, List.map_congr_left hrest]
    · have hi := ih hd ((List.mem_cons.mp hk).resolve_left (Ne.symm he))
      simp [Entries.insert, Value.same, he, hi]

/-- One more member, written over those before. -/
theorem insert_merged (ms : List (String × Value)) (k : String) (v : Value) :
    (textKeyed (merged ms)).insert (.str k) v = textKeyed (merged (ms ++ [(k, v)])) := by
  have hconcat : (fun j => (Value.str j, lastValue j (ms ++ [(k, v)]))) =
      fun j => (.str j, if j = k then v else lastValue j ms) :=
    funext fun j => by rw [lastValue_concat]
  rw [textKeyed_merged, textKeyed_merged, hconcat, List.map_append, List.map_singleton,
    eraseDups_concat]
  split
  · next h => exact insert_known (nodup_eraseDups _) (List.mem_eraseDups.mpr h) _
  · next h =>
    have hne : ∀ j ∈ (ms.map Prod.fst).eraseDups, j ≠ k :=
      fun j hj => ne_of_mem_of_not_mem (List.mem_eraseDups.mp hj) h
    have hold : ∀ j ∈ (ms.map Prod.fst).eraseDups,
        (Value.str j, lastValue j ms) = (.str j, if j = k then v else lastValue j ms) :=
      fun j hj => by rw [if_neg (hne j hj)]
    have hfresh : ∀ e ∈ (ms.map Prod.fst).eraseDups.map fun j => (Value.str j, lastValue j ms),
        e.1.same (.str k) = false := by
      intro e he
      obtain ⟨j, hj, rfl⟩ := List.mem_map.mp he
      simpa [Value.same] using hne j hj
    rw [insert_fresh hfresh, List.map_append, List.map_congr_left hold, List.map_singleton,
      if_pos rfl]

/-- Members written one after the other leave each key once, in its first place with its last
value. -/
theorem ofList_textKeyed (ms : List (String × Value)) :
    Entries.ofList (textKeyed ms) = textKeyed (merged ms) := by
  induction ms using List.reverseRecOn with
  | nil => rfl
  | append_singleton ms m ih =>
    rw [← insert_merged, ← ih]
    simp [Entries.ofList, Entries.insertAll, textKeyed]

end

section
variable {α β : Type} {r : Except Failure α}

def Fails (r : Except Failure α) : Prop := ∃ f, r = .error f

theorem fails_ok (a : α) : ¬ Fails (.ok a) := nofun

theorem fails_error (f : Failure) : Fails (.error f : Except Failure α) := ⟨f, rfl⟩

theorem fails_map (g : α → β) : Fails (r.map g) ↔ Fails r := by
  cases r with
  | error f => exact iff_of_true ⟨f, rfl⟩ ⟨f, rfl⟩
  | ok a => exact iff_of_false nofun nofun

end

theorem keyText_fails (k : Value) : Fails (Json.keyText .literal k) ↔ isKey k = false := by
  rw [Json.keyText, Json.Style.refuses_of_specials rfl, if_neg Bool.false_ne_true]
  cases k with
  | none => exact iff_of_false (fails_ok _) nofun
  | bool b => exact iff_of_false (fails_ok _) nofun
  | int n => exact iff_of_false (fails_ok _) nofun
  | float x => exact iff_of_false (fails_ok _) nofun
  | str s => exact iff_of_false (fails_ok _) nofun
  | _ => exact iff_of_true (fails_error _) rfl

theorem writeAll_fails (depth : Nat) (vs : List Value) :
    Fails (Json.writeAll .literal depth vs) ↔ ∃ v ∈ vs, Fails (Json.writeAt .literal depth v) := by
  induction vs with
  | nil => exact iff_of_false (fails_ok _) (by simp)
  | cons v vs ih =>
    rw [List.exists_mem_cons_iff, ← ih, Json.writeAll]
    cases Json.writeAt .literal depth v with
    | error f => exact iff_of_true (fails_error f) (.inl (fails_error f))
    | ok p =>
      cases Json.writeAll .literal depth vs with
      | error f => exact iff_of_true (fails_error f) (.inr (fails_error f))
      | ok ps => exact iff_of_false (fails_ok _) (not_or.mpr ⟨fails_ok _, fails_ok _⟩)

theorem writeEntries_fails (depth : Nat) (es : Entries) :
    Fails (Json.writeEntries .literal depth es) ↔
      ∃ e ∈ es, isKey e.1 = false ∨ Fails (Json.writeAt .literal depth e.2) := by
  induction es with
  | nil => exact iff_of_false (fails_ok _) (by simp)
  | cons e es ih =>
    obtain ⟨k, v⟩ := e
    rw [List.exists_mem_cons_iff, ← ih, ← keyText_fails, Json.writeEntries]
    cases Json.keyText .literal k with
    | error f => exact iff_of_true (fails_error f) (.inl (.inl (fails_error f)))
    | ok name =>
      cases Json.writeAt .literal depth v with
      | error f => exact iff_of_true (fails_error f) (.inl (.inr (fails_error f)))
      | ok p =>
        cases Json.writeEntries .literal depth es with
        | error f => exact iff_of_true (fails_error f) (.inr (fails_error f))
        | ok ps =>
          exact iff_of_false (fails_ok _)
            (not_or.mpr ⟨not_or.mpr ⟨fails_ok _, fails_ok _⟩, fails_ok _⟩)

/-- Whatever may be a key has a text of its own. -/
theorem key_writable {k : Value} (h : isKey k = true) : ¬ Unwritable k := by
  intro hu
  cases hu <;> cases h

/-- At every depth, exactly the unwritable values fail. -/
theorem writeAt_fails (v : Value) :
    ∀ depth, Fails (Json.writeAt .literal depth v) ↔ Unwritable v := by
  induction v using value_induction with
  | atom v h =>
    intro depth
    cases v with
    | none => exact iff_of_false (fails_ok _) (key_writable rfl)
    | bool b => exact iff_of_false (fails_ok _) (key_writable rfl)
    | int n => exact iff_of_false (fails_ok _) (key_writable rfl)
    | float x =>
      rw [Json.writeAt, Json.Style.refuses_of_specials rfl, if_neg Bool.false_ne_true]
      exact iff_of_false (fails_ok _) (key_writable rfl)
    | str s => exact iff_of_false (fails_ok _) (key_writable rfl)
    | bytes bs => exact iff_of_true (fails_error _) (.bytes bs)
    | missing => exact iff_of_true (fails_error _) .missing
    | helper k => exact iff_of_true (fails_error _) (.helper k)
    | function => exact iff_of_true (fails_error _) .function
    | set => exact iff_of_true (fails_error _) .set
    | cyclic => exact iff_of_true (fails_error _) .circular
    | _ => contradiction
  | list vs ih =>
    intro depth
    rw [Json.writeAt, fails_map, writeAll_fails]
    constructor
    · rintro ⟨v, hv, hf⟩
      exact .element vs v hv ((ih v hv _).mp hf)
    · intro h
      cases h with
      | element _ v hv h => exact ⟨v, hv, (ih v hv _).mpr h⟩
  | tuple vs ih =>
    intro depth
    rw [Json.writeAt, fails_map, writeAll_fails]
    constructor
    · rintro ⟨v, hv, hf⟩
      exact .component vs v hv ((ih v hv _).mp hf)
    · intro h
      cases h with
      | component _ v hv h => exact ⟨v, hv, (ih v hv _).mpr h⟩
  | dict es ih =>
    intro depth
    rw [Json.writeAt, fails_map, writeEntries_fails]
    constructor
    · rintro ⟨e, he, hk | hf⟩
      · exact .key es e he hk
      · exact .value es e he ((ih e he _).mp hf)
    · intro h
      cases h with
      | value _ e he h => exact ⟨e, he, .inr ((ih e he _).mpr h)⟩
      | key _ e he h => exact ⟨e, he, .inl h⟩

theorem literal?_eq_none_iff (v : Value) : literal? v = none ↔ Unwritable v := by
  rw [← writeAt_fails v 0, literal?, Json.write]
  cases Json.writeAt .literal 0 v with
  | error f => exact iff_of_true rfl (fails_error f)
  | ok cs => exact iff_of_false (Option.some_ne_none cs) (fails_ok cs)

theorem decodedAll_eq_map (vs : List Value) : decodedAll vs = vs.map decoded := by
  induction vs with
  | nil => rfl
  | cons v vs ih => rw [decodedAll, ih, List.map_cons]

theorem integers_element {vs : List Value} {v : Value} (hv : v ∈ vs) :
    integers v ⊆ integersAmong vs := by
  induction vs with
  | nil => cases hv
  | cons w vs ih =>
    rw [integersAmong]
    rcases List.mem_cons.mp hv with rfl | hv
    · exact List.subset_append_left _ _
    · exact List.subset_append_of_subset_right _ (ih hv)

theorem integers_value {es : Entries} {e : Value × Value} (he : e ∈ es) :
    integers e.2 ⊆ entryIntegers es := by
  induction es with
  | nil => cases he
  | cons f es ih =>
    rw [entryIntegers]
    rcases List.mem_cons.mp he with rfl | he
    · exact List.subset_append_of_subset_left _ (List.subset_append_right _ _)
    · exact List.subset_append_of_subset_right _ (ih he)

theorem keyText_ok {k : Value} {name : List Char} (h : Json.keyName k = .ok name) :
    name = (keyString k).toList := by
  cases k with
  | none => cases h; rfl
  | bool b => cases h; cases b <;> rfl
  | int n =>
    cases h
    exact String.toList_ofList.symm
  | float x =>
    cases h
    have hl : literal? (.float x) = some (x.text .literal) := by
      rw [literal?, Json.write, Json.writeAt, Json.Style.refuses_of_specials rfl]
      rfl
    rw [keyString, hl]
    · exact String.toList_ofList.symm
    · intro s hs
      cases hs
  | str s => cases h; rfl
  | _ => cases h

/-- The literals of a value show every character, and are read as what it decodes to. -/
def Decodes (v : Value) : Prop :=
  ∀ depth cs, Json.writeAt .literal depth v = .ok cs → Visible cs ∧ JsonText cs (decoded v)

theorem atom_decodes {v : Value} (h : isContainer v = false) (hn : Short v) : Decodes v := by
  intro depth cs hw
  cases v with
  | none =>
    cases hw
    exact ⟨null_denotes.visible, null_text⟩
  | bool b =>
    cases hw
    refine ⟨(bool_denotes b).visible, ?_⟩
    have h := bool_text b
    cases b <;> exact h
  | int n =>
    cases hw
    obtain ⟨x, hd, -⟩ := int_denotes n
    exact ⟨hd.visible, int_text (hn n List.mem_cons_self)⟩
  | float x =>
    rw [Json.writeAt, Json.Style.refuses_of_specials rfl] at hw
    cases hw
    exact ⟨(float_denotes x).visible, literal_text x⟩
  | str s =>
    cases hw
    have ht := string_text false s.toList
    rw [String.ofList_toList] at ht
    exact ⟨string_visible s.toList, ht⟩
  | _ => contradiction

theorem elements_decode {vs : List Value} (hv : ∀ v ∈ vs, Decodes v) {depth : Nat}
    {ps : List (List Char)} (hw : Json.writeAll .literal depth vs = .ok ps) :
    ∃ ts : List (List Char × Value), ts.map Prod.fst = ps ∧ ts.map Prod.snd = vs.map decoded ∧
      ∀ t ∈ ts, Visible t.1 ∧ JsonText t.1 t.2 := by
  induction vs generalizing ps with
  | nil =>
    cases hw
    exact ⟨[], rfl, rfl, by simp⟩
  | cons v vs ih =>
    obtain ⟨p, qs, hp, hq, rfl⟩ := writeAll_cons hw
    obtain ⟨ts, rfl, hd, ht⟩ := ih (fun w hw => hv w (List.mem_cons_of_mem _ hw)) hq
    refine ⟨(p, decoded v) :: ts, rfl, by rw [List.map_cons, hd, List.map_cons], ?_⟩
    exact List.forall_mem_cons.mpr ⟨hv v List.mem_cons_self depth p hp, ht⟩

/-- Elements in brackets are read as a list, of whichever kind they were. -/
theorem array_decodes {vs : List Value} (hv : ∀ v ∈ vs, Decodes v) {depth : Nat} {cs : List Char}
    (hw : (Json.writeAll .literal (depth + 1) vs).map (Json.bracketed .literal depth '[' ']') =
      .ok cs) : Visible cs ∧ JsonText cs (.list (vs.map decoded)) := by
  obtain ⟨ps, hps, rfl⟩ := ok_of_map hw
  obtain ⟨ts, rfl, hd, ht⟩ := elements_decode hv hps
  constructor
  · refine bracketed_visible (by decide) (by decide) depth fun p hp => ?_
    obtain ⟨t, hm, rfl⟩ := List.mem_map.mp hp
    exact (ht t hm).1
  · rw [← hd]
    exact list_text .literal depth fun t hm => (ht t hm).2

theorem members_decode {es : Entries} (hv : ∀ e ∈ es, Decodes e.2) {depth : Nat}
    {ps : List (List Char)} (hw : Json.writeEntries .literal depth es = .ok ps) :
    ∃ ms : List Part, ms.map (Part.styled .literal) = ps ∧
      ms.map Part.entry = textKeyed (decodedEntries es) ∧
      ∀ m ∈ ms, Visible m.text ∧ JsonText m.text m.value := by
  induction es generalizing ps with
  | nil =>
    cases hw
    exact ⟨[], rfl, rfl, by simp⟩
  | cons e es ih =>
    obtain ⟨k, v⟩ := e
    obtain ⟨name, p, qs, hn, hp, hq, rfl⟩ := writeEntries_cons hw
    obtain ⟨ms, rfl, hd, ht⟩ := ih (fun f hf => hv f (List.mem_cons_of_mem _ hf)) hq
    refine ⟨⟨keyString k, p, decoded v⟩ :: ms, ?_, ?_, ?_⟩
    · rw [List.map_cons, Part.styled, keyText_ok hn]
    · rw [List.map_cons, hd, decodedEntries]
      rfl
    · exact List.forall_mem_cons.mpr ⟨hv (k, v) List.mem_cons_self depth p hp, ht⟩

theorem object_decodes {es : Entries} (hv : ∀ e ∈ es, Decodes e.2) : Decodes (.dict es) := by
  intro depth cs hw
  rw [Json.writeAt] at hw
  obtain ⟨ps, hps, rfl⟩ := ok_of_map hw
  obtain ⟨ms, rfl, hd, ht⟩ := members_decode hv hps
  constructor
  · refine bracketed_visible (by decide) (by decide) depth fun p hp => ?_
    obtain ⟨m, hm, rfl⟩ := List.mem_map.mp hp
    have hcolon : Visible (Json.Style.colon .literal) :=
      visible_cons (by decide) (visible_cons (by decide) (by simp [Visible]))
    exact visible_append (visible_append (string_visible m.key.toList) hcolon) (ht m hm).1
  · rw [decoded, ← ofList_textKeyed, ← hd]
    exact dict_text .literal depth fun m hm => (ht m hm).2

theorem decodes (v : Value) (hn : Short v) : Decodes v := by
  induction v using value_induction with
  | atom v h => exact atom_decodes h hn
  | list vs ih =>
    intro depth cs hw
    rw [decoded, decodedAll_eq_map]
    exact array_decodes (fun v hv => ih v hv fun n hm => hn n (integers_element hv hm)) hw
  | tuple vs ih =>
    intro depth cs hw
    rw [decoded, decodedAll_eq_map]
    exact array_decodes (fun v hv => ih v hv fun n hm => hn n (integers_element hv hm)) hw
  | dict es ih => exact object_decodes fun e he => ih e he fun n hm => hn n (integers_value he hm)

/-- A value whose integers are short has a literal unless something in it is unwritable. The literal
has no control characters, and is read as what the value decodes to. Values may be nested to any
depth here, where a machine runs out of stack at some depth. -/
theorem literal_decodes {v : Value} (hn : Short v) :
    (literal? v = none ↔ Unwritable v) ∧
      ∀ cs, literal? v = some cs → (∀ c ∈ cs, 0x20 ≤ c.toNat) ∧ Json.read cs = .ok (decoded v) := by
  refine ⟨literal?_eq_none_iff v, fun cs hl => ?_⟩
  rw [literal?, Json.write] at hl
  cases hw : Json.writeAt .literal 0 v with
  | error f =>
    rw [hw] at hl
    cases hl
  | ok ds =>
    rw [hw] at hl
    cases hl
    obtain ⟨hv, ht⟩ := decodes v hn 0 _ hw
    exact ⟨hv, ht.whole⟩

/-- Two keys that become one text, around a key that is nothing. -/
def clashing : Value :=
  .dict [(.int 1, .tuple [.str "a\n"]), (.none, .float .nan), (.str "1", .list [.int (-7)])]

theorem clashing_decodes :
    Short clashing ∧
      literal? clashing = some "\x7b\"1\": [\"a\\n\"], \"null\": NaN, \"1\": [-7]\x7d".toList ∧
      Json.read "\x7b\"1\": [\"a\\n\"], \"null\": NaN, \"1\": [-7]\x7d".toList =
        .ok (.dict [(.str "1", .list [.int (-7)]), (.str "null", .float .nan)]) := by
  have hs : Short clashing := by
    intro n hn
    have hm : n ∈ [1, -7] := hn
    have hlt : n.natAbs < 2 ^ 3 := by
      revert n
      decide
    exact hlt.trans_le (two_pow_le_limit (by decide))
  have hl : literal? clashing =
      some "\x7b\"1\": [\"a\\n\"], \"null\": NaN, \"1\": [-7]\x7d".toList := by
    decide +kernel
  exact ⟨hs, hl, ((literal_decodes hs).2 _ hl).2⟩

end Reckoner.Proofs.Decoding
