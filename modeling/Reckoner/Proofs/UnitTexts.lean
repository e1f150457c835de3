import Reckoner.Snippet.Builtin

namespace Reckoner.Proofs.UnitTexts
open Text Snippet

theorem ofChars_append (cs ds : List Char) :
    Units.ofChars (cs ++ ds) = Units.ofChars cs ++ Units.ofChars ds :=
  List.flatMap_append

theorem ofChars_cons (c : Char) (cs : List Char) :
    Units.ofChars (c :: cs) = Units.ofChar c ++ Units.ofChars cs :=
  List.flatMap_cons

theorem toNat_valid (c : Char) :
    c.toNat < 0xD800 ∨ (0xDFFF < c.toNat ∧ c.toNat < 0x110000) :=
  c.valid

/-- Characters of the basic plane are units outside the pairs. -/
theorem basic_char (c : Char) (h : c.toNat < 0x10000) :
    Units.ofChar c = [UInt16.ofNat c.toNat] ∧ (UInt16.ofNat c.toNat).toNat = c.toNat ∧
      Units.isHigh (UInt16.ofNat c.toNat) = false ∧ Units.isLow (UInt16.ofNat c.toNat) = false := by
  have hn : (UInt16.ofNat c.toNat).toNat = c.toNat := UInt16.toNat_ofNat_of_lt' h
  have hv := toNat_valid c
  refine ⟨by simp only [Units.ofChar, if_pos h], hn, ?_, ?_⟩
  · simp only [Units.isHigh, hn, Bool.and_eq_false_iff, decide_eq_false_iff_not]
    omega
  · simp only [Units.isLow, hn, Bool.and_eq_false_iff, decide_eq_false_iff_not]
    omega

/-- Other characters are pairs of units. -/
theorem paired_char (c : Char) (h : ¬ c.toNat < 0x10000) :
    ∃ u v, Units.ofChar c = [u, v] ∧ u.toNat = 0xD800 + (c.toNat - 0x10000) / 0x400 ∧
      v.toNat = 0xDC00 + c.toNat % 0x400 := by
  have hv := toNat_valid c
  refine ⟨UInt16.ofNat (0xD800 + (c.toNat - 0x10000) / 0x400),
    UInt16.ofNat (0xDC00 + c.toNat % 0x400), by simp only [Units.ofChar, if_neg h], ?_, ?_⟩
  · exact UInt16.toNat_ofNat_of_lt' (by simp only [UInt16.size]; omega)
  · exact UInt16.toNat_ofNat_of_lt' (by simp only [UInt16.size]; omega)

/-- The units of a character in front are read as that character. -/
theorem toChars_ofChar_append (c : Char) (us : Units) :
    Units.toChars (Units.ofChar c ++ us) = c :: Units.toChars us := by
  by_cases h : c.toNat < 0x10000
  · obtain ⟨he, hn, hh, hl⟩ := basic_char c h
    rw [he]
    cases us with
    | nil => simp [Units.toChars, hn, hh, hl]
    | cons v us => simp [Units.toChars, hn, hh, hl]
  · obtain ⟨u, v, he, hu, hv⟩ := paired_char c h
    have hc := toNat_valid c
    have hh : Units.isHigh u = true := by
      simp only [Units.isHigh, hu, Bool.and_eq_true, decide_eq_true_eq]
      omega
    have hl : Units.isLow v = true := by
      simp only [Units.isLow, hv, Bool.and_eq_true, decide_eq_true_eq]
      omega
    have hn : 0x10000 + (u.toNat - 0xD800) * 0x400 + (v.toNat - 0xDC00) = c.toNat := by omega
    rw [he]
    simp only [List.cons_append, List.nil_append, Units.toChars, hh, hl, Bool.and_self, ↓reduceIte,
      hn, Char.ofNat_toNat]

/-- No character is lost in units. -/
theorem toChars_ofChars (cs : List Char) : Units.toChars (Units.ofChars cs) = cs := by
  induction cs with
  | nil => rfl
  | cons c cs ih => rw [ofChars_cons, toChars_ofChar_append, ih]

theorem ofChars_inj {cs ds : List Char} : Units.ofChars cs = Units.ofChars ds ↔ cs = ds := by
  constructor
  · intro h
    rw [← toChars_ofChars cs, h, toChars_ofChars]
  · rintro rfl
    rfl

theorem ofString_inj {s t : String} : Units.ofString s = Units.ofString t ↔ s = t := by
  rw [Units.ofString, Units.ofString, ofChars_inj, String.toList_inj]

/-- A unit that is no half of a pair is a character's own. -/
theorem unit_of_basic {c : Char} {u : UInt16} (hu : u ∈ Units.ofChar c) (hb : u.toNat < 0xD800) :
    u.toNat = c.toNat := by
  by_cases h : c.toNat < 0x10000
  · obtain ⟨hs, ht, -⟩ := basic_char c h
    rw [hs, List.mem_singleton] at hu
    rw [hu, ht]
  · obtain ⟨a, b, hs, ha, hb⟩ := paired_char c h
    rw [hs, List.mem_cons, List.mem_singleton] at hu
    rcases hu with rfl | rfl <;> omega

theorem unit_ne {c d : Char} (hc : c ≠ d) (hd : d.toNat < 0xD800) :
    ∀ u ∈ Units.ofChar c, u ≠ UInt16.ofNat d.toNat := by
  rintro u hu rfl
  have hn : (UInt16.ofNat d.toNat).toNat = d.toNat := UInt16.toNat_ofNat_of_lt' (by
    rw [UInt16.size]
    omega)
  have he := unit_of_basic hu (by omega)
  rw [hn] at he
  exact hc (by rw [← Char.ofNat_toNat c, ← he, Char.ofNat_toNat])

theorem splitAt_ne_nil (sep : Char) (cs : List Char) : splitAt sep cs ≠ [] := by
  cases cs with
  | nil => simp [splitAt]
  | cons c cs =>
    rw [splitAt]
    split
    · simp
    · split <;> simp

/-- Units without a point belong to the first key. -/
theorem pathOf_append {us : Units} (hu : ∀ u ∈ us, u ≠ 46) {vs k : Units} {ks : List Units}
    (hv : Builtin.pathOf vs = k :: ks) : Builtin.pathOf (us ++ vs) = (us ++ k) :: ks := by
  induction us with
  | nil => exact hv
  | cons u us ih =>
    rw [List.cons_append, Builtin.pathOf, ih fun w hw => hu w (List.mem_cons_of_mem _ hw)]
    simp [hu u List.mem_cons_self]

/-- A path in units has the keys of the path in characters. -/
theorem pathOf_ofChars (cs : List Char) :
    Builtin.pathOf (Units.ofChars cs) = (splitAt '.' cs).map Units.ofChars := by
  induction cs with
  | nil => rfl
  | cons c cs ih =>
    rw [ofChars_cons, splitAt]
    cases hs : splitAt '.' cs with
    | nil => exact absurd hs (splitAt_ne_nil '.' cs)
    | cons p ps =>
      rw [hs, List.map_cons] at ih
      by_cases hc : c = '.'
      · subst c
        have hp : Units.ofChar '.' = [46] := by decide
        rw [hp, List.singleton_append, Builtin.pathOf, ih]
        simp [Units.ofChars]
      · rw [pathOf_append (unit_ne hc (by decide)) ih]
        simp [hc, ofChars_cons]

/-- Texts are joined in units as they are in characters. -/
theorem ofChars_intercalate (sep : Char) (ts : List (List Char)) :
    (Units.ofChar sep).intercalate (ts.map Units.ofChars) =
      Units.ofChars ([sep].intercalate ts) := by
  induction ts with
  | nil => rfl
  | cons t ts ih =>
    cases ts with
    | nil => rw [List.map_singleton, List.intercalate_singleton, List.intercalate_singleton]
    | cons t' ts =>
      have hsep : Units.ofChars [sep] = Units.ofChar sep := List.flatMap_singleton ..
      rw [List.map_cons, List.intercalate_cons_of_ne_nil (l := Units.ofChars t) (by simp), ih,
        List.intercalate_cons_of_ne_nil (l := t) (by simp), ofChars_append, ofChars_append, hsep]

end Reckoner.Proofs.UnitTexts
