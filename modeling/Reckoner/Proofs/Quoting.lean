import Reckoner.Json.Reader
import Reckoner.Json.Writer
import Reckoner.Proofs.UnitTexts
import Reckoner.Snippet.Token
import Mathlib.Tactic.IntervalCases

namespace Reckoner.Proofs.Quoting
open Snippet Text UnitTexts

/-- The letters that escape a character, each with that character. -/
def letters : List (Char × Char) :=
  [('"', '"'), ('\\', '\\'), ('n', '\n'), ('r', '\r'), ('t', '\t'), ('b', '\x08'), ('f', '\x0c')]

/-- The ways to write a character between quotes. -/
inductive Written (c : Char) : List Char → Prop where
  | letter (e : Char) (h : (e, c) ∈ letters) : Written c ['\\', e]
  | code (h : c.toNat < 32) : Written c ('\\' :: 'u' :: hexText 4 c.toNat)
  | plain (h : 32 ≤ c.toNat) (hq : c ≠ '"') (hb : c ≠ '\\') : Written c [c]

theorem written_escapedChar (c : Char) : Written c (Json.escapedChar false c) := by
  unfold Json.escapedChar
  split
  · next h => exact .letter _ (by rw [h]; decide)
  split
  · next h => exact .letter _ (by rw [h]; decide)
  split
  · next h => exact .letter _ (by rw [h]; decide)
  split
  · next h => exact .letter _ (by rw [h]; decide)
  split
  · next h => exact .letter _ (by rw [h]; decide)
  split
  · next h => exact .letter _ (by rw [h]; decide)
  split
  · next h => exact .letter _ (by rw [h]; decide)
  next hq hb _ _ _ _ _ =>
    split
    · next h => exact .code h
    · next h => exact .plain (by omega) hq hb

theorem textTail_quote (fuel : Nat) (rest : List Char) :
    textTail '"' (fuel + 1) ('"' :: rest) = .ok ([], rest) := by
  unfold textTail
  rfl

theorem textTail_plain {c : Char} (hc : 32 ≤ c.toNat) (hq : c ≠ '"') (hb : c ≠ '\\')
    {fuel : Nat} {cs rest : List Char} {u : Units} (h : textTail '"' fuel cs = .ok (u, rest)) :
    textTail '"' (fuel + 1) (c :: cs) = .ok (Units.ofChar c ++ u, rest) := by
  have hn : ¬ (c = '\n' ∨ c = '\r') := by
    rintro (rfl | rfl) <;> contradiction
  unfold textTail
  split
  · next h => cases h
  · next h =>
    cases h
    contradiction
  · next h' =>
    cases h'
    rw [if_neg hq, if_neg (by simpa using hn), h]
    rfl

theorem textTail_escape {fuel : Nat} {cs ds rest : List Char} {u v : Units}
    (he : unescape cs = .ok (u, ds)) (h : textTail '"' fuel ds = .ok (v, rest)) :
    textTail '"' (fuel + 1) ('\\' :: cs) = .ok (u ++ v, rest) := by
  conv => lhs; unfold textTail
  simp only [he, h, bind, Except.bind]
  rfl

theorem unescape_letter {e c : Char} (h : (e, c) ∈ letters) (cs : List Char) :
    unescape (e :: cs) = .ok (Units.ofChar c, cs) := by
  simp only [letters, List.mem_cons, Prod.mk.injEq, List.not_mem_nil, or_false] at h
  rcases h with ⟨rfl, rfl⟩ | ⟨rfl, rfl⟩ | ⟨rfl, rfl⟩ | ⟨rfl, rfl⟩ | ⟨rfl, rfl⟩ | ⟨rfl, rfl⟩ |
    ⟨rfl, rfl⟩ <;> rfl

theorem unescape_code {n : Nat} (hn : n < 32) (cs : List Char) :
    unescape ('u' :: (hexText 4 n ++ cs)) = .ok (Units.ofChar (Char.ofNat n), cs) := by
  interval_cases n <;> rfl

theorem textTail_written {c : Char} {ds : List Char} (hw : Written c ds) {fuel : Nat}
    {cs rest : List Char} {u : Units} (h : textTail '"' fuel cs = .ok (u, rest)) :
    textTail '"' (fuel + 1) (ds ++ cs) = .ok (Units.ofChar c ++ u, rest) := by
  cases hw with
  | letter e he => exact textTail_escape (unescape_letter he cs) h
  | code hc =>
    have hu := unescape_code hc cs
    rw [Char.ofNat_toNat] at hu
    exact textTail_escape hu h
  | plain hc hq hb => exact textTail_plain hc hq hb h

/-- A snippet reads a text between quotes as its units. -/
theorem textTail_text (cs rest : List Char) {fuel : Nat} (hf : cs.length < fuel) :
    textTail '"' fuel (cs.flatMap (Json.escapedChar false) ++ '"' :: rest) =
      .ok (Units.ofChars cs, rest) := by
  induction cs generalizing fuel with
  | nil =>
    cases fuel with
    | zero => contradiction
    | succ fuel => exact textTail_quote fuel rest
  | cons c cs ih =>
    cases fuel with
    | zero => contradiction
    | succ fuel =>
      rw [List.flatMap_cons, List.append_assoc, ofChars_cons]
      exact textTail_written (written_escapedChar c) (ih (Nat.lt_of_succ_lt_succ hf))

theorem stringTail_quote (opened : Nat) (rest : List Char) :
    Json.stringTail opened ('"' :: rest) = .ok ([], rest) := by
  unfold Json.stringTail
  rfl

theorem stringTail_plain {c : Char} (hc : 32 ≤ c.toNat) (hq : c ≠ '"') (hb : c ≠ '\\')
    (opened : Nat) (cs : List Char) :
    Json.stringTail opened (c :: cs) = Json.consTo c (Json.stringTail opened cs) := by
  conv => lhs; unfold Json.stringTail
  split
  · next h => cases h
  · next h => cases h; contradiction
  · next h => cases h; contradiction
  · next h => cases h; contradiction
  · next h =>
    cases h
    rw [if_neg hq, if_neg (by omega)]

theorem stringTail_letter {e c : Char} (h : (e, c) ∈ letters) (opened : Nat) (cs : List Char) :
    Json.stringTail opened ('\\' :: e :: cs) = Json.consTo c (Json.stringTail opened cs) := by
  have he : e ≠ 'u' ∧ Json.escaped? e = some c := by
    simp only [letters, List.mem_cons, Prod.mk.injEq, List.not_mem_nil, or_false] at h
    rcases h with ⟨rfl, rfl⟩ | ⟨rfl, rfl⟩ | ⟨rfl, rfl⟩ | ⟨rfl, rfl⟩ | ⟨rfl, rfl⟩ | ⟨rfl, rfl⟩ |
      ⟨rfl, rfl⟩ <;> decide
  conv => lhs; unfold Json.stringTail
  split
  · next h => cases h
  · next h => cases h
  · next h =>
    cases h
    exact absurd rfl he.1
  · next h =>
    cases h
    rw [if_neg he.1, he.2]
  · next hb h =>
    cases h
    exact absurd rfl (hb _ _ rfl)

theorem hexValue_hexChar {d : Nat} (hd : d < 16) : hexValue? (hexChar d) = some d := by
  interval_cases d <;> rfl

/-- Four hexadecimal digits write any code unit. -/
theorem hexFour?_hexText {n : Nat} (hn : n < 0x10000) :
    ∃ a b c d, hexText 4 n = [a, b, c, d] ∧ Json.hexFour? a b c d = some n := by
  refine ⟨_, _, _, _, rfl, ?_⟩
  have hv : ∀ m, hexValue? (hexChar (m % 16)) = some (m % 16) := fun m =>
    hexValue_hexChar (Nat.mod_lt m (by decide))
  simp only [Json.hexFour?, hv, Option.bind_eq_bind, Option.bind_some, Option.pure_def,
    Option.some.injEq]
  omega

/-- A code unit that is no half of a pair is read as its character. -/
theorem stringTail_code {n : Nat} (hn : n < 0x10000) (hh : Json.isHigh n = false)
    (hl : Json.isLow n = false) (opened : Nat) {cs : List Char} (hc : cs ≠ []) :
    Json.stringTail opened ('\\' :: 'u' :: (hexText 4 n ++ cs)) =
      Json.consTo (Char.ofNat n) (Json.stringTail opened cs) := by
  obtain ⟨a, b, c, d, hx, hv⟩ := hexFour?_hexText hn
  have hu : Json.unitChar n = Char.ofNat n := by
    rw [Json.unitChar, hh, hl]
    rfl
  obtain ⟨x, xs, rfl⟩ := List.exists_cons_of_ne_nil hc
  rw [hx]
  conv => lhs; unfold Json.stringTail
  simp only [List.cons_append, List.nil_append, hv]
  -- An escape that follows could only be the second half of a pair.
  split
  · next h => cases h
  · next h _ => cases h
  · next h h' =>
    cases h
    rw [h', hh, hu]
    rfl
  · next h h' =>
    cases h
    rw [h', hu]

/-- Two halves of a pair are read as one character. -/
theorem stringTail_pair {m n : Nat} (hm : m < 0x10000) (hn : n < 0x10000)
    (hh : Json.isHigh m = true) (hl : Json.isLow n = true) (opened : Nat) {cs : List Char}
    (hc : cs ≠ []) :
    Json.stringTail opened
        ('\\' :: 'u' :: (hexText 4 m ++ '\\' :: 'u' :: (hexText 4 n ++ cs))) =
      Json.consTo (Json.pairChar m n) (Json.stringTail opened cs) := by
  obtain ⟨a, b, c, d, hx, hv⟩ := hexFour?_hexText hm
  obtain ⟨e, f, g, h, hy, hw⟩ := hexFour?_hexText hn
  obtain ⟨x, xs, rfl⟩ := List.exists_cons_of_ne_nil hc
  rw [hx, hy]
  conv => lhs; unfold Json.stringTail
  simp only [List.cons_append, List.nil_append, hv, hw, hh, hl, ↓reduceIte]

theorem stringTail_written {c : Char} {ds : List Char} (hw : Written c ds) (opened : Nat)
    {cs : List Char} (hc : cs ≠ []) :
    Json.stringTail opened (ds ++ cs) = Json.consTo c (Json.stringTail opened cs) := by
  cases hw with
  | letter e he => exact stringTail_letter he opened cs
  | code hn =>
    have hs := stringTail_code (n := c.toNat) (by omega) (by simp [Json.isHigh]; omega)
      (by simp [Json.isLow]; omega) opened hc
    rw [Char.ofNat_toNat] at hs
    exact hs
  | plain hn hq hb => exact stringTail_plain hn hq hb opened cs

def unitsEscape (c : Char) : List Char :=
  (Units.ofChar c).flatMap fun u => Json.unitEscape u.toNat

/-- A character is escaped as it is beyond ASCII too, or by its code units. -/
theorem escapedChar_cases (ascii : Bool) (c : Char) :
    Json.escapedChar ascii c = Json.escapedChar false c ∨
      Json.escapedChar ascii c = unitsEscape c := by
  unfold Json.escapedChar unitsEscape
  split_ifs <;> simp_all

theorem stringTail_units (c : Char) (opened : Nat) {cs : List Char} (hc : cs ≠ []) :
    Json.stringTail opened (unitsEscape c ++ cs) = Json.consTo c (Json.stringTail opened cs) := by
  have hv := toNat_valid c
  by_cases h : c.toNat < 0x10000
  · obtain ⟨hu, hn, -⟩ := basic_char c h
    have hs := stringTail_code h (by simp [Json.isHigh]; omega) (by simp [Json.isLow]; omega)
      opened hc
    rw [Char.ofNat_toNat] at hs
    simp only [unitsEscape, hu, List.flatMap_singleton, Json.unitEscape, hn, List.cons_append, hs]
  · obtain ⟨u, v, hu, hm, hn⟩ := paired_char c h
    have hs := stringTail_pair (m := u.toNat) (n := v.toNat) (by omega) (by omega)
      (by simp [Json.isHigh]; omega) (by simp [Json.isLow]; omega) opened hc
    have hp : Json.pairChar u.toNat v.toNat = c := by
      have he : 0x10000 + (u.toNat - 0xD800) * 0x400 + (v.toNat - 0xDC00) = c.toNat := by omega
      rw [Json.pairChar, he, Char.ofNat_toNat]
    rw [hp] at hs
    simpa [unitsEscape, hu, Json.unitEscape] using hs

theorem stringTail_escaped (ascii : Bool) (c : Char) (opened : Nat) {cs : List Char}
    (hc : cs ≠ []) :
    Json.stringTail opened (Json.escapedChar ascii c ++ cs) =
      Json.consTo c (Json.stringTail opened cs) := by
  rcases escapedChar_cases ascii c with h | h
  · rw [h, stringTail_written (written_escapedChar c) _ hc]
  · rw [h, stringTail_units c _ hc]

/-- A JSON text reads a text between quotes as its characters, whatever is escaped in it. -/
theorem stringTail_text (ascii : Bool) (opened : Nat) (cs rest : List Char) :
    Json.stringTail opened (cs.flatMap (Json.escapedChar ascii) ++ '"' :: rest) =
      .ok (cs, rest) := by
  induction cs with
  | nil => exact stringTail_quote opened rest
  | cons c cs ih =>
    rw [List.flatMap_cons, List.append_assoc, stringTail_escaped ascii c _ (by simp), ih]
    rfl

theorem written_ne_nil {c : Char} {ds : List Char} (hw : Written c ds) : ds ≠ [] := by
  cases hw <;> simp

theorem length_le_written (cs : List Char) :
    cs.length ≤ (cs.flatMap (Json.escapedChar false)).length := by
  induction cs with
  | nil => exact Nat.le_refl _
  | cons c cs ih =>
    have hp := List.length_pos_iff.mpr (written_ne_nil (written_escapedChar c))
    rw [List.flatMap_cons, List.length_append, List.length_cons]
    omega

/-- No control character stands in a text. -/
def Visible (cs : List Char) : Prop := ∀ c ∈ cs, 32 ≤ c.toNat

theorem visible_append {cs ds : List Char} (hc : Visible cs) (hd : Visible ds) :
    Visible (cs ++ ds) := by
  intro c h
  exact (List.mem_append.mp h).elim (hc c) (hd c)

theorem visible_cons {c : Char} {cs : List Char} (hc : 32 ≤ c.toNat) (hcs : Visible cs) :
    Visible (c :: cs) := by
  intro d h
  rcases List.mem_cons.mp h with rfl | h
  · exact hc
  · exact hcs d h

theorem written_visible {c : Char} {ds : List Char} (hw : Written c ds) : Visible ds := by
  cases hw with
  | letter e he =>
    have hl : ∀ p ∈ letters, 32 ≤ p.1.toNat := by decide
    intro d hd
    rcases List.mem_cons.mp hd with rfl | hd
    · decide
    · rw [List.mem_singleton.mp hd]
      exact hl _ he
  | code hn =>
    have hall : (hexText 4 c.toNat).all (fun d => 32 ≤ d.toNat) = true := by
      generalize c.toNat = n at hn
      interval_cases n <;> decide
    have hx : ∀ d ∈ hexText 4 c.toNat, 32 ≤ d.toNat := by
      simpa using hall
    intro d hd
    rcases List.mem_cons.mp hd with rfl | hd
    · decide
    rcases List.mem_cons.mp hd with rfl | hd
    · decide
    · exact hx d hd
  | plain hn hq hb =>
    intro d hd
    rwa [List.mem_singleton.mp hd]

theorem string_visible (cs : List Char) : Visible (Json.string false cs) := by
  refine visible_cons (by decide) (visible_append ?_ (visible_cons (by decide) (by simp [Visible])))
  intro c hc
  obtain ⟨d, -, hd⟩ := List.mem_flatMap.mp hc
  exact written_visible (written_escapedChar d) c hd

end Reckoner.Proofs.Quoting
