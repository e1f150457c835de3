import Reckoner.Proofs.Crossing
import Reckoner.Proofs.JsonTexts
import Reckoner.Proofs.NearestDigits

namespace Reckoner.Proofs.Labels
open Binary64 Aggregate Snippet Text Crossing Integers Digits Rounding ReadBack Spellings Layouts

variable {m n : Nat}

theorem ofScaled_point (hn : 0 < n) : (Decimal.ofScaled n 0).point = width n := by
  rw [ofScaled_eq hn, zero_add]

theorem width_le_iff (n k : Nat) : width n ≤ k ↔ n < 10 ^ k :=
  Nat.digits_length_le_iff (by omega) n

/-- A snippet writes a decimal as a numeral if that is its value and fits before the point. -/
theorem text_natural_iff {d : Decimal} (hd : Normal d) (hn : 0 < n) :
    d.text .snippet = natText n ↔ d = Decimal.ofScaled n 0 ∧ n < 10 ^ 21 := by
  rw [← width_le_iff]
  constructor
  · intro h
    rw [text_eq _ hd.proper.ne_nil, ← naturalSpelling_text] at h
    have hs := (spelling_regular _ hd.proper).text_inj (naturalSpelling_regular n) h
    have hv : d = Decimal.ofScaled n 0 := by
      rw [← hd.of_spelling .snippet, hs, JsonTexts.naturalSpelling_digits]
      rfl
    refine ⟨hv, ?_⟩
    have he := congrArg Spelling.exponent hs
    have hp : d.point = width n := by rw [hv, ofScaled_point hn]
    unfold spelling at he
    split at he
    · next hin =>
      rw [Bool.and_eq_true, decide_eq_true_eq, decide_eq_true_eq] at hin
      exact Int.ofNat_le.mp (hp ▸ hin.2)
    · cases he
  · rintro ⟨rfl, hw⟩
    exact IntegerText.decimal_text hn hw

/-- About a number with a fraction, all numbers are below `2 ^ 53`. -/
theorem high_of_fraction (hm : 0 < m) (hf : gridOf m % unit ≠ 0) :
    (interval m).high ≤ 2 ^ 53 * unit := by
  obtain ⟨e, s, hp⟩ := exists_placed hm
  have he : e < 1074 := by
    by_contra he
    refine hf (Nat.mod_eq_zero_of_dvd ?_)
    rw [hp.value, unit_eq]
    exact Dvd.dvd.mul_left (pow_dvd_pow 2 (by omega)) s
  obtain ⟨k, hk⟩ : ∃ k, 1074 = e + 1 + k := ⟨1073 - e, by omega⟩
  have hs := hp.small
  have hle : (2 * s + 1) * 2 ^ e ≤ 2 ^ 54 * 2 ^ e := Nat.mul_le_mul_right _ (by omega)
  calc (interval m).high = (2 * s + 1) * 2 ^ e := by
        rw [interval, hp.value, hp.above]
        ring
    _ ≤ 2 ^ 54 * 2 ^ e := hle
    _ ≤ 2 ^ 54 * 2 ^ e * 2 ^ k := Nat.le_mul_of_pos_right _ (by positivity)
    _ = 2 ^ 53 * unit := by rw [unit_eq, hk]; ring

/-- A natural that reads back as a magnitude is nearest to it. -/
theorem nearest_of_holds (hm : 0 < m) (h : (interval m).holds n 0 = true) :
    nearest (n * unit) 1 = m := by
  rw [holds_iff_between, if_neg (by omega)] at h
  rw [nearest_eq hm Nat.one_pos]
  simpa [interval, Nat.mul_left_comm] using h

/-- No natural reads back as a number with a fraction. -/
theorem natural_not_holds (hm : 0 < m) (hf : gridOf m % unit ≠ 0) (n : Nat) :
    (interval m).holds n 0 = false := by
  rw [← Bool.not_eq_true]
  intro h
  have hnear := nearest_of_holds hm h
  have hhigh := high_of_fraction hm hf
  have hu := unit_pos
  rw [holds_iff_between, if_neg (by omega)] at h
  have hle := h.le.2
  rw [Int.natAbs_zero, Nat.pow_zero, Nat.mul_one, Nat.mul_left_comm] at hle
  have hb : n < 2 ^ 53 := by
    apply Nat.lt_of_mul_lt_mul_right (a := unit)
    omega
  rcases Nat.eq_zero_or_pos n with rfl | hpos
  · rw [Nat.zero_mul] at hnear
    exact hm.ne' (hnear.symm.trans (by decide +kernel))
  · rw [nearest_integer hpos hb] at hnear
    rw [← hnear, gridOf_magnitude hpos hb, Nat.mul_mod_left] at hf
    exact hf rfl

variable {d : Decimal}

theorem pow_le_natOf (hd : Proper d) :
    10 ^ (d.digits.length - 1) ≤ Numeral.natOf d.digits := by
  obtain ⟨x, xs, hx, h0⟩ := hd.leading
  have hv : Numeral.natOf (x :: xs) = x * 10 ^ xs.length + Numeral.natOf xs := by
    rw [← List.singleton_append, natOf_append]
    simp [Numeral.natOf]
  have hle : 1 * 10 ^ xs.length ≤ x * 10 ^ xs.length := Nat.mul_le_mul_right _ (by omega)
  rw [hx, hv, List.length_cons, Nat.add_sub_cancel]
  omega

section Decimals

variable (hm : 0 < m) (hf : gridOf m % unit ≠ 0)
  (hh : (interval m).holds (Numeral.natOf d.digits) (d.point - d.digits.length) = true)
include hm hf hh

/-- The decimal of a number with a fraction has digits behind the point. -/
theorem point_lt_length : d.point < d.digits.length := by
  by_contra hge
  obtain ⟨k, hk⟩ : ∃ k : Nat, d.point - d.digits.length = 0 + k :=
    ⟨(d.point - d.digits.length).toNat, by omega⟩
  rw [hk, ← holds_mul_pow, natural_not_holds hm hf] at hh
  cases hh

/-- It has 16 digits before the point at most. -/
theorem point_le (hd : Proper d) : d.point ≤ 16 := by
  have hfrac := point_lt_length hm hf hh
  have hhigh := high_of_fraction hm hf
  have hq := pow_le_natOf hd
  by_contra hlong
  rw [holds_iff_between, if_pos (by omega)] at hh
  obtain ⟨j, hj⟩ : ∃ j, d.digits.length - 1 = (d.point - d.digits.length).natAbs + (16 + j) :=
    ⟨d.point.toNat - 17, by omega⟩
  rw [hj, pow_add, pow_add] at hq
  have hp : 0 < 10 ^ (d.point - d.digits.length).natAbs * unit :=
    Nat.mul_pos (by positivity) unit_pos
  have hcut : 10 ^ (d.point - d.digits.length).natAbs * unit * (2 * 10 ^ 16) ≤
      10 ^ (d.point - d.digits.length).natAbs * unit * 2 ^ 53 := by
    have hle := hh.le.2
    generalize 10 ^ (d.point - d.digits.length).natAbs = f at *
    calc f * unit * (2 * 10 ^ 16) ≤ f * unit * (2 * 10 ^ 16) * 10 ^ j :=
          Nat.le_mul_of_pos_right _ (by positivity)
      _ = f * (10 ^ 16 * 10 ^ j) * (2 * unit) := by ring
      _ ≤ Numeral.natOf d.digits * (2 * unit) := Nat.mul_le_mul_right _ hq
      _ ≤ (interval m).high * f := hle
      _ ≤ 2 ^ 53 * unit * f := Nat.mul_le_mul_right _ hhigh
      _ = f * unit * 2 ^ 53 := by ring
  exact absurd (Nat.le_of_mul_le_mul_left hcut hp) (by decide)

end Decimals

variable {l : Layout}

theorem spelling_positional (hl : l.lowest ≤ d.point) (hh : d.point ≤ l.highest)
    (hf : d.point < d.digits.length) :
    spelling l d =
      if d.point ≤ 0 then ⟨[0], List.replicate d.point.natAbs 0 ++ d.digits, none⟩
      else ⟨d.digits.take d.point.toNat, d.digits.drop d.point.toNat, none⟩ := by
  unfold spelling
  have hn : ¬ (d.digits.length : Int) ≤ d.point := by omega
  rw [if_pos (by simp [hl, hh]), if_neg hn]

theorem spelling_scientific (hl : d.point < l.lowest) (h0 : 0 < (d.point - 1).natAbs) :
    spelling l d = ⟨d.digits.take 1, d.digits.drop 1, some (d.point - 1 < 0,
      List.replicate (l.exponentWidth - width (d.point - 1).natAbs) 0 ++
        decimalDigits (d.point - 1).natAbs)⟩ := by
  unfold spelling
  rw [if_neg (by simp [hl])]
  simp only [decimalDigits_eq h0, List.length_reverse, width]

/-- Digits on both sides of the point are spelt alike by answers and snippets, unless an answer has
an exponent and a snippet has none or one of one digit. -/
theorem spellings_agree_iff (hf : d.point < d.digits.length) (hp : d.point ≤ 16) :
    spelling .answer d = spelling .snippet d ↔ ¬ (-8 ≤ d.point ∧ d.point ≤ -4) := by
  by_cases h3 : -3 ≤ d.point
  · have hl : Layout.snippet.lowest ≤ d.point := (show (-5 : Int) ≤ -3 by decide).trans h3
    have hh : d.point ≤ Layout.snippet.highest := hp.trans (show (16 : Int) ≤ 21 by decide)
    have ha := spelling_positional (l := .answer) h3 hp hf
    exact iff_of_true (ha.trans (spelling_positional hl hh hf).symm) (by omega)
  have h0 : 0 < (d.point - 1).natAbs := by omega
  rw [spelling_scientific (l := .answer) (not_le.mp h3) h0]
  by_cases h5 : -5 ≤ d.point
  · have hh : d.point ≤ Layout.snippet.highest := hp.trans (show (16 : Int) ≤ 21 by decide)
    rw [spelling_positional (l := .snippet) h5 hh hf, if_pos (by omega)]
    refine iff_of_false (fun h => ?_) (by omega)
    cases congrArg Spelling.exponent h
  · have hw := width_le_iff (d.point - 1).natAbs 1
    have hwa : Layout.answer.exponentWidth = 2 := rfl
    have hws : Layout.snippet.exponentWidth = 1 := rfl
    rw [spelling_scientific (l := .snippet) (not_le.mp h5) h0]
    simp only [Spelling.mk.injEq, true_and, Option.some.injEq, Prod.mk.injEq,
      List.append_cancel_right_eq, List.replicate_inj, hwa, hws]
    omega

/-- A number that its label spells in another way than a snippet does. -/
inductive Respelt : Binary64 → Prop where
  /-- The digits of a snippet, padded with zeros, are another integer. -/
  | padded {s : Bool} {m : Fin magnitudes} {n : Nat} (hb : 2 ^ 53 ≤ n) (hn : gridOf m = n * unit)
    (hd : rounded m ≠ .ofScaled n 0) : Respelt (.fin s m)
  /-- An integer is long enough for a snippet to write an exponent. -/
  | long {s : Bool} {m : Fin magnitudes} {n : Nat} (hl : 10 ^ 21 ≤ n) (hn : gridOf m = n * unit) :
    Respelt (.fin s m)
  /-- The fewest digits of a fraction that is a power of two are not the nearest ones. -/
  | power {s : Bool} {m : Fin magnitudes} (hp : m % fractions = 0) (hf : gridOf m % unit ≠ 0)
    (hd : shortest m ≠ rounded m) : Respelt (.fin s m)
  /-- A fraction is small enough for an exponent, but not for one of two digits in a snippet. -/
  | exponent {s : Bool} {m : Fin magnitudes} (hf : gridOf m % unit ≠ 0)
    (hp : -8 ≤ (shortest m).point ∧ (shortest m).point ≤ -4) : Respelt (.fin s m)

theorem pos_of_fraction (hf : gridOf m % unit ≠ 0) : 0 < m := by
  apply Nat.pos_of_ne_zero
  rintro rfl
  exact hf (by decide +kernel)

theorem ne_zero_of_whole (h0 : 0 < n) (hn : gridOf m = n * unit) : m ≠ 0 := by
  rintro rfl
  rw [show gridOf 0 = 0 by decide +kernel] at hn
  exact (Nat.mul_pos h0 unit_pos).ne hn

theorem fraction_texts {m : Fin magnitudes} (hf : gridOf m % unit ≠ 0) (s : Bool) :
    (shortest m).text .answer = (rounded m).text .snippet ↔ ¬ Respelt (.fin s m) := by
  have hm := pos_of_fraction hf
  have hd : Normal (shortest m) := normal_digits answer_faithful hm.ne' m.isLt
  have hd' : Normal (rounded m) := normal_digits snippet_faithful hm.ne' m.isLt
  have hspell : spelling .answer (shortest m) = spelling .snippet (shortest m) ↔
      ¬ (-8 ≤ (shortest m).point ∧ (shortest m).point ≤ -4) := by
    have hh := digits_hold answer_faithful hm.ne' m.isLt
    exact spellings_agree_iff (point_lt_length hm hf hh) (point_le hm hf hh hd.proper)
  constructor
  · intro h hr
    obtain ⟨hs, he⟩ := hd.text_inj hd' h
    cases hr with
    | padded hb hn hd => exact hf (by rw [hn, Nat.mul_mod_left])
    | long hl hn => exact hf (by rw [hn, Nat.mul_mod_left])
    | power hp hf hd => exact hd he
    | exponent hf hp => exact hspell.mp (by rw [hs, he]) hp
  · intro h
    have he : shortest m = rounded m := by
      by_cases hp : m % fractions = 0
      · exact by_contra fun hd => h (.power hp hf hd)
      · exact (NearestDigits.rounded_eq_shortest hm m.isLt hp).symm
    have hp := hspell.mpr fun hp => h (.exponent hf hp)
    rw [text_eq _ hd.proper.ne_nil, text_eq _ hd'.proper.ne_nil, hp, he]

/-- Below `2 ^ 53`, snippets write an integer with its own digits. -/
theorem rounded_of_lt (h0 : 0 < n) (hb : n < 2 ^ 53) (hn : gridOf m = n * unit) :
    rounded m = .ofScaled n 0 := by
  have hm := Nat.pos_of_ne_zero (ne_zero_of_whole h0 hn)
  obtain ⟨hg, hg'⟩ := gaps hm
  have hh : (interval m).holds n 0 = true := by
    rw [holds_iff_between, if_neg (by omega), Int.natAbs_zero, Nat.pow_zero, Nat.mul_one,
      Nat.mul_left_comm, ← hn]
    left
    simp only [interval]
    omega
  have hnear := nearest_of_holds hm hh
  rw [nearest_integer h0 hb] at hnear
  rw [← hnear, IntegerText.rounded_integer h0 hb]

theorem whole_texts {m : Fin magnitudes} (h0 : 0 < n) (hn : gridOf m = n * unit) (s : Bool) :
    natText n = (rounded m).text .snippet ↔ ¬ Respelt (.fin s m) := by
  have hm := ne_zero_of_whole h0 hn
  have hmod : gridOf m % unit = 0 := by rw [hn, Nat.mul_mod_left]
  have heq (k : Nat) (hk : gridOf m = k * unit) : k = n :=
    Nat.eq_of_mul_eq_mul_right unit_pos (hk.symm.trans hn)
  have hd : Normal (rounded m) := normal_digits snippet_faithful hm m.isLt
  rw [eq_comm, text_natural_iff hd h0]
  constructor
  · rintro ⟨hd, hl⟩ hr
    cases hr with
    | padded hb hk hne => exact hne (heq _ hk ▸ hd)
    | long hle hk => exact absurd (heq _ hk ▸ hle) (by omega)
    | power hp hf hd => exact hf hmod
    | exponent hf hp => exact hf hmod
  · intro h
    refine ⟨?_, by_contra fun hl => h (.long (by omega) hn)⟩
    by_cases hb : n < 2 ^ 53
    · exact rounded_of_lt h0 hb hn
    · exact by_contra fun hd => h (.padded (by omega) hn hd)

/-- The label of a whole number is a numeral. -/
theorem floatLabel_whole {m : Fin magnitudes} (hn : gridOf m = n * unit) (s : Bool) :
    floatLabel (.fin s m) = (if s && n ≠ 0 then ['-'] else []) ++ natText n := by
  have hw : (fin s m).isWhole = true := by
    simp [isWhole, hn]
  have ht : (fin s m).trunc? = some (if s then -(n : Int) else n) := by
    cases s with
    | false =>
      rw [trunc?, grid?, Option.map_some, hn, Nat.cast_mul, Int.mul_tdiv_cancel _ unit_ne_zero,
        if_neg Bool.false_ne_true]
    | true =>
      rw [trunc?, grid?, Option.map_some, hn, Nat.cast_mul, Int.neg_tdiv,
        Int.mul_tdiv_cancel _ unit_ne_zero, if_pos rfl]
  rw [floatLabel, if_pos hw, ht, Option.getD_some, intText]
  cases s with
  | false => simp
  | true =>
    by_cases h0 : n = 0
    · simp [h0]
    · simp [h0]

theorem text_fin_of_ne {m : Fin magnitudes} (hm : m.val ≠ 0) (l : Layout) (s : Bool) :
    (fin s m).text l = (if s then ['-'] else []) ++ (l.digits m).text l := if_neg hm

/-- A number has its snippet's text as its label unless it is respelt. -/
theorem floatLabel_eq_iff (x : Binary64) : floatLabel x = x.text .snippet ↔ ¬ Respelt x := by
  cases x with
  | nan => exact iff_of_true rfl nofun
  | inf s => cases s <;> exact iff_of_true rfl nofun
  | fin s m =>
    by_cases hf : gridOf m % unit = 0
    · obtain ⟨n, hn⟩ := Nat.dvd_of_mod_eq_zero hf
      rw [Nat.mul_comm] at hn
      rw [floatLabel_whole hn]
      rcases Nat.eq_zero_or_pos n with rfl | h0
      · rw [Nat.zero_mul] at hn
        have hm : m.val = 0 := by
          by_contra hm
          exact (gridOf_pos (Nat.pos_of_ne_zero hm)).ne hn.symm
        refine iff_of_true ?_ fun hr => ?_
        · rw [Binary64.text, if_pos hm]
          cases s <;> rfl
        · cases hr with
          | padded hb hk hd => exact ne_zero_of_whole (by omega) hk hm
          | long hl hk => exact ne_zero_of_whole (by omega) hk hm
          | power hp hf' hd => exact hf' hf
          | exponent hf' hp => exact hf' hf
      · have hm := ne_zero_of_whole h0 hn
        have hs : (s && decide (n ≠ 0)) = s := by simp [h0.ne']
        rw [← whole_texts h0 hn s, text_fin_of_ne hm, hs, List.append_cancel_left_eq]
        rfl
    · have hm := (pos_of_fraction hf).ne'
      have hw : (fin s m).isWhole = false := by simp [isWhole, hf]
      rw [← fraction_texts hf s, floatLabel, if_neg (by simp [hw]), text_fin_of_ne hm,
        text_fin_of_ne hm, List.append_cancel_left_eq]
      rfl

theorem comma_spelling {s : Spelling} (hs : s.Regular) : ',' ∉ s.text := by
  intro h
  rcases hs.text_chars ',' h with hd | hm
  · cases hd
  · revert hm
    decide

theorem comma_fin {l : Layout} (hl : Faithful l) (s : Bool) (m : Fin magnitudes) :
    ',' ∉ (fin s m).text l := by
  rw [text_fin hl, List.mem_append, not_or]
  refine ⟨?_, comma_spelling (magnitudeSpelling_regular hl m.isLt)⟩
  unfold signText
  split <;> simp

theorem comma_snippet (x : Binary64) : ',' ∉ x.text .snippet := by
  cases x with
  | nan => decide
  | inf s => cases s <;> decide
  | fin s m => exact comma_fin snippet_faithful s m

theorem comma_floatLabel (x : Binary64) : ',' ∉ floatLabel x := by
  cases x with
  | nan => decide
  | inf s => cases s <;> decide
  | fin s m =>
    rw [floatLabel]
    split
    · intro h
      rcases intText_chars _ _ h with h | h <;> cases h
    · exact comma_fin answer_faithful s m

/-- What may follow an element in the text of a list. -/
def Ends (r : List Char) : Prop := ∀ c, r.head? = some c → c = ','

/-- Whatever follows them, two texts are alike exactly under a condition. -/
def Cut (a b : List Char) (p : Prop) : Prop :=
  ∀ r r', Ends r → Ends r' → (a ++ r = b ++ r' ↔ p ∧ r = r')

theorem Cut.alike {a b : List Char} {p : Prop} (h : Cut a b p) : a = b ↔ p := by
  simpa using h [] [] nofun nofun

theorem Cut.congr {a b : List Char} {p q : Prop} (h : Cut a b p) (hpq : p ↔ q) : Cut a b q := by
  intro r r' hr hr'
  rw [h r r' hr hr', hpq]

theorem cut_self (a : List Char) : Cut a a True := by
  intro r r' _ _
  rw [List.append_cancel_left_eq, true_and]

/-- Texts without commas end where a comma follows. -/
theorem cut_of_comma {a b : List Char} (ha : ',' ∉ a) (hb : ',' ∉ b) : Cut a b (a = b) := by
  intro r r' hr hr'
  refine ⟨fun h => ?_, fun h => by rw [h.1, h.2]⟩
  induction a generalizing b with
  | nil =>
    cases b with
    | nil => exact ⟨rfl, h⟩
    | cons c b =>
      have hc := hr c (by rw [List.nil_append] at h; rw [h]; rfl)
      exact absurd (hc ▸ List.mem_cons_self) hb
  | cons c a ih =>
    cases b with
    | nil =>
      have hc := hr' c (by rw [List.nil_append] at h; rw [← h]; rfl)
      exact absurd (hc ▸ List.mem_cons_self) ha
    | cons d b =>
      rw [List.mem_cons, not_or] at ha hb
      rw [List.cons_append, List.cons_append, List.cons.injEq] at h
      obtain ⟨rfl, h⟩ := h
      obtain ⟨rfl, he⟩ := ih ha.2 hb.2 h
      exact ⟨rfl, he⟩

def following (ts : List (List Char)) : List Char := ts.flatMap (',' :: ·)

theorem following_ends (ts : List (List Char)) {r : List Char} (hr : Ends r) :
    Ends (following ts ++ r) := by
  cases ts with
  | nil => exact hr
  | cons t ts =>
    intro c hc
    cases hc
    rfl

theorem intercalate_eq (t : List Char) (ts : List (List Char)) :
    ([','] : List Char).intercalate (t :: ts) = t ++ following ts := by
  induction ts generalizing t with
  | nil => simp [following]
  | cons u us ih =>
    rw [List.intercalate_cons_of_ne_nil (by simp), ih]
    simp [following]

/-- What comes after a cut can be cut in turn. -/
theorem Cut.append {a b : List Char} {p q : Prop} (h : Cut a b p) {ts us : List (List Char)}
    (ht : Cut (following ts) (following us) q) :
    Cut (a ++ following ts) (b ++ following us) (p ∧ q) := by
  intro r r' hr hr'
  rw [List.append_assoc, List.append_assoc,
    h _ _ (following_ends ts hr) (following_ends us hr'), ht r r' hr hr', and_assoc]

theorem cut_cons_iff {a b : List Char} {p : Prop} (c : Char) :
    Cut (c :: a) (c :: b) p ↔ Cut a b p := by
  simp only [Cut, List.cons_append, List.cons.injEq, true_and]

/-- What JSON text writes: integers are exact as floating point numbers, and no member of an object
hides one that every object has. -/
inductive Ordinary : Value → Prop where
  | none : Ordinary .none
  | bool (b : Bool) : Ordinary (.bool b)
  | int (n : Int) (exact : n.natAbs < 2 ^ 53) : Ordinary (.int n)
  | float (x : Binary64) : Ordinary (.float x)
  | str (s : String) : Ordinary (.str s)
  | list (vs : List Value) (elements : ∀ v ∈ vs, Ordinary v) : Ordinary (.list vs)
  | dict (ms : List (String × Value)) (distinct : (ms.map Prod.fst).Nodup)
      (own : ∀ m ∈ ms, m.1 ∉ objectNames) (values : ∀ m ∈ ms, Ordinary m.2) :
      Ordinary (.dict (textKeyed ms))

/-- A number that is respelt, by itself or somewhere in a list. -/
inductive Mislabelled : Value → Prop where
  | float {x : Binary64} (h : Respelt x) : Mislabelled (.float x)
  | list {vs : List Value} {v : Value} (hv : v ∈ vs) (h : Mislabelled v) : Mislabelled (.list vs)

/-- A value has a text in a snippet, and its label is that text unless it is mislabelled. -/
def Told (v : Value) : Prop :=
  ∃ text, (ofValue v).toText = .ok (Units.ofChars text) ∧ Cut (label v) text (¬ Mislabelled v)

theorem ordinary_cases {v : Value} (hv : Ordinary v) :
    v = .none ∨ ofValue v ≠ .undefined ∧ ofValue v ≠ .null := by
  cases hv with
  | none => exact .inl rfl
  | float x => exact .inr ⟨by simp [ofValue], by simp [ofValue]⟩
  | list vs hvs => exact .inr ⟨by simp [ofValue], by simp [ofValue]⟩
  | dict ms hd ho hms =>
    rw [ofValue_plain hd ho]
    exact .inr ⟨by simp, by simp⟩
  | bool b => exact (plain_cases (.bool b)).imp_right And.right
  | int n hn => exact (plain_cases (.int n hn)).imp_right And.right
  | str s => exact (plain_cases (.str s)).imp_right And.right

theorem told_of_plain {v : Value} (hv : Plain v) (hm : ¬ Mislabelled v) : Told v :=
  ⟨label v, plain_toText hv, (cut_self _).congr (iff_of_true trivial hm)⟩

theorem float_told (x : Binary64) : Told (.float x) := by
  refine ⟨x.text .snippet, ?_, ?_⟩
  · rw [ofValue, Guest.toText, Guest.primitiveText, Guest.numberText, literalNumber_value]
    all_goals simp
  · refine (cut_of_comma (comma_floatLabel x) (comma_snippet x)).congr ?_
    rw [floatLabel_eq_iff]
    exact not_congr ⟨.float, fun h => by cases h with | float h => exact h⟩

theorem elementText_cut {v : Value} {text : List Char} (h : Cut (label v) text (¬ Mislabelled v)) :
    Cut (elementText v (label v)) (elementText v text) (¬ Mislabelled v) := by
  cases v
  case none => exact (cut_self []).congr (iff_of_true trivial nofun)
  all_goals exact h

/-- Elements that are told make a list that is. -/
theorem elements_told {vs : List Value} (ho : ∀ v ∈ vs, Ordinary v) (ht : ∀ v ∈ vs, Told v) :
    ∃ ts, ts.length = vs.length ∧
      Guest.elementTexts (ofValues vs) = .ok (ts.map Units.ofChars) ∧
      Cut (following (elementLabels vs)) (following ts) (∀ v ∈ vs, ¬ Mislabelled v) := by
  induction vs with
  | nil => exact ⟨[], rfl, rfl, (cut_self []).congr (by simp)⟩
  | cons v vs ih =>
    obtain ⟨text, hv, hc⟩ := ht v List.mem_cons_self
    obtain ⟨ts, hl, hs, hcs⟩ := ih (fun w hw => ho w (List.mem_cons_of_mem _ hw))
      fun w hw => ht w (List.mem_cons_of_mem _ hw)
    refine ⟨elementText v text :: ts, by simp [hl],
      elementTexts_cons (ordinary_cases (ho v List.mem_cons_self)) hv hs, ?_⟩
    rw [elementLabels_cons, List.forall_mem_cons]
    exact (cut_cons_iff ',').mpr ((elementText_cut hc).append hcs)

theorem list_told {vs : List Value} (ho : ∀ v ∈ vs, Ordinary v) (ht : ∀ v ∈ vs, Told v) :
    Told (.list vs) := by
  obtain ⟨ts, hl, hs, hc⟩ := elements_told ho ht
  have hm : (∀ v ∈ vs, ¬ Mislabelled v) ↔ ¬ Mislabelled (.list vs) :=
    ⟨fun h hl => by cases hl with | list hv hm => exact h _ hv hm, fun h v hv hm => h (.list hv hm)⟩
  refine ⟨[','].intercalate ts, ?_, ?_⟩
  · rw [ofValue, Guest.toText, hs, Except.map, UnitTexts.ofChars_intercalate]
  · rw [label_list]
    cases vs with
    | nil =>
      rw [List.length_eq_zero_iff.mp hl]
      exact (cut_self _).congr (iff_of_true trivial (hm.mp (List.forall_mem_nil _)))
    | cons v vs =>
      obtain ⟨t, ts, rfl⟩ := List.exists_cons_of_length_eq_add_one hl
      rw [elementLabels_cons, intercalate_eq, intercalate_eq]
      rw [elementLabels_cons] at hc
      exact ((cut_cons_iff ',').mp hc).congr hm

/-- A value's label is the text that a snippet gives for it, unless the value is a number that is
respelt or a list that such a number is in. -/
theorem label_eq_text_iff {v : Value} (hv : Ordinary v) :
    ∃ text, (ofValue v).toText = .ok (Units.ofChars text) ∧ (label v = text ↔ ¬ Mislabelled v) := by
  have ht : Told v := by
    induction hv with
    | none => exact told_of_plain .none nofun
    | bool b => exact told_of_plain (.bool b) nofun
    | int n hn => exact told_of_plain (.int n hn) nofun
    | float x => exact float_told x
    | str s => exact told_of_plain (.str s) nofun
    | list vs ho ih => exact list_told ho ih
    | dict ms hd ho hms ih =>
      refine ⟨label (.dict (textKeyed ms)), ?_, (cut_self _).congr (iff_of_true trivial nofun)⟩
      rw [ofValue_plain hd ho, object_toText (member?_ofMembers (own_ne ho (by decide))),
        label_dict]
      rfl
  obtain ⟨text, h, hc⟩ := ht
  exact ⟨text, h, hc.alike⟩

def tenMillionth : Value := .float (.fin false ⟨0x3E7AD7F29ABCAF48, by decide⟩)

/-- A label pads its exponent, a snippet does not. -/
theorem tenMillionth_mislabelled :
    Ordinary (.list [.none, tenMillionth]) ∧
      label (.list [.none, tenMillionth]) = ",1e-07".toList ∧
      (ofValue (.list [.none, tenMillionth])).toText = .ok (Units.ofString ",1e-7") ∧
      Mislabelled (.list [.none, tenMillionth]) := by
  have ho : Ordinary (.list [.none, tenMillionth]) := by
    refine .list _ fun v hv => ?_
    simp only [List.mem_cons, List.not_mem_nil, or_false] at hv
    rcases hv with rfl | rfl
    · exact .none
    · exact .float _
  have hl : label (.list [.none, tenMillionth]) = ",1e-07".toList := by
    decide +kernel
  have ht : (ofValue (.list [.none, tenMillionth])).toText = .ok (Units.ofString ",1e-7") := by
    decide +kernel
  obtain ⟨text, h, hiff⟩ := label_eq_text_iff ho
  refine ⟨ho, hl, ht, by_contra fun hm => ?_⟩
  have he := hiff.mpr hm
  rw [← he, hl, ht, Except.ok.injEq, Units.ofString, UnitTexts.ofChars_inj] at h
  exact absurd h (by decide)

end Reckoner.Proofs.Labels
