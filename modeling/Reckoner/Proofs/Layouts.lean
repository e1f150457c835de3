import Reckoner.Proofs.ReadBack
import Reckoner.Proofs.Spellings

namespace Reckoner.Proofs.Layouts
open Binary64 Spellings Digits Numeral ReadBack Rounding

/-- How a layout spells a decimal. -/
def spelling (l : Layout) (d : Decimal) : Spelling :=
  if l.lowest ≤ d.point && d.point ≤ l.highest then
    if d.point ≤ 0 then ⟨[0], List.replicate d.point.natAbs 0 ++ d.digits, none⟩
    else if d.digits.length ≤ d.point then
      ⟨d.digits ++ List.replicate (d.point.toNat - d.digits.length) 0,
        if l.marksWhole then [0] else [], none⟩
    else ⟨d.digits.take d.point.toNat, d.digits.drop d.point.toNat, none⟩
  else
    let es := decimalDigits (d.point - 1).natAbs
    ⟨d.digits.take 1, d.digits.drop 1,
      some (d.point - 1 < 0, List.replicate (l.exponentWidth - es.length) 0 ++ es)⟩

theorem digitsText_append (xs ys : List Nat) :
    digitsText (xs ++ ys) = digitsText xs ++ digitsText ys := List.map_append

theorem digitsText_zeros (n : Nat) : digitsText (List.replicate n 0) = List.replicate n '0' :=
  List.map_replicate

theorem fractionText_ne {fs : List Nat} (h : fs ≠ []) :
    Spelling.fractionText fs = '.' :: digitsText fs := by
  cases fs with
  | nil => contradiction
  | cons f fs => rfl

/-- The text of a decimal is its spelling. -/
theorem text_eq (l : Layout) {d : Decimal} (hd : d.digits ≠ []) :
    d.text l = (spelling l d).text := by
  have hp := List.length_pos_iff.mpr hd
  unfold Decimal.text spelling
  split
  · unfold Decimal.positional
    dsimp only
    rw [List.length_map]
    split
    · rw [Spelling.text, fractionText_ne (by simp [hd]), digitsText_append, digitsText_zeros]
      simp [digitsText, Spelling.exponentText]
      rfl
    · split
      · rw [Spelling.text, digitsText_append, digitsText_zeros]
        cases l.marksWhole <;> simp [Spelling.exponentText, Spelling.fractionText, digitsText]
        rfl
      · rw [Spelling.text, fractionText_ne]
        · simp [digitsText, Spelling.exponentText]
        · simp
          omega
  · obtain ⟨x, xs, hx⟩ := List.exists_cons_of_ne_nil hd
    unfold Decimal.scientific
    dsimp only
    rw [hx, Spelling.text, Spelling.exponentText, digitsText_append, digitsText_zeros]
    cases xs with
    | nil => simp [digitsText, Spelling.fractionText, natText]
    | cons y ys => simp [digitsText, Spelling.fractionText, natText]

/-- Decimal digits without needless zeros in front. -/
structure Proper (d : Decimal) : Prop where
  digits : AllDigits d.digits
  leading : ∃ x xs, d.digits = x :: xs ∧ x ≠ 0

theorem Proper.ne_nil {d : Decimal} (h : Proper d) : d.digits ≠ [] := by
  obtain ⟨x, xs, hx, -⟩ := h.leading
  simp [hx]

theorem allDigits_append {xs ys : List Nat} (hx : AllDigits xs) (hy : AllDigits ys) :
    AllDigits (xs ++ ys) := by
  intro d hd
  exact (List.mem_append.mp hd).elim (hx d) (hy d)

theorem allDigits_zeros (n : Nat) : AllDigits (List.replicate n 0) := by
  intro d hd
  rw [(List.mem_replicate.mp hd).2]
  omega

theorem decimalDigits_ne_nil (n : Nat) : decimalDigits n ≠ [] := by
  rcases Nat.eq_zero_or_pos n with rfl | hn
  · simp [decimalDigits, decimalDigits.go]
  · rw [decimalDigits_eq hn, ne_eq, List.reverse_eq_nil_iff]
    exact Nat.digits_ne_nil_iff_ne_zero.mpr (by omega)

theorem decimalDigits_leading {n : Nat} (hn : 0 < n) {x : Nat} {xs : List Nat}
    (h : decimalDigits n = x :: xs) : x ≠ 0 := by
  have hlast := Nat.getLast_digit_ne_zero 10 (m := n) (by omega)
  have hh : (decimalDigits n).head? = some x := by rw [h]; rfl
  rw [decimalDigits_eq hn, List.head?_reverse,
    List.getLast?_eq_some_getLast (Nat.digits_ne_nil_iff_ne_zero.mpr (by omega)),
    Option.some.injEq] at hh
  rwa [hh] at hlast

theorem spelling_regular (l : Layout) {d : Decimal} (hd : Proper d) : (spelling l d).Regular := by
  obtain ⟨x, xs, hx, h0⟩ := hd.leading
  have ht : ∀ n, AllDigits (d.digits.take n) := fun n y hy => hd.digits y (List.mem_of_mem_take hy)
  have hr : ∀ n, AllDigits (d.digits.drop n) := fun n y hy => hd.digits y (List.mem_of_mem_drop hy)
  unfold spelling
  split
  · split
    · exact ⟨by simp [AllDigits], allDigits_append (allDigits_zeros _) hd.digits, by simp, .inl rfl⟩
    · split
      · refine ⟨allDigits_append hd.digits (allDigits_zeros _), ?_, by simp, ?_⟩
        · cases l.marksWhole <;> simp [AllDigits]
        · exact .inr ⟨x, xs ++ _, by rw [hx]; rfl, h0⟩
      · refine ⟨ht _, hr _, by simp, .inr ⟨x, xs.take (d.point.toNat - 1), ?_, h0⟩⟩
        dsimp only
        rw [hx, List.take_cons (by omega)]
  · refine ⟨ht 1, hr 1, ?_, .inr ⟨x, [], by dsimp only; rw [hx]; rfl, h0⟩⟩
    intro negative es he
    simp only [Option.some.injEq, Prod.mk.injEq] at he
    rw [← he.2]
    refine ⟨by simp [decimalDigits_ne_nil], ?_⟩
    exact allDigits_append (allDigits_zeros _) (decimalDigits_lt _)

theorem natOf_append (xs ys : List Nat) :
    natOf (xs ++ ys) = natOf xs * 10 ^ ys.length + natOf ys := by
  have h : ∀ n, ys.foldl (fun n d => 10 * n + d) n = n * 10 ^ ys.length + natOf ys := by
    induction ys with
    | nil => simp [natOf]
    | cons y ys ih =>
      intro n
      have hy : natOf (y :: ys) = y * 10 ^ ys.length + natOf ys := by
        rw [natOf, List.foldl_cons, ih, Nat.mul_zero, Nat.zero_add]
      rw [List.foldl_cons, ih, hy, List.length_cons, pow_succ]
      ring
  rw [natOf, List.foldl_append, h]
  rfl

theorem natOf_zeros (n : Nat) : natOf (List.replicate n 0) = 0 := by
  induction n with
  | zero => rfl
  | succ n ih =>
    rw [List.replicate_succ', natOf_append, ih]
    rfl

theorem natOf_zeros_append (n : Nat) (ds : List Nat) :
    natOf (List.replicate n 0 ++ ds) = natOf ds := by
  rw [natOf_append, natOf_zeros, Nat.zero_mul, Nat.zero_add]

theorem natOf_append_zeros (ds : List Nat) (n : Nat) :
    natOf (ds ++ List.replicate n 0) = natOf ds * 10 ^ n := by
  rw [natOf_append, natOf_zeros, List.length_replicate, Nat.add_zero]

theorem natOf_eq_ofDigits (ds : List Nat) : natOf ds = Nat.ofDigits 10 ds.reverse := by
  induction ds using List.reverseRecOn with
  | nil => rfl
  | append_singleton ds d ih =>
    rw [natOf_append, ih, List.reverse_append, List.reverse_singleton, List.singleton_append,
      Nat.ofDigits_cons]
    simp [natOf]
    ring

theorem natOf_lt {ds : List Nat} (hd : AllDigits ds) : natOf ds < 10 ^ ds.length := by
  rw [natOf_eq_ofDigits, ← List.length_reverse]
  exact Nat.ofDigits_lt_base_pow_length (by omega) fun d hm => hd d (List.mem_reverse.mp hm)

theorem natOf_decimalDigits (n : Nat) : natOf (decimalDigits n) = n := by
  rcases Nat.eq_zero_or_pos n with rfl | hn
  · rfl
  · rw [natOf_eq_ofDigits, decimalDigits_eq hn, List.reverse_reverse, Nat.ofDigits_digits]

/-- A spelling has the value of its decimal; zeros that end a whole part count for both. -/
theorem spelling_value (l : Layout) {d : Decimal} (hd : d.digits ≠ []) :
    ∃ k : Nat, (spelling l d).digits = natOf d.digits * 10 ^ k ∧
      (spelling l d).scale = d.point - d.digits.length - k := by
  have hp := List.length_pos_iff.mpr hd
  unfold spelling
  split
  · split
    · refine ⟨0, ?_, ?_⟩
      · rw [Spelling.digits, ← List.append_assoc, show [0] = List.replicate 1 0 from rfl,
          ← List.replicate_add, natOf_zeros_append, Nat.pow_zero, Nat.mul_one]
      · simp only [Spelling.scale, Spelling.power, List.length_append, List.length_replicate]
        omega
    · split
      · cases l.marksWhole with
        | true =>
          refine ⟨d.point.toNat - d.digits.length + 1, ?_, ?_⟩
          · rw [Spelling.digits, if_pos rfl, List.append_assoc,
              show [0] = List.replicate 1 0 from rfl, ← List.replicate_add, natOf_append_zeros]
          · simp only [Spelling.scale, Spelling.power, if_pos, List.length_singleton]
            omega
        | false =>
          refine ⟨d.point.toNat - d.digits.length, ?_, ?_⟩
          · simp only [Spelling.digits, Bool.false_eq_true, ↓reduceIte, List.append_nil,
              natOf_append_zeros]
          · simp only [Spelling.scale, Spelling.power, Bool.false_eq_true, ↓reduceIte,
              List.length_nil]
            omega
      · refine ⟨0, ?_, ?_⟩
        · simp only [Spelling.digits, List.take_append_drop, Nat.pow_zero, Nat.mul_one]
        · simp only [Spelling.scale, Spelling.power, List.length_drop]
          omega
  · refine ⟨0, ?_, ?_⟩
    · simp only [Spelling.digits, List.take_append_drop, Nat.pow_zero, Nat.mul_one]
    · simp only [Spelling.scale, Spelling.power, List.length_drop, natOf_zeros_append,
        natOf_decimalDigits]
      split
      · next h =>
        simp at h
        omega
      · next h =>
        simp at h
        omega

theorem ofScaled_digits {c : Nat} (hc : 0 < c) (e : Int) :
    (Decimal.ofScaled c e).digits = (Decimal.ofScaled c 0).digits := by
  rw [ofScaled_eq hc, ofScaled_eq hc]

theorem ofScaled_proper {c : Nat} (hc : 0 < c) (e : Int) : Proper (Decimal.ofScaled c e) := by
  have hd := ofScaled_digits hc e
  have happ := decimalDigits_eq_append hc
  have hne : (Decimal.ofScaled c 0).digits ≠ [] := by
    have hs := significance_pos hc
    rw [ofScaled_eq hc, ← List.length_pos_iff, List.length_reverse]
    exact hs
  obtain ⟨x, xs, hx⟩ := List.exists_cons_of_ne_nil hne
  constructor
  · intro y hy
    apply decimalDigits_lt c
    rw [happ, ← hd]
    exact List.mem_append_left _ hy
  · refine ⟨x, xs, by rw [hd, hx], ?_⟩
    exact decimalDigits_leading hc (by rw [happ, hx]; rfl)

/-- Trailing zeros that were dropped belong to the exponent. -/
theorem ofScaled_value {c : Nat} (hc : 0 < c) (e : Int) :
    ∃ z : Nat, natOf (Decimal.ofScaled c e).digits * 10 ^ z = c ∧
      (Decimal.ofScaled c e).point - (Decimal.ofScaled c e).digits.length = e + z := by
  have happ := congrArg natOf (decimalDigits_eq_append hc)
  rw [natOf_decimalDigits, natOf_append_zeros] at happ
  have hs := significance_le_width c
  refine ⟨width c - significance c, by rw [ofScaled_digits hc e, ← happ], ?_⟩
  rw [ofScaled_eq hc, List.length_reverse, ← significance]
  dsimp only
  omega

/-- A decimal that is written without trailing zeros. -/
def Normal (d : Decimal) : Prop := ∃ c e, 0 < c ∧ d = Decimal.ofScaled c e

theorem Normal.proper {d : Decimal} (h : Normal d) : Proper d := by
  obtain ⟨c, e, hc, rfl⟩ := h
  exact ofScaled_proper hc e

/-- A decimal can be told from its spelling, whatever the layout. -/
theorem Normal.of_spelling {d : Decimal} (h : Normal d) (l : Layout) :
    Decimal.ofScaled (spelling l d).digits (spelling l d).scale = d := by
  have hne := h.proper.ne_nil
  obtain ⟨c, e, hc, rfl⟩ := h
  obtain ⟨k, hk, hs⟩ := spelling_value l hne
  obtain ⟨z, hz, hp⟩ := ofScaled_value hc e
  have hpos : 0 < natOf (Decimal.ofScaled c e).digits := by
    apply Nat.pos_of_ne_zero
    intro h0
    rw [h0, Nat.zero_mul] at hz
    omega
  rw [hk, hs, ofScaled_mul_pow hpos, sub_add_cancel, hp, ← ofScaled_mul_pow hpos, hz]

/-- So two layouts write no two decimals alike. -/
theorem Normal.text_inj {d d' : Decimal} (h : Normal d) (h' : Normal d') {l l' : Layout}
    (he : d.text l = d'.text l') : spelling l d = spelling l' d' ∧ d = d' := by
  rw [text_eq l h.proper.ne_nil, text_eq l' h'.proper.ne_nil] at he
  have hs := (spelling_regular l h.proper).text_inj (spelling_regular l' h'.proper) he
  refine ⟨hs, ?_⟩
  rw [← h.of_spelling l, hs, h'.of_spelling l']

def naturalSpelling (n : Nat) : Spelling := ⟨decimalDigits n, [], none⟩

theorem naturalSpelling_text (n : Nat) : (naturalSpelling n).text = natText n := by
  simp [naturalSpelling, Spelling.text, Spelling.fractionText, Spelling.exponentText, natText,
    digitsText]

theorem naturalSpelling_regular (n : Nat) : (naturalSpelling n).Regular := by
  refine ⟨decimalDigits_lt n, by simp [naturalSpelling, AllDigits],
    by simp [naturalSpelling], ?_⟩
  rcases Nat.eq_zero_or_pos n with rfl | hn
  · exact .inl rfl
  · obtain ⟨x, xs, hx⟩ := List.exists_cons_of_ne_nil (decimalDigits_ne_nil n)
    exact .inr ⟨x, xs, hx, decimalDigits_leading hn hx⟩

theorem intText_eq (n : Int) :
    intText n = (if n < 0 then ['-'] else []) ++ (naturalSpelling n.natAbs).text := by
  rw [naturalSpelling_text, intText]
  split <;> rfl

/-- A layout whose decimals read back. -/
def Faithful (l : Layout) : Prop :=
  ∀ m, 0 < m → m < magnitudes → ∃ c e, l.digits m = Decimal.ofScaled c e ∧
    (interval m).holds c e = true

theorem literal_faithful : Faithful .literal := fun _ hm hlt => shortest_holds hm hlt

theorem answer_faithful : Faithful .answer := fun _ hm hlt => shortest_holds hm hlt

theorem snippet_faithful : Faithful .snippet := fun _ hm hlt => rounded_holds hm hlt

def magnitudeSpelling (l : Layout) (m : Nat) : Spelling :=
  if m = 0 then ⟨[0], if l.marksWhole then [0] else [], none⟩ else spelling l (l.digits m)

variable {l : Layout} {m : Nat}

theorem normal_digits (hl : Faithful l) (hm : m ≠ 0) (hlt : m < magnitudes) :
    Normal (l.digits m) := by
  obtain ⟨c, e, hd, hh⟩ := hl m (Nat.pos_of_ne_zero hm) hlt
  exact ⟨c, e, pos_of_holds (Nat.pos_of_ne_zero hm) hh, hd⟩

/-- The digits themselves are in the interval, at the place that the point gives them. -/
theorem digits_hold (hl : Faithful l) (hm : m ≠ 0) (hlt : m < magnitudes) :
    (interval m).holds (natOf (l.digits m).digits)
      ((l.digits m).point - (l.digits m).digits.length) = true := by
  obtain ⟨c, e, hd, hh⟩ := hl m (Nat.pos_of_ne_zero hm) hlt
  obtain ⟨z, hz, hp⟩ := ofScaled_value (pos_of_holds (Nat.pos_of_ne_zero hm) hh) e
  rw [hd, hp, ← holds_mul_pow, hz]
  exact hh

theorem proper_digits (hl : Faithful l) (hm : m ≠ 0) (hlt : m < magnitudes) :
    Proper (l.digits m) := (normal_digits hl hm hlt).proper

theorem magnitudeSpelling_regular (hl : Faithful l) (hlt : m < magnitudes) :
    (magnitudeSpelling l m).Regular := by
  unfold magnitudeSpelling
  split
  · refine ⟨by simp [AllDigits], ?_, by simp, .inl rfl⟩
    cases l.marksWhole <;> simp [AllDigits]
  · next hm => exact spelling_regular l (proper_digits hl hm hlt)

def signText (l : Layout) (negative : Bool) (m : Nat) : List Char :=
  if negative && (m ≠ 0 || l.signsZero) then ['-'] else []

/-- The text of a finite number is its sign and the spelling of its magnitude. -/
theorem text_fin (hl : Faithful l) (negative : Bool) (m : Fin magnitudes) :
    (Binary64.fin negative m).text l =
      signText l negative m ++ (magnitudeSpelling l m).text := by
  unfold Binary64.text signText magnitudeSpelling
  by_cases hm : m.val = 0
  · simp only [hm, ↓reduceIte, ne_eq, not_true_eq_false, decide_false, Bool.false_or]
    cases l.marksWhole <;> rfl
  · simp only [hm, ↓reduceIte, ne_eq, not_false_eq_true, decide_true, Bool.true_or, Bool.and_true]
    rw [text_eq l (proper_digits hl hm m.isLt).ne_nil]

/-- The spelling of a magnitude is read as that magnitude. -/
theorem ofDecimal_magnitude (hl : Faithful l) (negative : Bool) (hlt : m < magnitudes) :
    ofDecimal negative (magnitudeSpelling l m).digits (magnitudeSpelling l m).scale =
      .fin negative ⟨m, hlt⟩ := by
  by_cases hm : m = 0
  · subst m
    have hd : (magnitudeSpelling l 0).digits = 0 := by
      rw [magnitudeSpelling, if_pos rfl, Spelling.digits]
      cases l.marksWhole <;> rfl
    rw [hd, ofDecimal, if_pos rfl]
    rfl
  · obtain ⟨k, hk, hs⟩ := spelling_value l (proper_digits hl hm hlt).ne_nil
    rw [magnitudeSpelling, if_neg hm]
    refine ofDecimal_eq (Nat.pos_of_ne_zero hm) hlt ?_ negative
    -- Zeros are moved from the exponent back to the digits.
    rw [hk, holds_mul_pow, hs, sub_add_cancel]
    exact digits_hold hl hm hlt

theorem number_of_not_numeral {s : Spelling} (hs : ¬ s.IsNumeral) :
    s.number = ofDecimal false s.digits s.scale := by
  obtain ⟨ws, fs, e⟩ := s
  cases fs with
  | cons f fs => rfl
  | nil =>
    cases e with
    | none => exact absurd ⟨rfl, rfl⟩ hs
    | some p => rfl

/-- A layout that marks whole numbers writes no numeral of an integer. -/
theorem marked_not_numeral (hl : Faithful l) (hw : l.marksWhole = true) (hlt : m < magnitudes) :
    ¬ (magnitudeSpelling l m).IsNumeral := by
  rintro ⟨hf, he⟩
  unfold magnitudeSpelling spelling at hf he
  by_cases hm : m = 0
  · simp [hm, hw] at hf
  · have hne := (proper_digits hl hm hlt).ne_nil
    rw [if_neg hm] at hf he
    split at hf
    · split at hf
      · simp [hne] at hf
      · split at hf
        · simp at hf
        · rw [List.drop_eq_nil_iff] at hf
          omega
    · next h => simp [h] at he

/-- A snippet reads the literal of a magnitude as that magnitude. -/
theorem literal_number (hlt : m < magnitudes) :
    (magnitudeSpelling .literal m).number = .fin false ⟨m, hlt⟩ := by
  rw [number_of_not_numeral (marked_not_numeral literal_faithful rfl hlt),
    ofDecimal_magnitude literal_faithful]

end Reckoner.Proofs.Layouts
