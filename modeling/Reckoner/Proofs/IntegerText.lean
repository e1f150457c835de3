import Reckoner.Proofs.Integers

namespace Reckoner.Proofs.IntegerText
open Binary64 Digits Integers

variable {i : Interval} {a : Nat}

/-- Of the multiples of a power of ten, only the integer itself reads back. -/
theorem holds_iff (hi : Around i a) (c k : Nat) : i.holds c k = true ↔ c * 10 ^ k = a := by
  obtain ⟨-, hl, hl', hh, hh'⟩ := hi
  have hk : ¬ (k : Int) < 0 := by omega
  simp only [Interval.holds, if_neg hk, Int.natAbs_natCast, Nat.mul_one, natPow_eq]
  generalize c * 10 ^ k = p
  generalize 2 * unit = u at *
  have h1 : p * u < a * u + u → p ≤ a := by
    intro h
    rw [← Nat.succ_mul] at h
    exact Nat.le_of_lt_succ (Nat.lt_of_mul_lt_mul_right h)
  have h2 : a * u < p * u + u → a ≤ p := by
    intro h
    rw [← Nat.succ_mul] at h
    exact Nat.le_of_lt_succ (Nat.lt_of_mul_lt_mul_right h)
  constructor
  · intro h
    have hb : i.low ≤ p * u ∧ p * u ≤ i.high := by
      split at h <;> simp only [Bool.and_eq_true, decide_eq_true_eq] at h <;> omega
    exact Nat.le_antisymm (h1 (by omega)) (h2 (by omega))
  · rintro rfl
    split <;> simp only [Bool.and_eq_true, decide_eq_true_eq] <;> omega

theorem holds_fraction (hi : Around i a) (k : Nat) : i.holds (a * 10 ^ k) (-k) = true := by
  cases k with
  | zero => exact (holds_iff hi (a * 10 ^ 0) 0).mpr (by simp)
  | succ k =>
    obtain ⟨-, hl, -, hh, -⟩ := hi
    have hk : (-((k + 1 : Nat) : Int)) < 0 := by omega
    have hp : 0 < 10 ^ (k + 1) := by positivity
    simp only [Interval.holds, if_pos hk, Int.natAbs_neg, Int.natAbs_natCast, natPow_eq]
    have hv : a * 10 ^ (k + 1) * (2 * unit) = a * (2 * unit) * 10 ^ (k + 1) := by ring
    rw [hv]
    have h1 := (Nat.mul_lt_mul_right hp).mpr hl
    have h2 := (Nat.mul_lt_mul_right hp).mpr hh
    split <;> simp only [Bool.and_eq_true, decide_eq_true_eq] <;> omega

/-- Bounds of a natural by the power of ten that its binary length suggests. -/
theorem pow_ten_bounds {s : Nat} (hs : 0 < s) (hx : s.log2 ≤ 12000) :
    10 ^ (s.log2 * 30102 / 100000) ≤ s ∧ s < 10 ^ (s.log2 * 30102 / 100000 + 2) := by
  generalize hd : s.log2 * 30102 / 100000 = d
  have hlow : (10 ^ d) ^ 196 ≤ (2 ^ s.log2) ^ 196 := by
    calc (10 ^ d) ^ 196 = 10 ^ (196 * d) := by rw [← pow_mul, Nat.mul_comm]
      _ ≤ 10 ^ (59 * s.log2) := pow_le_pow_right₀ (by omega) (by omega)
      _ = (10 ^ 59) ^ s.log2 := by rw [pow_mul]
      _ ≤ (2 ^ 196) ^ s.log2 := Nat.pow_le_pow_left (by norm_num) _
      _ = (2 ^ s.log2) ^ 196 := by rw [← pow_mul, ← pow_mul, Nat.mul_comm]
  have hhigh : (2 ^ (s.log2 + 1)) ^ 93 ≤ (10 ^ (d + 2)) ^ 93 := by
    calc (2 ^ (s.log2 + 1)) ^ 93 = (2 ^ 93) ^ (s.log2 + 1) := by
          rw [← pow_mul, ← pow_mul, Nat.mul_comm]
      _ ≤ (10 ^ 28) ^ (s.log2 + 1) := Nat.pow_le_pow_left (by norm_num) _
      _ = 10 ^ (28 * (s.log2 + 1)) := by rw [pow_mul]
      _ ≤ 10 ^ (93 * (d + 2)) := pow_le_pow_right₀ (by omega) (by omega)
      _ = (10 ^ (d + 2)) ^ 93 := by rw [← pow_mul, Nat.mul_comm]
  rw [Nat.pow_le_pow_iff_left (by omega)] at hlow hhigh
  exact ⟨hlow.trans (Nat.log2_self_le (by omega)), Nat.lt_of_lt_of_le Nat.lt_log2_self hhigh⟩

theorem width_of_log2 {s : Nat} (hs : 0 < s) (hx : s.log2 ≤ 12000) :
    width s = if 10 ^ (s.log2 * 30102 / 100000 + 1) ≤ s then s.log2 * 30102 / 100000 + 2
      else s.log2 * 30102 / 100000 + 1 := by
  obtain ⟨hl, hh⟩ := pow_ten_bounds hs hx
  split
  · next h => exact width_eq h hh
  · next h => exact width_eq hl (by omega)

theorem log2_mul_pow_ten (ha : 0 < a) (hb : a < 2 ^ 53) (k : Nat) :
    (a * 10 ^ k).log2 < 53 + 4 * k := by
  rw [Nat.log2_lt (by positivity)]
  calc a * 10 ^ k < 2 ^ 53 * 10 ^ k := (Nat.mul_lt_mul_right (by positivity)).mpr hb
    _ ≤ 2 ^ 53 * (2 ^ 4) ^ k := Nat.mul_le_mul_left _ (Nat.pow_le_pow_left (by omega) _)
    _ = 2 ^ (53 + 4 * k) := by rw [← pow_mul, ← pow_add]

/-- The point of an integer stands after its last digit. -/
theorem point_eq (hi : Around i a) (ha : 0 < a) (hb : a < 2 ^ 53) : i.point = width a := by
  have hu : 0 < 2 * unit := Nat.mul_pos (by omega) unit_pos
  have hs : i.value * 10 ^ 400 / (2 * unit) = a * 10 ^ 400 := by
    rw [hi.value, Nat.mul_right_comm, Nat.mul_div_cancel _ hu]
  have hx := log2_mul_pow_ten ha hb 400
  have hw := width_of_log2 (s := a * 10 ^ 400) (by positivity) (by omega)
  rw [width_mul_pow ha] at hw
  simp only [Interval.point, natPow_eq, hs, ← hw]
  push_cast
  omega

/-- With as many digits as an integer has, or more, its nearest point is the integer. -/
theorem nearestPoint_of_width_le (hi : Around i a) (hp : i.point = width a) {n : Nat}
    (hn : width a ≤ n) :
    i.nearestPoint n = (a * 10 ^ (n - width a), -((n - width a : Nat) : Int)) := by
  have hu : 0 < 2 * unit := Nat.mul_pos (by omega) unit_pos
  have he : i.point - n = -((n - width a : Nat) : Int) := by omega
  rw [Interval.nearestPoint, he, Interval.nearestAt, Interval.ratio, hi.value]
  generalize n - width a = k
  cases k with
  | zero =>
    rw [if_neg (by omega), Int.natCast_zero, neg_zero, Int.natAbs_zero, halfEven_mul_mul a _ hu,
      natPow_eq, Nat.pow_zero, Nat.mul_one, halfEven_of_dvd Nat.one_pos (Nat.one_dvd a),
      Nat.div_one]
  | succ k =>
    rw [if_pos (by omega), Int.natAbs_neg, Int.natAbs_natCast, Nat.mul_right_comm,
      halfEven_mul _ hu, natPow_eq]

/-- With fewer digits, it is the integer rounded to a multiple of a power of ten. -/
theorem nearestPoint_of_lt_width (hi : Around i a) (hp : i.point = width a) {n : Nat}
    (hn : n < width a) :
    i.nearestPoint n = (halfEven a (10 ^ (width a - n)), ((width a - n : Nat) : Int)) := by
  have hu : 0 < 2 * unit := Nat.mul_pos (by omega) unit_pos
  have he : i.point - n = ((width a - n : Nat) : Int) := by omega
  rw [Interval.nearestPoint, he, Interval.nearestAt, Interval.ratio, if_neg (by omega), hi.value,
    Int.natAbs_natCast, halfEven_mul_mul a _ hu, natPow_eq]

/-- A count of digits that holds an integer has a nearest point that reads back, and whose decimal
is the integer's; no other count has one that reads back. -/
theorem nearestPoint_reads (hi : Around i a) (hp : i.point = width a) (ha : 0 < a) (n : Nat) :
    (significance a ≤ n ∧ i.holds (i.nearestPoint n).1 (i.nearestPoint n).2 = true ∧
      Decimal.ofScaled (i.nearestPoint n).1 (i.nearestPoint n).2 = Decimal.ofScaled a 0) ∨
    (n < significance a ∧ i.holds (i.nearestPoint n).1 (i.nearestPoint n).2 = false) := by
  rcases Nat.lt_or_ge n (width a) with hn | hn
  -- With fewer digits than the integer has, its point reads back only if nothing was rounded.
  · rw [nearestPoint_of_lt_width hi hp hn]
    by_cases hd : 10 ^ (width a - n) ∣ a
    · left
      have hs := (significance_le_iff ha n).mpr hd
      have hc : a / 10 ^ (width a - n) * 10 ^ (width a - n) = a := Nat.div_mul_cancel hd
      have hpos : 0 < a / 10 ^ (width a - n) := Nat.pos_of_ne_zero fun h => by simp [h] at hc; omega
      have he := ofScaled_mul_pow hpos (width a - n) 0
      rw [hc, zero_add] at he
      rw [halfEven_of_dvd (by positivity) hd]
      exact ⟨hs, (holds_iff hi _ _).mpr hc, he.symm⟩
    · right
      have hs : n < significance a := by
        by_contra h
        exact hd ((significance_le_iff ha n).mp (by omega))
      refine ⟨hs, ?_⟩
      by_contra h
      have hc := (holds_iff hi _ _).mp (Bool.not_eq_false _ ▸ h)
      exact hd (Dvd.intro_left _ hc)
  · left
    rw [nearestPoint_of_width_le hi hp hn]
    refine ⟨(significance_le_width a).trans hn, holds_fraction hi _, ?_⟩
    rw [ofScaled_mul_pow ha]
    congr 1
    omega

/-- The search by halving finds the least count that is accepted, when none below it and only
greater ones are accepted or asked for instead. -/
theorem halving_least {accept? : Nat → Option Nat} {s low high : Nat}
    (hn : ∀ n, 0 < n → accept? n = none → n < s)
    (hs : ∀ n k, 0 < n → accept? n = some k → s ≤ n ∧ s ≤ k) (h0 : 0 < low) (hl : low ≤ s)
    (hh : s ≤ high) : halving accept? low high = s := by
  fun_induction halving accept? low high with
  | case1 low high hlt k hk ih =>
    obtain ⟨hm, hk⟩ := hs _ k (by omega) hk
    exact ih h0 hl (by omega)
  | case2 low high hlt hk ih =>
    have := hn _ (by omega) hk
    exact ih (by omega) (by omega) hh
  | case3 low high hge => omega

theorem readsBack?_eq (hi : Around i a) (hp : i.point = width a) (ha : 0 < a) (n : Nat) :
    i.readsBack? n = if significance a ≤ n then some (significance a) else none := by
  unfold Interval.readsBack?
  dsimp only
  rcases nearestPoint_reads hi hp ha n with ⟨hs, hh, hd⟩ | ⟨hs, hh⟩
  · rw [if_pos hh, if_pos hs, hd, ofScaled_eq ha, List.length_reverse, significance]
  · rw [hh, if_neg (by simp), if_neg (by omega)]

theorem width_le (ha : 0 < a) (hb : a < 2 ^ 53) : width a ≤ 16 :=
  (Nat.digits_length_le_iff (by omega) a).mpr (by omega)

/-- The digits that snippets write an integer with are its own. -/
theorem rounded_integer (ha : 0 < a) (hb : a < 2 ^ 53) :
    rounded (magnitude a) = Decimal.ofScaled a 0 := by
  have hi := around_integer ha hb
  have hp := point_eq hi ha hb
  have hw := width_le ha hb
  have hs := significance_le_width a
  have hr := readsBack?_eq hi hp ha
  have hh : halving (interval (magnitude a)).readsBack? 1 17 = significance a := by
    refine halving_least (fun n _ h => ?_) (fun n k _ h => ?_) Nat.one_pos (significance_pos ha)
      (by omega)
    · rw [hr] at h
      split at h
      · contradiction
      · omega
    · rw [hr] at h
      split at h
      · cases h
        exact ⟨by assumption, Nat.le_refl _⟩
      · contradiction
  unfold rounded
  dsimp only
  rw [hh]
  rcases nearestPoint_reads hi hp ha (significance a) with ⟨-, -, hd⟩ | ⟨hlt, -⟩
  · exact hd
  · omega

/-- With digits that fit before the point, a snippet writes a decimal as a numeral. -/
theorem decimal_text (ha : 0 < a) (hw : width a ≤ 21) :
    (Decimal.ofScaled a 0).text .snippet = natText a := by
  have hs := significance_le_width a
  have hs' := significance_pos ha
  have hp : (Decimal.ofScaled a 0).point = width a := by rw [ofScaled_eq ha, zero_add]
  have hl : (Decimal.ofScaled a 0).digits.length = significance a := by
    rw [ofScaled_eq ha, List.length_reverse, significance]
  have hin : (Layout.snippet.lowest ≤ (Decimal.ofScaled a 0).point &&
      (Decimal.ofScaled a 0).point ≤ Layout.snippet.highest) = true := by
    rw [hp, Bool.and_eq_true, decide_eq_true_eq, decide_eq_true_eq]
    exact ⟨by simp only [Layout.snippet]; omega, by simp only [Layout.snippet]; omega⟩
  rw [Decimal.text, if_pos hin, Decimal.positional, natText, decimalDigits_eq_append ha]
  rw [if_neg (by omega), List.length_map, hl, hp, if_pos (by omega), List.map_append,
    List.map_replicate]
  have hz : digitChar 0 = '0' := rfl
  have hm : Layout.snippet.marksWhole = false := rfl
  rw [hz, hm, if_neg (by decide), Int.toNat_natCast, List.append_nil]

/-- Snippets write an integer below `2 ^ 53` as its numeral. -/
theorem text_ofInt {n : Int} (hb : n.natAbs < 2 ^ 53) : (ofInt n).text .snippet = intText n := by
  by_cases h0 : n = 0
  · subst n
    decide +kernel
  · have ha : 0 < n.natAbs := by omega
    have hm : magnitude n.natAbs ≠ 0 := by
      obtain ⟨f, -, hm, -⟩ := magnitude_eq ha hb
      omega
    rw [ofInt_eq h0 hb, Binary64.text, if_neg hm]
    have hd : Layout.snippet.digits (magnitude n.natAbs) = Decimal.ofScaled n.natAbs 0 :=
      rounded_integer ha hb
    have hw := width_le ha hb
    rw [hd, decimal_text ha (by omega), intText]
    by_cases hn : n < 0 <;> simp [hn]

end Reckoner.Proofs.IntegerText
