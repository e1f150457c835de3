import Mathlib.Tactic.Linarith
import Reckoner.Proofs.Integers

namespace Reckoner.Proofs.Rounding
open Binary64 Integers

/-- Twice a quotient lies between two bounds, ends included when `closed`. -/
def Between (closed : Bool) (low high x : Nat) : Prop :=
  (low < x ∧ x < high) ∨ (closed = true ∧ low ≤ x ∧ x ≤ high)

theorem Between.le {closed : Bool} {low high x : Nat} (h : Between closed low high x) :
    low ≤ x ∧ x ≤ high := by
  rcases h with h | h <;> omega

theorem halfEven_bounds (n : Nat) {d : Nat} (hd : 0 < d) :
    2 * (halfEven n d * d) ≤ 2 * n + d ∧ 2 * n ≤ 2 * (halfEven n d * d) + d := by
  have hn := Nat.div_add_mod n d
  have hr := Nat.mod_lt n hd
  rw [Nat.mul_comm] at hn
  unfold halfEven
  split
  · omega
  · rw [Nat.add_one_mul (n / d) d]
    omega

/-- A natural that a quotient is at most a half away from, and less if the natural is odd, is what
the quotient is rounded to. -/
theorem halfEven_eq {n d q : Nat} (hd : 0 < d)
    (h : Between (q % 2 == 0) (2 * (q * d)) (2 * (q * d) + 2 * d) (2 * n + d)) :
    halfEven n d = q := by
  have hn := Nat.div_add_mod n d
  have hr := Nat.mod_lt n hd
  rw [Nat.mul_comm] at hn
  obtain ⟨hl, hh⟩ := h.le
  have hq : q ≤ n / d + 1 := by
    apply Nat.le_of_lt_succ
    apply Nat.lt_of_mul_lt_mul_right (a := d)
    rw [Nat.succ_eq_add_one, Nat.add_one_mul, Nat.add_one_mul]
    omega
  have ha : n / d ≤ q := by
    apply Nat.le_of_lt_succ
    apply Nat.lt_of_mul_lt_mul_right (a := d)
    rw [Nat.succ_eq_add_one, Nat.add_one_mul]
    omega
  -- Only the two naturals about the quotient are left.
  obtain rfl | rfl : q = n / d ∨ q = n / d + 1 := by omega
  · refine if_pos ?_
    rcases h with ⟨-, h⟩ | ⟨he, -, h⟩
    · omega
    · simp only [beq_iff_eq] at he
      omega
  · rw [Nat.add_one_mul (n / d) d] at h
    refine if_neg ?_
    rcases h with ⟨h, -⟩ | ⟨he, h, -⟩
    · omega
    · simp only [beq_iff_eq] at he
      omega

theorem halfEven_congr {n d n' d' : Nat} (hd : 0 < d) (hd' : 0 < d') (h : n * d' = n' * d) :
    halfEven n d = halfEven n' d' := by
  rw [← halfEven_mul_mul n d hd', h, Nat.mul_comm d d', halfEven_mul_mul n' d' hd]

/-- What a finer grid rounds to a point of a coarser one, the coarser one rounds to that point. -/
theorem halfEven_coarser {n d q k : Nat} (hd : 0 < d) (hk : 0 < k) (h : halfEven n d = q * k) :
    halfEven n (d * k) = q := by
  obtain ⟨hl, hh⟩ := halfEven_bounds n hd
  rw [h, Nat.mul_assoc, Nat.mul_comm k d] at hl hh
  have hp : 0 < d * k := by positivity
  by_cases h1 : k = 1
  · subst k
    rwa [Nat.mul_one] at h ⊢
  · have hlt : d < d * k := by
      calc d = d * 1 := (Nat.mul_one d).symm
        _ < d * k := (Nat.mul_lt_mul_left hd).mpr (by omega)
    apply halfEven_eq hp
    left
    omega

/-- A magnitude by its significand and its exponent, with the values of its neighbours. -/
structure Placed (m e s : Nat) : Prop where
  mag : m = e * 2 ^ 52 + s
  pos : 0 < s
  small : s < 2 ^ 53
  normal : e = 0 ∨ 2 ^ 52 ≤ s
  value : gridOf m = s * 2 ^ e
  above : gridOf (m + 1) = s * 2 ^ e + 2 ^ e
  /-- Below a power of two the next magnitude is half as far away. -/
  below : (e = 0 ∨ 2 ^ 52 < s) ∧ gridOf (m - 1) + 2 ^ e = s * 2 ^ e ∨
    ∃ f, e = f + 1 ∧ s = 2 ^ 52 ∧ gridOf (m - 1) + 2 ^ f = s * 2 ^ e

theorem gridOf_small {m : Nat} (hm : m < 2 ^ 52) : gridOf m = m := by
  rw [gridOf, fractions_eq, Nat.div_eq_of_lt hm, if_pos rfl, Nat.mod_eq_of_lt hm]

theorem exists_placed {m : Nat} (hm : 0 < m) : ∃ e s, Placed m e s := by
  by_cases hn : m < 2 ^ 52
  · refine ⟨0, m, ⟨by omega, hm, by omega, .inl rfl, by rw [gridOf_small hn]; omega, ?_, ?_⟩⟩
    · by_cases hs : m + 1 < 2 ^ 52
      · rw [gridOf_small hs]
        omega
      · have he : m + 1 = (0 + 1) * 2 ^ 52 + 0 := by omega
        rw [he, gridOf_normal (by omega)]
        omega
    · left
      rw [gridOf_small (by omega)]
      exact ⟨.inl rfl, by omega⟩
  · obtain ⟨e, f, hf, rfl⟩ : ∃ e f, f < 2 ^ 52 ∧ m = (e + 1) * 2 ^ 52 + f :=
      ⟨m / 2 ^ 52 - 1, m % 2 ^ 52, by omega, by omega⟩
    have hv := gridOf_normal (e := e) hf
    have hs := gridOf_succ (e := e) hf
    refine ⟨e, f + 2 ^ 52, ⟨by omega, by omega, by omega, .inr (by omega), hv, ?_, ?_⟩⟩
    · rw [hs, hv]
    · cases f with
      | succ f =>
        left
        rw [← Nat.add_assoc, Nat.add_sub_cancel, gridOf_normal (by omega)]
        exact ⟨.inr (by omega), by ring⟩
      | zero =>
        cases e with
        | zero =>
          left
          rw [gridOf_small (by omega)]
          exact ⟨.inl rfl, by omega⟩
        | succ g =>
          have hm : (g + 1 + 1) * 2 ^ 52 + 0 - 1 = (g + 1) * 2 ^ 52 + (2 ^ 52 - 1) := by omega
          right
          refine ⟨g, rfl, by omega, ?_⟩
          rw [hm, gridOf_normal (by omega), Nat.pow_succ]
          omega

theorem log2_div {n d k : Nat} (hd : 0 < d) (hl : 2 ^ k * d ≤ n) (hh : n < 2 ^ (k + 1) * d) :
    (n / d).log2 = k := by
  have h := (Nat.le_div_iff_mul_le hd).mpr hl
  have hk : 0 < 2 ^ k := by positivity
  exact (Nat.log2_eq_iff (by omega)).mpr ⟨h, (Nat.div_lt_iff_lt_mul hd).mpr hh⟩

/-- The exponent of a quotient is found from its size. -/
theorem nearest_of_bounds {n d e : Nat} (hd : 0 < d) (hl : e = 0 ∨ 2 ^ (52 + e) * d ≤ n)
    (hh : n < 2 ^ (53 + e) * d) :
    nearest n d = e * 2 ^ 52 + halfEven n (d * 2 ^ e) := by
  have he : (n / d).log2 - 52 = e := by
    rcases Nat.lt_or_ge n (2 ^ (52 + e) * d) with h | h
    · have he : e = 0 := hl.resolve_right (by omega)
      subst e
      have hq : n / d < 2 ^ 53 := (Nat.div_lt_iff_lt_mul hd).mpr hh
      rcases Nat.eq_zero_or_pos (n / d) with h0 | h0
      · rw [h0]
        rfl
      · have := (Nat.log2_lt (by omega)).mpr hq
        omega
    · rw [log2_div hd h (by rw [show 52 + e + 1 = 53 + e by omega]; exact hh)]
      omega
  rw [nearest, he, fractions_eq, natPow_eq]

/-- Below a power of two, quotients are rounded on the finer grid, and up to the power. -/
theorem nearest_below_power {n d f : Nat} (hd : 0 < d)
    (hl : 2 ^ 54 * (d * 2 ^ f) ≤ 2 * n + d * 2 ^ f) (hh : n < 2 ^ 53 * (d * 2 ^ f)) :
    nearest n d = (f + 1) * 2 ^ 52 + 2 ^ 52 := by
  have hp : 0 < d * 2 ^ f := by positivity
  have h52 : 2 ^ (52 + f) * d = 2 ^ 52 * (d * 2 ^ f) := by ring
  have h53 : 2 ^ (53 + f) * d = 2 ^ 53 * (d * 2 ^ f) := by ring
  rw [nearest_of_bounds (e := f) hd (.inr (by omega)) (by omega), halfEven_eq (q := 2 ^ 53) hp]
  · omega
  · right
    exact ⟨by decide, by omega, by omega⟩

/-- Quotients between the midpoints to the neighbours of a magnitude are rounded to it. -/
theorem nearest_eq {m n d : Nat} (hm : 0 < m) (hd : 0 < d)
    (h : Between (m % 2 == 0) ((gridOf (m - 1) + gridOf m) * d) ((gridOf m + gridOf (m + 1)) * d)
      (2 * n)) : nearest n d = m := by
  obtain ⟨e, s, hp⟩ := exists_placed hm
  have hpar : m % 2 = s % 2 := by
    have := hp.mag
    omega
  have hpos : 0 < d * 2 ^ e := by positivity
  have hv : gridOf m * d = s * (d * 2 ^ e) := by rw [hp.value]; ring
  have ha : gridOf (m + 1) * d = s * (d * 2 ^ e) + d * 2 ^ e := by rw [hp.above]; ring
  have hsmall : s * (d * 2 ^ e) ≤ (2 ^ 53 - 1) * (d * 2 ^ e) :=
    Nat.mul_le_mul_right _ (by have := hp.small; omega)
  have h52 : 2 ^ (52 + e) * d = 2 ^ 52 * (d * 2 ^ e) := by ring
  have h53 : 2 ^ (53 + e) * d = 2 ^ 53 * (d * 2 ^ e) := by ring
  rw [hpar, Nat.add_mul, Nat.add_mul, hv, ha] at h
  obtain ⟨hl, hh⟩ := h.le
  rcases hp.below with ⟨hs, hb⟩ | ⟨f, rfl, rfl, hb⟩
  · have hb : gridOf (m - 1) * d + d * 2 ^ e = s * (d * 2 ^ e) := by
      rw [← hv, hp.value, ← hb]
      ring
    have hlow : e = 0 ∨ 2 ^ (52 + e) * d ≤ n := by
      refine hs.imp_right fun hs => ?_
      have : (2 ^ 52 + 1) * (d * 2 ^ e) ≤ s * (d * 2 ^ e) := Nat.mul_le_mul_right _ hs
      omega
    rw [nearest_of_bounds hd hlow (by omega), halfEven_eq hpos, ← hp.mag]
    refine h.imp (fun h => ?_) fun h => ?_
    · omega
    · exact ⟨h.1, by omega, by omega⟩
  · have hd2 : d * 2 ^ (f + 1) = 2 * (d * 2 ^ f) := by ring
    have hb : gridOf (m - 1) * d + d * 2 ^ f = 2 ^ 52 * (d * 2 ^ (f + 1)) := by
      rw [← hv, hp.value, ← hb]
      ring
    by_cases hlow : 2 ^ (52 + (f + 1)) * d ≤ n
    · rw [nearest_of_bounds hd (.inr hlow) (by omega), halfEven_eq hpos, ← hp.mag]
      refine h.imp (fun h => ?_) fun h => ?_
      · omega
      · exact ⟨h.1, by omega, by omega⟩
    · rw [nearest_below_power (f := f) hd (by omega) (by omega), hp.mag]

variable {m c : Nat} {e : Int}

/-- A decimal lies in an interval when it does so in units that make it whole. -/
theorem holds_iff_between (i : Interval) (c : Nat) (e : Int) :
    i.holds c e = true ↔
      if e < 0 then
        Between i.closed (i.low * 10 ^ e.natAbs) (i.high * 10 ^ e.natAbs) (c * (2 * unit))
      else Between i.closed i.low i.high (c * 10 ^ e.natAbs * (2 * unit)) := by
  unfold Interval.holds Between
  by_cases he : e < 0
  · cases i.closed <;> simp only [natPow_eq, he, ↓reduceIte, Bool.and_eq_true, decide_eq_true_eq,
      Bool.false_eq_true, false_and, or_false, true_and]
    omega
  · cases i.closed <;> simp only [natPow_eq, he, ↓reduceIte, Bool.and_eq_true, decide_eq_true_eq,
      Bool.false_eq_true, false_and, or_false, true_and, Nat.mul_one]
    omega

theorem gridOf_pos (hm : 0 < m) : 0 < gridOf m := by
  obtain ⟨e, s, hp⟩ := exists_placed hm
  rw [hp.value]
  exact Nat.mul_pos hp.pos (by positivity)

theorem high_le (hm : 0 < m) (hlt : m < magnitudes) : gridOf m + gridOf (m + 1) ≤ 2 ^ 2100 := by
  obtain ⟨e, s, hp⟩ := exists_placed hm
  have he : e ≤ 2046 := by
    have h1 := hp.mag
    have h2 := hp.normal
    rw [magnitudes, fractions_eq] at hlt
    omega
  have hs : 2 * s + 1 ≤ 2 ^ 54 := by
    have := hp.small
    omega
  calc gridOf m + gridOf (m + 1) = (2 * s + 1) * 2 ^ e := by rw [hp.value, hp.above]; ring
    _ ≤ 2 ^ 54 * 2 ^ 2046 := Nat.mul_le_mul hs (Nat.pow_le_pow_right Nat.two_pos he)
    _ = 2 ^ 2100 := by rw [← pow_add]

theorem two_mul_unit : 2 * unit = 2 ^ 1075 := by
  rw [unit_eq, ← pow_succ']

theorem two_pow_le_ten_pow (k : Nat) : 2 ^ (3 * k) ≤ 10 ^ k := by
  rw [pow_mul]
  exact Nat.pow_le_pow_left (by omega) k

/-- A decimal in the interval of a magnitude is not zero. -/
theorem pos_of_holds (hm : 0 < m) (h : (interval m).holds c e = true) : 0 < c := by
  have hg := gridOf_pos hm
  have hlow : 0 < (interval m).low := by
    simp only [interval]
    omega
  rcases Nat.eq_zero_or_pos c with rfl | hc
  · rw [holds_iff_between] at h
    split at h
    · have hp : 0 < (interval m).low * 10 ^ e.natAbs := by positivity
      have := h.le
      omega
    · have := h.le
      omega
  · exact hc

/-- Nor is it too large to be a number. -/
theorem exponent_le_of_holds (hm : 0 < m) (hlt : m < magnitudes)
    (h : (interval m).holds c e = true) : e ≤ 400 := by
  have hc := pos_of_holds hm h
  have hhigh := high_le hm hlt
  by_contra he
  rw [holds_iff_between, if_neg (by omega)] at h
  have hle : 10 ^ e.natAbs * (2 * unit) ≤ 2 ^ 2100 := by
    calc 10 ^ e.natAbs * (2 * unit) ≤ c * 10 ^ e.natAbs * (2 * unit) :=
          Nat.mul_le_mul_right _ (Nat.le_mul_of_pos_left _ hc)
      _ ≤ (interval m).high := h.le.2
      _ ≤ 2 ^ 2100 := hhigh
  have hgt : 2 ^ 2101 ≤ 10 ^ e.natAbs * (2 * unit) := by
    calc 2 ^ 2101 ≤ 2 ^ (3 * 401) * 2 ^ 1075 := by
          rw [← pow_add]
          exact Nat.pow_le_pow_right (by omega) (by omega)
      _ ≤ 10 ^ e.natAbs * 2 ^ 1075 := by
          refine Nat.mul_le_mul_right _ ((two_pow_le_ten_pow 401).trans ?_)
          exact Nat.pow_le_pow_right (by omega) (by omega)
      _ = 10 ^ e.natAbs * (2 * unit) := by rw [two_mul_unit]
  exact absurd ((Nat.pow_le_pow_iff_right Nat.one_lt_two).mp (hgt.trans hle)) (by decide)

/-- Nor is it too small. -/
theorem le_exponent_of_holds (hm : 0 < m) (h : (interval m).holds c e = true) :
    -400 ≤ e + c.log2 / 3 + 1 := by
  have hc := pos_of_holds hm h
  have hg := gridOf_pos hm
  by_contra he
  rw [holds_iff_between, if_pos (by omega)] at h
  have hlow : 10 ^ e.natAbs ≤ c * (2 * unit) := by
    refine Nat.le_trans (Nat.le_mul_of_pos_left _ ?_) h.le.1
    simp only [interval]
    omega
  have hlt : c * (2 * unit) < 10 ^ e.natAbs := by
    calc c * (2 * unit) < 2 ^ (c.log2 + 1) * (2 * unit) :=
          (Nat.mul_lt_mul_right (by have := unit_pos; omega)).mpr Nat.lt_log2_self
      _ = 2 ^ (c.log2 + 1 + 1075) := by rw [two_mul_unit, ← pow_add]
      _ ≤ 2 ^ (3 * e.natAbs) := Nat.pow_le_pow_right (by omega) (by omega)
      _ ≤ 10 ^ e.natAbs := two_pow_le_ten_pow _
  omega

/-- A decimal in the interval of a magnitude is read as that magnitude. -/
theorem ofDecimal_eq (hm : 0 < m) (hlt : m < magnitudes) (h : (interval m).holds c e = true)
    (negative : Bool) : ofDecimal negative c e = .fin negative ⟨m, hlt⟩ := by
  have hc := pos_of_holds hm h
  have hle := exponent_le_of_holds hm hlt h
  have hge := le_exponent_of_holds hm h
  rw [ofDecimal, if_neg (by omega), if_neg (by omega), if_neg (by omega)]
  rw [holds_iff_between] at h
  have hmag : ofMag negative m = .fin negative ⟨m, hlt⟩ := dif_pos hlt
  split
  · next hn =>
    rw [if_pos hn] at h
    rw [ofGrid, nearest_eq hm (by rw [natPow_eq]; positivity), hmag]
    simpa [interval, natPow_eq, Nat.mul_left_comm] using h
  · next hn =>
    rw [if_neg hn] at h
    rw [ofGrid, nearest_eq hm Nat.one_pos, hmag]
    simpa [interval, natPow_eq, Nat.mul_left_comm] using h

theorem ofDecimal_natural {a : Nat} (ha : 0 < a) (negative : Bool) :
    ofDecimal negative a 0 = ofGrid negative (a * unit) 1 := by
  have hl : ¬ ((0 : Int) + a.log2 / 3 + 1 < -400) := by omega
  rw [ofDecimal, if_neg (by omega), if_neg (by omega), if_neg hl, if_neg (by omega), natPow_eq,
    Int.natAbs_zero, Nat.pow_zero, Nat.mul_one]

theorem le_gridOf {m e : Nat} (h : (e + 1) * 2 ^ 52 ≤ m) : 2 ^ 52 * 2 ^ e ≤ gridOf m := by
  have hq : e + 1 ≤ m / 2 ^ 52 := (Nat.le_div_iff_mul_le (by omega)).mpr h
  rw [gridOf, fractions_eq, if_neg (by omega), natPow_eq]
  exact Nat.mul_le_mul (Nat.le_add_left _ _) (Nat.pow_le_pow_right Nat.two_pos (by omega))

theorem le_halfEven (n d : Nat) : n / d ≤ halfEven n d := by
  unfold halfEven
  split
  · exact Nat.le_refl _
  · exact Nat.le_succ _

variable {a : Nat}

/-- A natural's quotient by the step of its exponent has 53 digits. -/
theorem step_bounds (ha : 0 < a) :
    2 ^ 52 * 2 ^ (a.log2 + 1022) ≤ a * unit ∧ a * unit < 2 ^ 53 * 2 ^ (a.log2 + 1022) := by
  have hl : 2 ^ 52 * 2 ^ (a.log2 + 1022) = 2 ^ a.log2 * 2 ^ 1074 := by
    rw [← Nat.pow_add, ← Nat.pow_add, Nat.add_left_comm]
  have hh : 2 ^ 53 * 2 ^ (a.log2 + 1022) = 2 ^ (a.log2 + 1) * 2 ^ 1074 := by
    rw [← Nat.pow_add, ← Nat.pow_add, show 53 + (a.log2 + 1022) = a.log2 + 1 + 1074 by omega]
  rw [unit_eq, hl, hh]
  exact ⟨Nat.mul_le_mul_right _ (Nat.log2_self_le (by omega)),
    (Nat.mul_lt_mul_right (by positivity)).mpr Nat.lt_log2_self⟩

theorem nearest_natural (ha : 0 < a) : nearest (a * unit) 1 =
    (a.log2 + 1022) * 2 ^ 52 + halfEven (a * unit) (2 ^ (a.log2 + 1022)) := by
  obtain ⟨hl, hh⟩ := step_bounds ha
  rw [nearest_of_bounds (e := a.log2 + 1022) Nat.one_pos, Nat.one_mul]
  · rw [Nat.mul_one, Nat.pow_add]
    exact .inr hl
  · rwa [Nat.mul_one, Nat.pow_add]

theorem halfEven_step (ha : 0 < a) :
    2 ^ 52 ≤ halfEven (a * unit) (2 ^ (a.log2 + 1022)) ∧
      halfEven (a * unit) (2 ^ (a.log2 + 1022)) ≤ 2 ^ 53 := by
  obtain ⟨hl, hh⟩ := step_bounds ha
  have hp : 0 < 2 ^ (a.log2 + 1022) := by positivity
  have hb := (halfEven_bounds (a * unit) hp).1
  refine ⟨((Nat.le_div_iff_mul_le hp).mpr hl).trans (le_halfEven _ _), ?_⟩
  generalize 2 ^ (a.log2 + 1022) = d at *
  apply Nat.le_of_lt_succ
  apply Nat.lt_of_mul_lt_mul_right (a := d)
  rw [Nat.succ_mul]
  omega

/-- A natural from `2 ^ 53` on is nearest to no magnitude below. -/
theorem le_nearest (ha : 2 ^ 53 ≤ a) : 2 ^ 53 * unit ≤ gridOf (nearest (a * unit) 1) := by
  have hl : 53 ≤ a.log2 := (Nat.le_log2 (by omega)).mpr ha
  have hn : (1075 + 1) * 2 ^ 52 ≤ nearest (a * unit) 1 := by
    have hq := (halfEven_step (a := a) (by omega)).1
    rw [nearest_natural (by omega)]
    omega
  have hu : 2 ^ 53 * unit = 2 ^ 52 * 2 ^ 1075 := by
    rw [← two_mul_unit, ← Nat.mul_assoc, ← Nat.pow_succ]
  rw [hu]
  exact le_gridOf hn

end Reckoner.Proofs.Rounding
