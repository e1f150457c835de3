import Reckoner.Proofs.IntegerText
import Reckoner.Proofs.Rounding

namespace Reckoner.Proofs.ReadBack
open Binary64 Integers Digits IntegerText Rounding

variable {m : Nat} {e : Int}

/-- Both neighbours of a magnitude are more than `10 ^ -16` of it away. -/
theorem gaps (hm : 0 < m) :
    gridOf m + 10 ^ 16 * gridOf (m - 1) < 10 ^ 16 * gridOf m ∧
      gridOf m + 10 ^ 16 * gridOf m < 10 ^ 16 * gridOf (m + 1) := by
  obtain ⟨e, s, hp⟩ := exists_placed hm
  have hs : s * 2 ^ e < 2 ^ 53 * 2 ^ e := (Nat.mul_lt_mul_right (by positivity)).mpr hp.small
  rw [hp.value, hp.above]
  refine ⟨?_, by omega⟩
  rcases hp.below with ⟨-, hb⟩ | ⟨f, rfl, rfl, hb⟩
  · omega
  · rw [Nat.pow_succ] at hb ⊢
    have : 0 < 2 ^ f := by positivity
    omega

/-- The power of ten that makes a ratio of naturals whole. -/
def scale (e : Int) : Nat := if e < 0 then 10 ^ e.natAbs else 1

theorem scale_pos (e : Int) : 0 < scale e := by
  unfold scale
  split <;> positivity

theorem ratio_eq (i : Interval) (e : Int) :
    i.ratio e = (i.value * scale e, if e < 0 then 2 * unit else 10 ^ e.natAbs * (2 * unit)) := by
  unfold Interval.ratio scale
  split
  · rfl
  · rw [Nat.mul_one, natPow_eq]

theorem ratio_pos (i : Interval) (e : Int) : 0 < (i.ratio e).2 := by
  have hu := unit_pos
  rw [ratio_eq]
  dsimp only
  split <;> positivity

/-- A point of a grid reads back when it lies in the interval, in steps of the grid. -/
theorem holds_iff_ratio (i : Interval) (c : Nat) (e : Int) :
    i.holds c e = true ↔
      Between i.closed (i.low * scale e) (i.high * scale e) (c * (i.ratio e).2) := by
  rw [holds_iff_between, ratio_eq, scale]
  split
  · rfl
  · rw [Nat.mul_one, Nat.mul_one, Nat.mul_assoc]

/-- On a grid with steps that are short enough, the nearest point reads back. -/
theorem nearestAt_holds (hm : 0 < m)
    (h : 10 ^ 16 * ((interval m).ratio e).2 ≤ ((interval m).ratio e).1) :
    (interval m).holds ((interval m).nearestAt e) e = true := by
  obtain ⟨hg, hg'⟩ := gaps hm
  obtain ⟨hb, hb'⟩ := halfEven_bounds ((interval m).ratio e).1 (ratio_pos (interval m) e)
  have hlow := (Nat.mul_lt_mul_right (scale_pos e)).mpr hg
  have hhigh := (Nat.mul_lt_mul_right (scale_pos e)).mpr hg'
  have hv : ((interval m).ratio e).1 = 2 * (gridOf m * scale e) := by
    rw [ratio_eq, interval, Nat.mul_assoc]
  rw [hv] at h hb hb'
  rw [Nat.add_mul, Nat.mul_assoc, Nat.mul_assoc] at hlow hhigh
  have hl : (interval m).low = gridOf (m - 1) + gridOf m := rfl
  have hh : (interval m).high = gridOf m + gridOf (m + 1) := rfl
  rw [holds_iff_ratio, Interval.nearestAt, hv, hl, hh, Nat.add_mul, Nat.add_mul]
  left
  constructor <;> omega

theorem two_unit_le : 2 * unit ≤ 10 ^ 400 := by
  rw [two_mul_unit]
  calc 2 ^ 1075 ≤ 2 ^ (3 * 400) := Nat.pow_le_pow_right Nat.two_pos (by decide)
    _ ≤ 10 ^ 400 := two_pow_le_ten_pow 400

/-- The value of a magnitude has as many digits before the point as its position says. -/
theorem exists_point (hm : 0 < m) (hlt : m < magnitudes) :
    ∃ w q : Nat, (interval m).point = (w : Int) + 1 - q ∧
      10 ^ w * (2 * unit) ≤ (interval m).value * 10 ^ q := by
  have hg := gridOf_pos hm
  have hu : 0 < 2 * unit := by
    have := unit_pos
    omega
  have hv : 0 < (interval m).value := by
    simp only [interval]
    omega
  have hs : 0 < (interval m).value * 10 ^ 400 / (2 * unit) :=
    Nat.div_pos (two_unit_le.trans (Nat.le_mul_of_pos_left _ hv)) hu
  have hle : (interval m).value * 10 ^ 400 / (2 * unit) < 2 ^ 4000 := by
    refine (Nat.div_le_self _ _).trans_lt ?_
    calc (interval m).value * 10 ^ 400 ≤ 2 ^ 2101 * (2 ^ 4) ^ 400 := by
          refine Nat.mul_le_mul ?_ (Nat.pow_le_pow_left (by decide) _)
          have hh := high_le hm hlt
          rw [Nat.pow_succ, interval]
          dsimp only
          omega
      _ = 2 ^ 3701 := by rw [← pow_mul, ← pow_add]
      _ < 2 ^ 4000 := Nat.pow_lt_pow_right Nat.one_lt_two (by decide)
  have hx := (Nat.log2_lt (by omega)).mpr hle
  obtain ⟨hl, -⟩ := pow_ten_bounds hs (by omega)
  have hmul := Nat.div_mul_le_self ((interval m).value * 10 ^ 400) (2 * unit)
  simp only [Interval.point, natPow_eq]
  generalize (interval m).value * 10 ^ 400 / (2 * unit) = x at *
  split
  · next h =>
    refine ⟨x.log2 * 30102 / 100000 + 1, 400, by push_cast; omega, ?_⟩
    exact (Nat.mul_le_mul_right _ h).trans hmul
  · refine ⟨x.log2 * 30102 / 100000, 400, by push_cast; omega, ?_⟩
    exact (Nat.mul_le_mul_right _ hl).trans hmul

/-- A grid of `n + 1` digits has steps that short. -/
theorem ratio_of_digits (hm : 0 < m) (hlt : m < magnitudes) (n : Nat) :
    10 ^ n * ((interval m).ratio ((interval m).point - (n + 1 : Nat))).2 ≤
      ((interval m).ratio ((interval m).point - (n + 1 : Nat))).1 := by
  obtain ⟨w, q, hw, hv⟩ := exists_point hm hlt
  rw [ratio_eq, hw]
  generalize (interval m).value = v at hv
  generalize 2 * unit = u at hv ⊢
  have he : (w : Int) + 1 - q - (n + 1 : Nat) = w - (n + q : Nat) := by
    push_cast
    ring
  rw [he, scale]
  dsimp only
  split
  · obtain ⟨k, hk⟩ : ∃ k, n + q = w + k := ⟨n + q - w, by omega⟩
    have ha : ((w : Int) - (n + q : Nat)).natAbs = k := by omega
    rw [ha]
    apply Nat.le_of_mul_le_mul_right (c := 10 ^ w) ?_ (by positivity)
    calc 10 ^ n * u * 10 ^ w = 10 ^ w * u * 10 ^ n := by ring
      _ ≤ v * 10 ^ q * 10 ^ n := Nat.mul_le_mul_right _ hv
      _ = v * 10 ^ (n + q) := by ring
      _ = v * 10 ^ k * 10 ^ w := by rw [hk]; ring
  · obtain ⟨k, hk⟩ : ∃ k, w = n + q + k := ⟨w - (n + q), by omega⟩
    have ha : ((w : Int) - (n + q : Nat)).natAbs = k := by omega
    rw [ha, Nat.mul_one]
    apply Nat.le_of_mul_le_mul_right (c := 10 ^ q) ?_ (by positivity)
    calc 10 ^ n * (10 ^ k * u) * 10 ^ q = 10 ^ (n + q + k) * u := by ring
      _ ≤ v * 10 ^ q := by rw [← hk]; exact hv

theorem nearestPoint_holds (hm : 0 < m) (hlt : m < magnitudes) :
    (interval m).holds ((interval m).nearestPoint 17).1 ((interval m).nearestPoint 17).2 = true :=
  nearestAt_holds hm (ratio_of_digits hm hlt 16)

theorem hit?_holds {i : Interval} {c : Nat} (h : i.hit? e = some c) : i.holds c e = true := by
  unfold Interval.hit? at h
  dsimp only at h
  split at h
  · next h1 h2 =>
    cases h
    unfold halfEven
    split
    · exact h1
    · exact h2
  · next h1 _ =>
    cases h
    exact h1
  · next _ h2 =>
    cases h
    exact h2
  · contradiction

/-- The nearest point is one of the two that are tried. -/
theorem hit?_ne_none {i : Interval} (h : i.holds (i.nearestAt e) e = true) : i.hit? e ≠ none := by
  unfold Interval.hit?
  dsimp only
  unfold Interval.nearestAt halfEven at h
  split at h
  · rw [h]
    split <;> simp_all
  · rw [h]
    split <;> simp_all

/-- The shortest decimal of a magnitude reads back. -/
theorem shortest_holds (hm : 0 < m) (hlt : m < magnitudes) :
    ∃ c e, shortest m = Decimal.ofScaled c e ∧ (interval m).holds c e = true := by
  unfold shortest
  dsimp only
  generalize hf : (List.range 17).findSome? _ = found
  cases found with
  | some d =>
    obtain ⟨n, -, hn⟩ := List.exists_of_findSome?_eq_some hf
    obtain ⟨c, hc, rfl⟩ := Option.map_eq_some_iff.mp hn
    exact ⟨c, _, rfl, hit?_holds hc⟩
  | none =>
    have hn := List.findSome?_eq_none_iff.mp hf 16 (by decide)
    rw [Option.map_eq_none_iff] at hn
    exact absurd hn (hit?_ne_none (nearestPoint_holds hm hlt))

/-- A search that only lowers its bound to accepted counts ends at one. -/
theorem halving_accepts {accept? : Nat → Option Nat}
    (hstep : ∀ n k, accept? n = some k → (accept? (min k n)).isSome = true) {low high : Nat}
    (h : (accept? high).isSome = true) : (accept? (halving accept? low high)).isSome = true := by
  fun_induction halving accept? low high with
  | case1 low high hlt n hn ih => exact ih (hstep _ _ hn)
  | case2 low high hlt hn ih => exact ih h
  | case3 low high hge => exact h

/-- The ratio of a coarser grid to a finer one is a power of ten. -/
theorem ratio_coarser (i : Interval) (e : Int) (k : Nat) :
    (i.ratio (e + k)).1 * ((i.ratio e).2 * 10 ^ k) = (i.ratio e).1 * (i.ratio (e + k)).2 := by
  rw [ratio_eq, ratio_eq, scale, scale]
  generalize 2 * unit = u
  rcases lt_or_ge e 0 with he | he
  · rcases lt_or_ge (e + k) 0 with hk | hk
    · have ha : e.natAbs = (e + k).natAbs + k := by omega
      simp only [he, hk, ↓reduceIte, ha]
      ring
    · have ha : k = e.natAbs + (e + k).natAbs := by omega
      simp only [he, not_lt.mpr hk, ↓reduceIte]
      generalize (e + k).natAbs = j at ha ⊢
      rw [ha]
      ring
  · have ha : (e + k).natAbs = e.natAbs + k := by omega
    have hk : ¬ e + k < 0 := by omega
    simp only [not_lt.mpr he, hk, ↓reduceIte, ha]
    ring

theorem nearestAt_coarser {i : Interval} {q k : Nat} (h : i.nearestAt e = q * 10 ^ k) :
    i.nearestAt (e + k) = q := by
  have hd := ratio_pos i e
  have hp : 0 < 10 ^ k := by positivity
  rw [← halfEven_coarser hd hp h]
  exact halfEven_congr (ratio_pos i (e + k)) (Nat.mul_pos hd hp) (ratio_coarser i e k)

theorem between_mul {closed : Bool} {low high x k : Nat} (hk : 0 < k) :
    Between closed (low * k) (high * k) (x * k) ↔ Between closed low high x := by
  simp only [Between, Nat.mul_lt_mul_right hk, Nat.mul_le_mul_right_iff hk]

/-- A factor of ten belongs to the exponent as well as to the digits. -/
theorem holds_mul_pow (i : Interval) (c k : Nat) (e : Int) :
    i.holds (c * 10 ^ k) e = i.holds c (e + k) := by
  rw [Bool.eq_iff_iff, holds_iff_between, holds_iff_between]
  generalize 2 * unit = u
  rcases lt_or_ge e 0 with he | he
  · rcases lt_or_ge (e + k) 0 with hk | hk
    · have ha : e.natAbs = (e + k).natAbs + k := by omega
      rw [if_pos he, if_pos hk, ha, pow_add, ← Nat.mul_assoc, ← Nat.mul_assoc, Nat.mul_right_comm c,
        between_mul (by positivity)]
    · have ha : k = (e + k).natAbs + e.natAbs := by omega
      rw [if_pos he, if_neg (by omega)]
      generalize (e + k).natAbs = j at ha ⊢
      rw [ha, pow_add, ← Nat.mul_assoc, Nat.mul_right_comm (c * 10 ^ j),
        between_mul (by positivity)]
  · have ha : (e + k).natAbs = k + e.natAbs := by omega
    rw [if_neg (by omega), if_neg (by omega), ha, pow_add, ← Nat.mul_assoc]

theorem le_width (hm : 0 < m) (hlt : m < magnitudes) {n : Nat} (hn : 0 < n) :
    n ≤ width ((interval m).nearestAt ((interval m).point - n)) := by
  obtain ⟨j, rfl⟩ : ∃ j, n = j + 1 := ⟨n - 1, by omega⟩
  have hd := ratio_pos (interval m) ((interval m).point - (j + 1 : Nat))
  have hq := (Nat.le_div_iff_mul_le hd).mpr (ratio_of_digits hm hlt j)
  refine (Nat.lt_digits_length_iff (by omega) _).mpr (hq.trans ?_)
  unfold Interval.nearestAt halfEven
  split <;> omega

/-- A count of digits that is accepted has a nearest point which needs no more digits, and that
count of digits is accepted as well. -/
theorem readsBack?_step (hm : 0 < m) (hlt : m < magnitudes) {n k : Nat}
    (h : (interval m).readsBack? n = some k) :
    ((interval m).readsBack? (min k n)).isSome = true := by
  rcases Nat.lt_or_ge k n with hk | hk
  · unfold Interval.readsBack? Interval.nearestPoint at h
    dsimp only at h
    split at h
    · next hh =>
      have hc := pos_of_holds hm hh
      rw [Option.some.injEq, ofScaled_eq hc, List.length_reverse] at h
      change significance _ = k at h
      have hw := le_width hm hlt (Nat.zero_lt_of_lt hk)
      -- The digits that the point does not need are zeros.
      have hd := (significance_le_iff hc k).mp (Nat.le_of_eq h)
      obtain ⟨q, hq⟩ := (pow_dvd_pow 10 (Nat.sub_le_sub_right hw k)).trans hd
      rw [Nat.mul_comm] at hq
      have he : (interval m).point - n + (n - k : Nat) = (interval m).point - k := by
        rw [Nat.cast_sub (Nat.le_of_lt hk), sub_add_sub_cancel]
      have hn := nearestAt_coarser hq
      rw [hq, holds_mul_pow, he] at hh
      rw [he] at hn
      rw [min_eq_left (Nat.le_of_lt hk), Interval.readsBack?, Interval.nearestPoint]
      dsimp only
      rw [hn, if_pos hh]
      rfl
    · contradiction
  · rw [min_eq_right hk, h]
    rfl

/-- The decimal that a snippet writes a magnitude with reads back. -/
theorem rounded_holds (hm : 0 < m) (hlt : m < magnitudes) :
    ∃ c e, rounded m = Decimal.ofScaled c e ∧ (interval m).holds c e = true := by
  have h17 : ((interval m).readsBack? 17).isSome = true := by
    unfold Interval.readsBack?
    dsimp only
    rw [if_pos (nearestPoint_holds hm hlt)]
    rfl
  have hs : ((interval m).readsBack? (halving (interval m).readsBack? 1 17)).isSome = true :=
    halving_accepts (fun n k h => readsBack?_step hm hlt h) h17
  generalize hn : halving (interval m).readsBack? 1 17 = n at hs
  refine ⟨((interval m).nearestPoint n).1, ((interval m).nearestPoint n).2, ?_, ?_⟩
  · unfold rounded
    dsimp only
    rw [hn]
  · unfold Interval.readsBack? at hs
    dsimp only at hs
    split at hs
    · assumption
    · contradiction

end Reckoner.Proofs.ReadBack
