import Mathlib.Tactic.NormNum
import Reckoner.Proofs.Digits

namespace Reckoner.Proofs.Integers
open Binary64 Digits

theorem natPow_eq (b k : Nat) : Nat.pow b k = b ^ k := rfl

theorem fractions_eq : fractions = 2 ^ 52 := rfl

theorem halfEven_mul (q : Nat) {d : Nat} (hd : 0 < d) : halfEven (q * d) d = q := by
  simp [halfEven, hd]

theorem halfEven_of_dvd {n d : Nat} (hd : 0 < d) (h : d ∣ n) : halfEven n d = n / d := by
  obtain ⟨q, rfl⟩ := h
  rw [Nat.mul_comm, halfEven_mul q hd, Nat.mul_div_cancel _ hd]

theorem halfEven_mul_mul (n d : Nat) {s : Nat} (hs : 0 < s) :
    halfEven (n * s) (d * s) = halfEven n d := by
  have hlt : 2 * (n % d * s) < d * s ↔ 2 * (n % d) < d := by
    rw [← Nat.mul_assoc, Nat.mul_lt_mul_right hs]
  have heq : 2 * (n % d * s) = d * s ↔ 2 * (n % d) = d := by
    rw [← Nat.mul_assoc, Nat.mul_left_inj (by omega)]
  simp only [halfEven, Nat.mul_div_mul_right n d hs, Nat.mul_mod_mul_right, hlt, heq]

theorem log2_mul_two_pow {a : Nat} (ha : 0 < a) (k : Nat) : (a * 2 ^ k).log2 = a.log2 + k := by
  rw [Nat.log2_eq_iff (by positivity), Nat.add_right_comm, Nat.pow_add, Nat.pow_add]
  have hk : 0 < 2 ^ k := by positivity
  exact ⟨Nat.mul_le_mul_right _ (Nat.log2_self_le (by omega)),
    (Nat.mul_lt_mul_right hk).mpr Nat.lt_log2_self⟩

/-- The value of a magnitude by its exponent and its fraction. -/
theorem gridOf_normal {e f : Nat} (hf : f < 2 ^ 52) :
    gridOf ((e + 1) * 2 ^ 52 + f) = (f + 2 ^ 52) * 2 ^ e := by
  have hq : ((e + 1) * 2 ^ 52 + f) / 2 ^ 52 = e + 1 := by omega
  have hr : ((e + 1) * 2 ^ 52 + f) % 2 ^ 52 = f := by omega
  rw [gridOf, fractions_eq, hq, hr, if_neg (by omega), Nat.add_sub_cancel, natPow_eq]

/-- The next magnitude is one step of the exponent away, also where the exponent changes. -/
theorem gridOf_succ {e f : Nat} (hf : f < 2 ^ 52) :
    gridOf ((e + 1) * 2 ^ 52 + f + 1) = gridOf ((e + 1) * 2 ^ 52 + f) + 2 ^ e := by
  rw [gridOf_normal hf]
  by_cases h : f + 1 < 2 ^ 52
  · rw [Nat.add_assoc, gridOf_normal h]
    ring
  · have hm : (e + 1) * 2 ^ 52 + f + 1 = (e + 1 + 1) * 2 ^ 52 + 0 := by omega
    have hf' : f = 2 ^ 52 - 1 := by omega
    rw [hm, gridOf_normal (by omega), hf', Nat.pow_succ]
    omega

/-- The magnitude before is at most one step away. -/
theorem gridOf_pred {e f : Nat} (hf : f < 2 ^ 52) :
    gridOf ((e + 1) * 2 ^ 52 + f - 1) < gridOf ((e + 1) * 2 ^ 52 + f) ∧
      gridOf ((e + 1) * 2 ^ 52 + f) ≤ gridOf ((e + 1) * 2 ^ 52 + f - 1) + 2 ^ e := by
  have hp : 0 < 2 ^ e := by positivity
  rw [gridOf_normal hf]
  cases f with
  | succ f =>
    rw [← Nat.add_assoc, Nat.add_sub_cancel, gridOf_normal (by omega)]
    constructor <;> nlinarith
  | zero =>
    cases e with
    | zero => decide
    | succ e =>
      have hm : (e + 1 + 1) * 2 ^ 52 + 0 - 1 = (e + 1) * 2 ^ 52 + (2 ^ 52 - 1) := by omega
      rw [hm, gridOf_normal (by omega), Nat.pow_succ]
      have he : 0 < 2 ^ e := by positivity
      constructor <;> omega

def magnitude (a : Nat) : Nat := (a.log2 + 1022) * 2 ^ 52 + a * 2 ^ (52 - a.log2)

variable {a : Nat}

theorem log2_le (ha : 0 < a) (hb : a < 2 ^ 53) : a.log2 ≤ 52 := by
  have := (Nat.log2_lt (by omega)).mpr hb
  omega

theorem mul_two_pow_split (a : Nat) {l k : Nat} (hl : l ≤ 52) (hk : 52 ≤ k) :
    a * 2 ^ k = a * 2 ^ (52 - l) * 2 ^ (l + k - 52) := by
  rw [Nat.mul_assoc, ← Nat.pow_add]
  congr 2
  omega

theorem nearest_mul_two_pow (ha : 0 < a) (hb : a < 2 ^ 53) {k : Nat} (hk : 52 ≤ k) :
    nearest (a * 2 ^ k) 1 = (a.log2 + k - 52) * 2 ^ 52 + a * 2 ^ (52 - a.log2) := by
  rw [nearest, Nat.div_one, log2_mul_two_pow ha, Nat.one_mul, fractions_eq, natPow_eq,
    mul_two_pow_split a (log2_le ha hb) hk, halfEven_mul _ (by positivity)]

theorem unit_eq : unit = 2 ^ 1074 := by
  decide +kernel

theorem unit_pos : 0 < unit := by
  decide +kernel

/-- An integer below `2 ^ 53` needs no rounding. -/
theorem nearest_integer (ha : 0 < a) (hb : a < 2 ^ 53) : nearest (a * unit) 1 = magnitude a := by
  have hs : a.log2 + 1074 - 52 = a.log2 + 1022 := by omega
  rw [unit_eq, nearest_mul_two_pow ha hb (by omega), hs, magnitude]

theorem significand_bounds (ha : 0 < a) (hb : a < 2 ^ 53) :
    2 ^ 52 ≤ a * 2 ^ (52 - a.log2) ∧ a * 2 ^ (52 - a.log2) < 2 ^ 53 := by
  have hl := log2_le ha hb
  have h52 : 2 ^ 52 = 2 ^ a.log2 * 2 ^ (52 - a.log2) := by rw [← Nat.pow_add]; congr 1; omega
  have h53 : 2 ^ 53 = 2 ^ (a.log2 + 1) * 2 ^ (52 - a.log2) := by
    rw [← Nat.pow_add]; congr 1; omega
  have hp : 0 < 2 ^ (52 - a.log2) := by positivity
  rw [h52, h53]
  exact ⟨Nat.mul_le_mul_right _ (Nat.log2_self_le (by omega)),
    (Nat.mul_lt_mul_right hp).mpr Nat.lt_log2_self⟩

/-- An integer's magnitude by its exponent and its fraction. -/
theorem magnitude_eq (ha : 0 < a) (hb : a < 2 ^ 53) :
    ∃ f < 2 ^ 52, magnitude a = (a.log2 + 1022 + 1) * 2 ^ 52 + f ∧
      (f + 2 ^ 52) * 2 ^ (a.log2 + 1022) = a * unit := by
  have hl := log2_le ha hb
  obtain ⟨h52, h53⟩ := significand_bounds ha hb
  have hs : a.log2 + 1022 = a.log2 + 1074 - 52 := by omega
  have hg : a * 2 ^ (52 - a.log2) * 2 ^ (a.log2 + 1022) = a * unit := by
    rw [unit_eq, mul_two_pow_split (k := 1074) a hl (by omega), hs]
  unfold magnitude
  generalize a * 2 ^ (52 - a.log2) = x at *
  refine ⟨x - 2 ^ 52, by omega, by omega, ?_⟩
  rw [Nat.sub_add_cancel h52, hg]

theorem gridOf_magnitude (ha : 0 < a) (hb : a < 2 ^ 53) : gridOf (magnitude a) = a * unit := by
  obtain ⟨f, hf, hm, hg⟩ := magnitude_eq ha hb
  rw [hm, gridOf_normal hf, hg]

theorem magnitude_lt (ha : 0 < a) (hb : a < 2 ^ 53) : magnitude a < magnitudes := by
  obtain ⟨f, hf, hm, -⟩ := magnitude_eq ha hb
  have hl := log2_le ha hb
  rw [hm, magnitudes, fractions_eq]
  omega

/-- An interval about a natural that is less than one away from both its ends. -/
structure Around (i : Interval) (a : Nat) : Prop where
  value : i.value = a * (2 * unit)
  low_lt : i.low < a * (2 * unit)
  lt_low : a * (2 * unit) < i.low + 2 * unit
  lt_high : a * (2 * unit) < i.high
  high_lt : i.high < a * (2 * unit) + 2 * unit

/-- The neighbours of an integer below `2 ^ 53` are at most one away, and midpoints are nearer. -/
theorem around_integer (ha : 0 < a) (hb : a < 2 ^ 53) : Around (interval (magnitude a)) a := by
  have hl := log2_le ha hb
  have hu := unit_pos
  obtain ⟨f, hf, hm, hg⟩ := magnitude_eq ha hb
  have hstep : 2 ^ (a.log2 + 1022) ≤ unit := by
    rw [unit_eq]
    exact pow_le_pow_right₀ (by omega) (by omega)
  have hpos : 0 < 2 ^ (a.log2 + 1022) := by positivity
  have hs := gridOf_succ (e := a.log2 + 1022) hf
  obtain ⟨hlt, hle⟩ := gridOf_pred (e := a.log2 + 1022) hf
  rw [gridOf_normal hf, hg] at hs hlt hle
  have hv := gridOf_magnitude ha hb
  have hd : a * (2 * unit) = 2 * (a * unit) := by ring
  generalize 2 ^ (a.log2 + 1022) = step at *
  rw [← hm] at hs hlt hle
  constructor <;> simp only [interval, hv, hd] <;> omega

/-- An integer below `2 ^ 53` as a floating point number. -/
theorem ofInt_eq {n : Int} (h0 : n ≠ 0) (hb : n.natAbs < 2 ^ 53) :
    ofInt n = .fin (n < 0) ⟨magnitude n.natAbs, magnitude_lt (by omega) hb⟩ := by
  rw [ofInt, ofGrid, nearest_integer (by omega) hb, ofMag, dif_pos (magnitude_lt (by omega) hb)]

/-- An integer in the range in which floating point numbers hold all integers. -/
def Exact (n : Int) : Prop := n.natAbs ≤ 2 ^ 53

variable {n : Int}

def signed (negative : Bool) (m : Fin magnitudes) : Int :=
  if negative then -(gridOf m : Int) else gridOf m

theorem place?_fin (s : Bool) (m : Fin magnitudes) :
    (fin s m).place? = some ⟨0, signed s m⟩ := by
  cases s <;> rfl

def limitMagnitude : Fin magnitudes := ⟨1076 * 2 ^ 52, by decide⟩

theorem nearest_limit : nearest (2 ^ 53 * unit) 1 = limitMagnitude := by
  decide +kernel

theorem gridOf_limit : gridOf limitMagnitude = 2 ^ 53 * unit := by
  decide +kernel

theorem ofInt_zero : ofInt 0 = zero false := by
  decide +kernel

/-- An integer in this range has a magnitude of its own. -/
theorem exists_magnitude (hn : Exact n) :
    ∃ m : Fin magnitudes, ofInt n = .fin (decide (n < 0)) m ∧ gridOf m = n.natAbs * unit := by
  by_cases h0 : n = 0
  · subst n
    exact ⟨⟨0, by decide⟩, by decide +kernel, by decide +kernel⟩
  by_cases hb : n.natAbs < 2 ^ 53
  · exact ⟨_, ofInt_eq h0 hb, gridOf_magnitude (by omega) hb⟩
  · have ha : n.natAbs = 2 ^ 53 := by
      unfold Exact at hn
      omega
    refine ⟨limitMagnitude, ?_, by rw [gridOf_limit, ha]⟩
    rw [ofInt, ofGrid, ha, nearest_limit, ofMag, dif_pos limitMagnitude.isLt]

theorem ofInt_fin (hn : Exact n) :
    ∃ m, ofInt n = .fin (decide (n < 0)) m ∧ signed (decide (n < 0)) m = n * unit := by
  obtain ⟨m, hm, hg⟩ := exists_magnitude hn
  refine ⟨m, hm, ?_⟩
  by_cases h : n < 0
  · have ha : (n.natAbs : Int) = -n := by omega
    rw [signed, if_pos (decide_eq_true h), hg, Nat.cast_mul, ha, Int.neg_mul, Int.neg_neg]
  · have ha : (n.natAbs : Int) = n := by omega
    rw [signed, if_neg (by simpa using h), hg, Nat.cast_mul, ha]

/-- An integer in this range stands at its own place. -/
theorem place?_ofInt (hn : Exact n) : (ofInt n).place? = some (.ofInt n) := by
  obtain ⟨m, hm, hg⟩ := ofInt_fin hn
  rw [hm, place?_fin, hg]
  rfl

theorem isFinite_ofInt (hn : Exact n) : (ofInt n).isFinite = true := by
  obtain ⟨m, hm, -⟩ := ofInt_fin hn
  rw [hm]
  rfl

theorem unit_ne_zero : (unit : Int) ≠ 0 := by
  have := unit_pos
  omega

theorem isZero_ofInt (hn : Exact n) : (ofInt n).isZero = decide (n = 0) := by
  by_cases h0 : n = 0
  · subst n
    decide +kernel
  · obtain ⟨m, hm, hg⟩ := ofInt_fin hn
    have hv : m.val ≠ 0 := by
      intro hv
      have hz : signed (decide (n < 0)) m = 0 := by
        simp [signed, hv, gridOf]
      rw [hz] at hg
      exact h0 ((Int.mul_eq_zero.mp hg.symm).resolve_right unit_ne_zero)
    rw [hm]
    simp [isZero, hv, h0]

/-- An integer in this range is kept exactly. -/
theorem trunc?_ofInt (hn : Exact n) :
    (ofInt n).isWhole = true ∧ (ofInt n).trunc? = some n := by
  obtain ⟨m, hm, hg⟩ := exists_magnitude hn
  obtain ⟨m', hm', hs⟩ := ofInt_fin hn
  have ht : (ofInt n).grid? = some (n * unit) := by
    rw [hm', ← hs]
    cases decide (n < 0) <;> rfl
  constructor
  · rw [hm, isWhole, hg, Nat.mul_mod_left, beq_self_eq_true]
  · rw [trunc?, ht, Option.map_some, Int.mul_tdiv_cancel _ unit_ne_zero]

end Reckoner.Proofs.Integers
