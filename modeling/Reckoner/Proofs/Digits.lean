import Mathlib.Data.Nat.Digits.Lemmas
import Mathlib.Tactic.IntervalCases
import Reckoner.Number.Layout

namespace Reckoner.Proofs.Digits

theorem go_eq {n fuel : Nat} (hn : 0 < n) (hf : n < fuel) (acc : List Nat) :
    decimalDigits.go n fuel acc = (Nat.digits 10 n).reverse ++ acc := by
  induction fuel generalizing n acc with
  | zero => omega
  | succ fuel ih =>
    by_cases h : n < 10
    · simp [decimalDigits.go, h, Nat.digits_of_lt 10 n (by omega) h]
    · rw [decimalDigits.go, if_neg h, ih (by omega) (by omega), Nat.digits_def' (by omega) hn]
      simp

theorem decimalDigits_eq {n : Nat} (hn : 0 < n) :
    decimalDigits n = (Nat.digits 10 n).reverse := by
  rw [decimalDigits, go_eq hn (Nat.lt_succ_self n), List.append_nil]

theorem digits_ten_mul {n : Nat} (hn : 0 < n) :
    Nat.digits 10 (n * 10) = 0 :: Nat.digits 10 n := by
  rw [Nat.mul_comm, Nat.digits_base_mul (by omega) hn]

theorem decimalDigits_lt (n : Nat) : ∀ d ∈ decimalDigits n, d < 10 := by
  intro d hd
  rcases Nat.eq_zero_or_pos n with rfl | hn
  · simp [decimalDigits, decimalDigits.go] at hd
    omega
  · rw [decimalDigits_eq hn, List.mem_reverse] at hd
    exact Nat.digits_lt_base (by omega) hd

theorem digitChar_isDigit {d : Nat} (hd : d < 10) : (digitChar d).isDigit = true := by
  interval_cases d <;> rfl

theorem natText_isDigit (n : Nat) : ∀ c ∈ natText n, c.isDigit = true := by
  intro c hc
  obtain ⟨d, hd, rfl⟩ := List.mem_map.mp hc
  exact digitChar_isDigit (decimalDigits_lt n d hd)

/-- The text of an integer has digits, after a sign if it is negative. -/
theorem intText_chars (n : Int) : ∀ c ∈ intText n, c.isDigit = true ∨ c = '-' := by
  intro c hc
  unfold intText at hc
  split at hc
  · rcases List.mem_cons.mp hc with rfl | hc
    · exact .inr rfl
    · exact .inl (natText_isDigit _ c hc)
  · exact .inl (natText_isDigit _ c hc)

def width (n : Nat) : Nat := (Nat.digits 10 n).length

theorem width_ten_mul {n : Nat} (hn : 0 < n) : width (n * 10) = width n + 1 := by
  rw [width, digits_ten_mul hn, List.length_cons, width]

theorem width_mul_pow {n : Nat} (hn : 0 < n) (k : Nat) : width (n * 10 ^ k) = width n + k := by
  induction k with
  | zero => rw [Nat.pow_zero, Nat.mul_one, Nat.add_zero]
  | succ k ih => rw [Nat.pow_succ, ← Nat.mul_assoc, width_ten_mul (by positivity), ih]; omega

/-- Powers of ten on both sides of a natural give its width. -/
theorem width_eq {n w : Nat} (hl : 10 ^ w ≤ n) (hh : n < 10 ^ (w + 1)) : width n = w + 1 := by
  have h1 := (Nat.lt_digits_length_iff (b := 10) (by omega) n).mpr hl
  have h2 := (Nat.digits_length_le_iff (b := 10) (by omega) n).mpr hh
  unfold width
  omega

theorem ofScaled_eq {c : Nat} (hc : 0 < c) (e : Int) :
    Decimal.ofScaled c e =
      ⟨((Nat.digits 10 c).dropWhile (· == 0)).reverse, e + width c⟩ := by
  simp only [Decimal.ofScaled, decimalDigits_eq hc, List.reverse_reverse, List.length_reverse,
    width]

/-- A factor of ten belongs to the exponent as well as to the digits. -/
theorem ofScaled_ten_mul {c : Nat} (hc : 0 < c) (e : Int) :
    Decimal.ofScaled (c * 10) e = Decimal.ofScaled c (e + 1) := by
  rw [ofScaled_eq (by omega), ofScaled_eq hc, digits_ten_mul hc, width_ten_mul hc,
    List.dropWhile_cons_of_pos (by rfl)]
  congr 1
  push_cast
  omega

theorem ofScaled_mul_pow {c : Nat} (hc : 0 < c) (k : Nat) (e : Int) :
    Decimal.ofScaled (c * 10 ^ k) e = Decimal.ofScaled c (e + k) := by
  induction k generalizing e with
  | zero => simp
  | succ k ih =>
    rw [Nat.pow_succ, ← Nat.mul_assoc, ofScaled_ten_mul (by positivity), ih]
    congr 1
    push_cast
    omega

/-- The count of digits of a natural without its trailing zeros. -/
def significance (n : Nat) : Nat := ((Nat.digits 10 n).dropWhile (· == 0)).length

theorem significance_le_width (n : Nat) : significance n ≤ width n :=
  (List.dropWhile_sublist _).length_le

theorem significance_ten_mul {n : Nat} (hn : 0 < n) : significance (n * 10) = significance n := by
  rw [significance, digits_ten_mul hn, List.dropWhile_cons_of_pos (by rfl), significance]

theorem significance_of_not_dvd {n : Nat} (hn : 0 < n) (hd : ¬ 10 ∣ n) :
    significance n = width n := by
  have hz : ¬ n % 10 = 0 := fun h => hd (Nat.dvd_of_mod_eq_zero h)
  rw [significance, width, Nat.digits_def' (by omega) hn,
    List.dropWhile_cons_of_neg (by simpa using hz)]

theorem significance_pos {n : Nat} (hn : 0 < n) : 0 < significance n := by
  induction n using Nat.strong_induction_on with
  | _ n ih =>
    by_cases hd : 10 ∣ n
    · obtain ⟨m, rfl⟩ := hd
      rw [Nat.mul_comm, significance_ten_mul (by omega)]
      exact ih m (by omega) (by omega)
    · rw [significance_of_not_dvd hn hd, width]
      exact List.length_pos_iff.mpr (Nat.digits_ne_nil_iff_ne_zero.mpr (by omega))

/-- A count of digits holds a natural exactly when the power of ten that it leaves divides it. -/
theorem significance_le_iff {n : Nat} (hn : 0 < n) (k : Nat) :
    significance n ≤ k ↔ 10 ^ (width n - k) ∣ n := by
  induction n using Nat.strong_induction_on with
  | _ n ih =>
    by_cases hd : 10 ∣ n
    · obtain ⟨m, rfl⟩ := hd
      have hm : 0 < m := by omega
      have hw := significance_le_width m
      rw [Nat.mul_comm 10 m, significance_ten_mul hm, width_ten_mul hm]
      by_cases hk : width m < k
      · have he : width m + 1 - k = 0 := by omega
        simp only [he, Nat.pow_zero, Nat.one_dvd, iff_true]
        omega
      · have he : width m + 1 - k = width m - k + 1 := by omega
        rw [he, Nat.pow_succ, Nat.mul_dvd_mul_iff_right (by omega)]
        exact ih m (by omega) hm
    · rw [significance_of_not_dvd hn hd]
      constructor
      · intro h
        rw [Nat.sub_eq_zero_of_le h, Nat.pow_zero]
        exact Nat.one_dvd n
      · intro h
        by_contra hk
        exact hd ((dvd_pow_self 10 (by omega)).trans h)

theorem dropWhile_zeros (ds : List Nat) :
    ds = List.replicate (ds.length - (ds.dropWhile (· == 0)).length) 0 ++
      ds.dropWhile (· == 0) := by
  induction ds with
  | nil => rfl
  | cons d ds ih =>
    by_cases hd : d = 0
    · subst d
      have hl : (ds.dropWhile (· == 0)).length ≤ ds.length := (List.dropWhile_sublist _).length_le
      rw [List.dropWhile_cons_of_pos (by rfl), List.length_cons, Nat.succ_sub hl,
        List.replicate_succ, List.cons_append, ← ih]
    · rw [List.dropWhile_cons_of_neg (by simpa using hd)]
      simp

/-- The numeral of a natural is its decimal's digits and as many zeros as the point asks for. -/
theorem decimalDigits_eq_append {n : Nat} (hn : 0 < n) :
    decimalDigits n =
      (Decimal.ofScaled n 0).digits ++ List.replicate (width n - significance n) 0 := by
  rw [decimalDigits_eq hn, ofScaled_eq hn]
  have h := congrArg List.reverse (dropWhile_zeros (Nat.digits 10 n))
  rwa [List.reverse_append, List.reverse_replicate] at h

end Reckoner.Proofs.Digits
