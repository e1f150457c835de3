import Reckoner.Proofs.ReadBack

namespace Reckoner.Proofs.NearestDigits
open Binary64 Digits Integers IntegerText Rounding ReadBack

variable {i : Interval} {m c s : Nat} {e : Int}

/-- An interval whose ends are equally far from its value. -/
def Symmetric (i : Interval) : Prop := i.low + i.high = 2 * i.value

theorem interval_symmetric (hm : 0 < m) (h : m % fractions ≠ 0) : Symmetric (interval m) := by
  obtain ⟨e, s, hp⟩ := exists_placed hm
  rcases hp.below with ⟨-, hb⟩ | ⟨f, rfl, rfl, -⟩
  · simp only [Symmetric, interval, hp.value, hp.above]
    omega
  · rw [hp.mag, fractions_eq] at h
    omega

/-- A symmetric interval about a quotient holds its nearest point if it holds any. -/
theorem between_halfEven {closed : Bool} {low high n d : Nat} (hd : 0 < d)
    (hs : low + high = 2 * n) (h : Between closed low high (c * d)) :
    Between closed low high (halfEven n d * d) := by
  obtain ⟨hl, hh⟩ := halfEven_bounds n hd
  generalize halfEven n d = q at *
  rcases Nat.lt_trichotomy c q with hc | rfl | hc
  · have hstep := Nat.mul_le_mul_right d hc
    rw [Nat.succ_mul] at hstep
    refine h.imp (fun h => ?_) fun h => ?_
    · omega
    · exact ⟨h.1, by omega, by omega⟩
  · exact h
  · have hstep := Nat.mul_le_mul_right d hc
    rw [Nat.succ_mul] at hstep
    refine h.imp (fun h => ?_) fun h => ?_
    · omega
    · exact ⟨h.1, by omega, by omega⟩

theorem nearestAt_of_holds (hs : Symmetric i) (h : i.holds c e = true) :
    i.holds (i.nearestAt e) e = true := by
  rw [holds_iff_ratio] at h ⊢
  refine between_halfEven (ratio_pos i e) ?_ h
  rw [ratio_eq, ← Nat.add_mul, hs, Nat.mul_assoc]

theorem nearestAt_cases (i : Interval) (e : Int) :
    i.nearestAt e = (i.ratio e).1 / (i.ratio e).2 ∨
      i.nearestAt e = (i.ratio e).1 / (i.ratio e).2 + 1 := by
  unfold Interval.nearestAt halfEven
  split
  · exact .inl rfl
  · exact .inr rfl

/-- In a symmetric interval, the point that hits is the nearest one. -/
theorem hit?_eq (hs : Symmetric i) (e : Int) :
    i.hit? e = if i.holds (i.nearestAt e) e then some (i.nearestAt e) else none := by
  unfold Interval.hit?
  dsimp only
  split
  · next h1 h2 => rw [if_pos (nearestAt_of_holds hs h1), Interval.nearestAt]
  · next h1 h2 =>
    have hn := nearestAt_of_holds hs h1
    rw [if_pos hn]
    rcases nearestAt_cases i e with h | h
    · rw [h]
    · rw [h, h2] at hn
      cases hn
  · next h1 h2 =>
    have hn := nearestAt_of_holds hs h2
    rw [if_pos hn]
    rcases nearestAt_cases i e with h | h
    · rw [h, h1] at hn
      cases hn
    · rw [h]
  · next h1 h2 =>
    rcases nearestAt_cases i e with h | h
    · rw [h, h1]
      rfl
    · rw [h, h2]
      rfl

/-- Whether the nearest point with so many digits reads back. -/
def Reads (i : Interval) (n : Nat) : Prop :=
  i.holds (i.nearestPoint n).1 (i.nearestPoint n).2 = true

theorem reads_mono (hs : Symmetric i) {n k : Nat} (hnk : n ≤ k) (h : Reads i n) : Reads i k := by
  have he : i.point - n = i.point - k + (k - n : Nat) := by omega
  rw [Reads, Interval.nearestPoint, he, ← holds_mul_pow] at h
  exact nearestAt_of_holds hs h

theorem readsBack?_of_reads {n : Nat} (h : Reads i n) :
    i.readsBack? n =
      some (Decimal.ofScaled (i.nearestPoint n).1 (i.nearestPoint n).2).digits.length := if_pos h

theorem readsBack?_none_iff {n : Nat} : i.readsBack? n = none ↔ ¬ Reads i n := by
  refine ⟨fun h hr => ?_, fun h => if_neg h⟩
  rw [readsBack?_of_reads hr] at h
  cases h

theorem reads_of_some {n k : Nat} (h : i.readsBack? n = some k) : Reads i n := by
  by_contra hr
  rw [readsBack?_none_iff.mpr hr] at h
  cases h

theorem readsBack?_pos (hm : 0 < m) {n k : Nat} (h : (interval m).readsBack? n = some k) :
    0 < k := by
  have hr := reads_of_some h
  have hc := pos_of_holds hm hr
  rw [readsBack?_of_reads hr, Option.some.injEq, ofScaled_eq hc, List.length_reverse] at h
  exact h ▸ significance_pos hc

theorem range_eq_append {k n : Nat} (h : k < n) :
    ∃ after, List.range n = List.range k ++ k :: after := by
  obtain ⟨j, rfl⟩ := Nat.exists_eq_add_of_lt h
  rw [Nat.add_assoc, List.range_add, List.range_succ_eq_map, List.map_cons]
  exact ⟨_, rfl⟩

/-- The least count of digits whose nearest point reads back. -/
structure Least (i : Interval) (s : Nat) : Prop where
  pos : 0 < s
  le : s ≤ 17
  reads : ∀ n, 0 < n → (Reads i n ↔ s ≤ n)

theorem exists_least (hm : 0 < m) (hlt : m < magnitudes) (hs : Symmetric (interval m)) :
    ∃ s, Least (interval m) s := by
  classical
  have h17 : 0 < 17 ∧ Reads (interval m) 17 := ⟨by omega, nearestPoint_holds hm hlt⟩
  have h : ∃ n, 0 < n ∧ Reads (interval m) n := ⟨17, h17⟩
  refine ⟨Nat.find h, (Nat.find_spec h).1, Nat.find_min' h h17, fun n hn => ⟨fun hr => ?_, ?_⟩⟩
  · exact Nat.find_min' h ⟨hn, hr⟩
  · exact fun hle => reads_mono hs hle (Nat.find_spec h).2

/-- The search by halving asks for the least count of digits. -/
theorem Least.halving (h : Least (interval m) s) (hm : 0 < m) (hlt : m < magnitudes) :
    halving (interval m).readsBack? 1 17 = s := by
  refine halving_least (fun n hn hr => ?_) (fun n k hn hr => ?_) Nat.one_pos h.pos h.le
  · have := mt (h.reads n hn).mpr (readsBack?_none_iff.mp hr)
    omega
  · have hk := readsBack?_pos hm hr
    obtain ⟨j, hj⟩ := Option.isSome_iff_exists.mp (readsBack?_step hm hlt hr)
    have hmin := (h.reads _ (by omega)).mp (reads_of_some hj)
    omega

/-- The search from the fewest digits on hits with the least count of digits. -/
theorem Least.findSome? (h : Least i s) (hs : Symmetric i) :
    ((List.range 17).findSome? fun n =>
      (i.hit? (i.point - (n + 1 : Nat))).map fun c =>
        Decimal.ofScaled c (i.point - (n + 1 : Nat))) =
      some (Decimal.ofScaled (i.nearestPoint s).1 (i.nearestPoint s).2) := by
  obtain ⟨k, rfl⟩ := Nat.exists_eq_add_one_of_ne_zero h.pos.ne'
  obtain ⟨after, hr⟩ := range_eq_append (n := 17) h.le
  refine List.findSome?_eq_some_iff.mpr ⟨List.range k, k, after, hr, ?_, fun j hj => ?_⟩
  · have hk : Reads i (k + 1) := (h.reads _ h.pos).mpr (Nat.le_refl _)
    rw [(hit?_eq hs _).trans (if_pos hk)]
    rfl
  · have hj : ¬ Reads i (j + 1) := by
      rw [h.reads _ (by omega)]
      have := List.mem_range.mp hj
      omega
    rw [(hit?_eq hs _).trans (if_neg hj)]
    rfl

/-- Where both neighbours are equally far away, snippets and answers write the same digits. -/
theorem rounded_eq_shortest (hm : 0 < m) (hlt : m < magnitudes) (h : m % fractions ≠ 0) :
    rounded m = shortest m := by
  have hs := interval_symmetric hm h
  obtain ⟨s, hl⟩ := exists_least hm hlt hs
  unfold rounded shortest
  dsimp only
  rw [hl.halving hm hlt, hl.findSome? hs, Option.getD_some]

end Reckoner.Proofs.NearestDigits
