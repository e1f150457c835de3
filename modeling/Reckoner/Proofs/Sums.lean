import Reckoner.Proofs.Crossing

namespace Reckoner.Proofs.Sums
open Binary64 Integers Crossing Aggregate Snippet

variable {a b n : Int}

/-- A sum of whole numbers is rounded as that integer. -/
theorem add_fin {s t : Bool} {p q : Fin magnitudes} (hp : signed s p = a * unit)
    (hq : signed t q = b * unit) (hz : a + b = 0 → (s && t) = false) :
    (fin s p).add (fin t q) = ofInt (a + b) := by
  have hsum : signed s p + signed t q = (a + b) * unit := by rw [hp, hq, Int.add_mul]
  have hneg : (a + b) * unit < 0 ↔ a + b < 0 := by
    have hu : (0 : Int) < unit := by exact_mod_cast unit_pos
    exact ⟨fun h => neg_of_mul_neg_left h hu.le, fun h => mul_neg_of_neg_of_pos h hu⟩
  change (if signed s p + signed t q = 0 then zero (s && t)
    else ofGrid (signed s p + signed t q < 0) (signed s p + signed t q).natAbs 1) = _
  rw [hsum]
  by_cases h0 : a + b = 0
  · rw [if_pos (by rw [h0, Int.zero_mul]), hz h0, h0, ofInt_zero]
  · rw [if_neg (Int.mul_ne_zero h0 unit_ne_zero), Int.natAbs_mul, Int.natAbs_natCast, ofInt]
    simp only [hneg]

/-- Integers in this range are added exactly if the sum is in it, too. -/
theorem add_ofInt (ha : Exact a) (hb : Exact b) : (ofInt a).add (ofInt b) = ofInt (a + b) := by
  obtain ⟨p, hp, hpg⟩ := ofInt_fin ha
  obtain ⟨q, hq, hqg⟩ := ofInt_fin hb
  rw [hp, hq]
  apply add_fin hpg hqg
  intro h0
  simp only [Bool.and_eq_false_iff, decide_eq_false_iff_not]
  omega

theorem sub_ofInt (ha : Exact a) (hb : Exact b) : (ofInt a).sub (ofInt b) = ofInt (a - b) := by
  obtain ⟨p, hp, hpg⟩ := ofInt_fin ha
  obtain ⟨q, hq, hqg⟩ := ofInt_fin hb
  have hn : signed (!decide (b < 0)) q = -b * unit := by
    rw [Int.neg_mul, ← hqg]
    cases decide (b < 0) <;> simp [signed]
  rw [hp, hq, sub, neg, Int.sub_eq_add_neg]
  apply add_fin hpg hn
  intro h0
  simp only [Bool.and_eq_false_iff, decide_eq_false_iff_not, Bool.not_eq_false', decide_eq_true_eq]
  omega

/-- A sum, and what it lost of the lesser term. -/
def lossy (x y : Binary64) : Binary64 × Binary64 := (x.add y, y.sub ((x.add y).sub x))

theorem twoSum_eq (x y : Binary64) : twoSum x y = if x.smaller y then lossy y x else lossy x y := by
  unfold twoSum lossy
  cases x.smaller y <;> rfl

/-- Within the range, nothing is lost. -/
theorem lossy_ofInt (ha : Exact a) (hb : Exact b) (hs : Exact (a + b)) :
    lossy (ofInt a) (ofInt b) = (ofInt (a + b), ofInt 0) := by
  rw [lossy, add_ofInt ha hb, sub_ofInt hs ha, add_sub_cancel_left, sub_ofInt hb hb, sub_self]

theorem twoSum_ofInt (ha : Exact a) (hb : Exact b) (hs : Exact (a + b)) :
    twoSum (ofInt a) (ofInt b) = (ofInt (a + b), ofInt 0) := by
  rw [twoSum_eq]
  split
  · rw [add_comm] at hs ⊢
    exact lossy_ofInt hb ha hs
  · exact lossy_ofInt ha hb hs

/-- The running sum of integers: one partial, or none where the sum is zero. -/
def holding (s : Int) : Running := ⟨if s = 0 then [] else [ofInt s], zero false, zero false⟩

theorem sweep_holding (ha : Exact a) (hn : Exact n) (hs : Exact (a + n)) :
    sweep (ofInt n) (holding a).partials = ([], ofInt (a + n)) := by
  by_cases h0 : a = 0
  · subst a
    rw [holding, if_pos rfl, Int.zero_add, sweep]
  · have ht := twoSum_ofInt hn ha (by rwa [Int.add_comm])
    have hz : (ofInt 0).isZero = true := by decide +kernel
    rw [holding, if_neg h0, sweep, ht]
    simp only [sweep, hz, ↓reduceIte, Int.add_comm n a]

theorem push_holding (ha : Exact a) (hn : Exact n) (hs : Exact (a + n)) :
    (holding a).push (ofInt n) = .ok (holding (a + n)) := by
  unfold Running.push
  rw [sweep_holding ha hn hs]
  dsimp only
  rw [isZero_ofInt hs, isFinite_ofInt hs]
  by_cases h0 : a + n = 0
  · simp [holding, h0]
  · simp [holding, h0]

theorem addTerm_holding (ha : Exact a) (hn : Exact n) (hs : Exact (a + n)) :
    addTerm (holding a) (.int n) = .ok (holding (a + n)) := by
  have ht : term (.int n) = .ok (ofInt n) := if_pos (isFinite_ofInt hn)
  rw [addTerm, ht]
  dsimp only
  rw [push_holding ha hn hs]
  rfl

/-- Terms that can all be added to a running sum without leaving the range. -/
def Within (a : Int) (ns : List Int) : Prop := a.natAbs + (ns.map Int.natAbs).sum ≤ 2 ^ 53

theorem Within.head {ns : List Int} (h : Within a (n :: ns)) :
    Exact a ∧ Exact n ∧ Exact (a + n) ∧ Within (a + n) ns := by
  simp only [Within, Exact, List.map_cons, List.sum_cons] at h ⊢
  omega

/-- A run over integers holds their exact sum at every step. -/
theorem foldlM_holding {ns : List Int} (h : Within a ns) :
    (ns.map Value.int).foldlM addTerm (holding a) = .ok (holding (a + ns.sum)) := by
  induction ns generalizing a with
  | nil => rw [List.sum_nil, Int.add_zero]; rfl
  | cons n ns ih =>
    obtain ⟨ha, hn, hs, hw⟩ := h.head
    rw [List.map_cons, List.foldlM_cons, addTerm_holding ha hn hs, List.sum_cons, ← Int.add_assoc]
    exact ih hw

theorem Within.sum {ns : List Int} (h : Within a ns) : Exact (a + ns.sum) := by
  induction ns generalizing a with
  | nil => simpa [Within, Exact] using h
  | cons n ns ih =>
    rw [List.sum_cons, ← Int.add_assoc]
    exact ih h.head.2.2.2

theorem round_nil : round [] = zero false := rfl

theorem round_singleton (x : Binary64) : round [x] = x := rfl

theorem total_holding (n : Int) : (holding n).total = .ok (ofInt n) := by
  have hz : (zero false).isZero = true := by decide +kernel
  rw [Running.total, holding]
  dsimp only
  rw [if_pos hz]
  by_cases h0 : n = 0
  · rw [if_pos h0, h0, ofInt_zero, List.reverse_nil, round_nil]
  · rw [if_neg h0, List.reverse_singleton, round_singleton]

theorem total_integers {ns : List Int} (h : Within 0 ns) :
    total (ns.map .int) = .ok (ofInt ns.sum) := by
  have hr := foldlM_holding h
  rw [Int.zero_add] at hr
  rw [total, show Running.empty = holding 0 from rfl, hr]
  dsimp only
  rw [total_holding]
  rfl

theorem add_number (x y : Held) :
    (Guest.number x).add (.number y) = .ok (.number (.combine Binary64.add x y)) := rfl

/-- A snippet that adds integers one by one holds their exact sum at every step, too. -/
theorem addAll_integers {ns : List Int} (h : Within a ns) {x : Held} (hx : x.value = ofInt a) :
    ∃ y : Held, Builtin.addAll (.number x) ((ns.map Value.int).map ofValue) = .ok (.number y) ∧
      y.value = ofInt (a + ns.sum) := by
  induction ns generalizing a x with
  | nil => exact ⟨x, rfl, by rw [hx, List.sum_nil, Int.add_zero]⟩
  | cons n ns ih =>
    obtain ⟨ha, hn, -, hw⟩ := h.head
    have hv : (Held.combine Binary64.add x (literalNumber (.ofInt n))).value = ofInt (a + n) := by
      rw [Held.combine_value, hx, literalNumber_value, add_ofInt ha hn]
    rw [List.map_cons, List.map_cons, ofValue, Builtin.addAll, add_number, List.sum_cons,
      ← Int.add_assoc]
    exact ih hw hv

theorem sumOf_integers {ns : List Int} (h : Within 0 ns) :
    ∃ y : Held, Builtin.sumOf ((ns.map Value.int).map ofValue) = .ok (.number y) ∧
      y.value = ofInt ns.sum := by
  have hz : (Held.settle (ofInt (0 : Nat))).value = ofInt 0 := by
    rw [Held.settle, Nat.cast_zero]
  obtain ⟨y, hy, hv⟩ := addAll_integers h hz
  exact ⟨y, hy, by rw [hv, Int.zero_add]⟩

theorem average_array {xs : List Guest} (hx : xs ≠ []) {total : Guest}
    (h : Builtin.sumOf xs = .ok total) :
    Builtin.average (.array xs) = total.divide (.ofNat xs.length) := by
  cases xs with
  | nil => exact absurd rfl hx
  | cons v vs => simp only [Builtin.average, h]

theorem divide_number (x : Held) (n : Nat) :
    (Guest.number x).divide (.ofNat n) =
      .ok (.number (.combine Binary64.div x (.settle (.ofInt n)))) := rfl

/-- The mean of so many numbers with this sum; of none there is no mean. -/
def meanOf (sum : Int) (count : Nat) : Binary64 :=
  if count = 0 then .nan else (ofInt sum).div (.ofInt count)

theorem meanOf_pos {count : Nat} (h : 0 < count) (sum : Int) :
    meanOf sum count = (ofInt sum).div (.ofInt count) := if_neg (by omega)

/-- Outside of a snippet and in it, a list has the same sum, which is an integer, and the same
mean. -/
structure Totals (v : Value) (sum : Int) (mean : Binary64) : Prop where
  hostSum : Aggregate.sum v = .ok (.int sum)
  hostMean : Aggregate.average v = .ok mean
  guestSum : ∃ x : Held, Builtin.apply .sum [ofValue v] = .ok (.number x) ∧
    x.value.place? = some (.ofInt sum)
  guestMean : ∃ x : Held, Builtin.apply .avg [ofValue v] = .ok (.number x) ∧ x.value = mean

theorem elements_list (vs : List Value) : elements (.list vs) = .ok vs := rfl

variable {ns : List Int}

theorem sum_integers (h : Within 0 ns) :
    Aggregate.sum (.list (ns.map .int)) = .ok (.int ns.sum) := by
  have he : Exact ns.sum := by simpa using h.sum
  have hi : (ns.map Value.int).all isInteger = true := by simp [isInteger]
  rw [Aggregate.sum, elements_list]
  dsimp only
  rw [total_integers h]
  dsimp only
  rw [if_pos hi, (trunc?_ofInt he).2, Option.getD_some]

theorem average_list {vs : List Value} (hv : vs ≠ []) {x : Binary64} (h : total vs = .ok x) :
    Aggregate.average (.list vs) = .ok (x.div (.ofInt vs.length)) := by
  cases vs with
  | nil => exact absurd rfl hv
  | cons v vs => simp only [Aggregate.average, elements_list, h]

theorem average_integers (h : Within 0 ns) :
    Aggregate.average (.list (ns.map .int)) = .ok (meanOf ns.sum ns.length) := by
  by_cases hn : ns = []
  · subst ns
    rfl
  · rw [average_list (by simpa using hn) (total_integers h), List.length_map,
      meanOf_pos (List.length_pos_iff.mpr hn)]

theorem guest_sum (h : Within 0 ns) :
    ∃ x : Held, Builtin.apply .sum [ofValue (.list (ns.map .int))] = .ok (.number x) ∧
      x.value.place? = some (.ofInt ns.sum) := by
  obtain ⟨y, hy, hv⟩ := sumOf_integers h
  refine ⟨y, ?_, ?_⟩
  · rw [ofValue_list]
    exact hy
  · rw [hv, place?_ofInt (by simpa using h.sum)]

theorem guest_mean (h : Within 0 ns) :
    ∃ x : Held, Builtin.apply .avg [ofValue (.list (ns.map .int))] = .ok (.number x) ∧
      x.value = meanOf ns.sum ns.length := by
  rw [ofValue_list]
  by_cases hn : ns = []
  · subst ns
    exact ⟨_, rfl, rfl⟩
  · obtain ⟨y, hy, hv⟩ := sumOf_integers h
    have ha := average_array (by simpa using hn) hy
    rw [divide_number, List.length_map, List.length_map] at ha
    refine ⟨_, ha, ?_⟩
    rw [Held.combine_value, hv, meanOf_pos (List.length_pos_iff.mpr hn), Held.settle]

/-- Where the magnitudes of integers sum to `2 ^ 53` at most, both sides give the exact sum and the
same mean, in whatever order the integers come. -/
theorem integers_exact (h : (ns.map Int.natAbs).sum ≤ 2 ^ 53) {ms : List Int} (hp : ms.Perm ns) :
    Totals (.list (ms.map .int)) ns.sum (meanOf ns.sum ns.length) := by
  have hw : Within 0 ms := by
    rw [Within, (hp.map Int.natAbs).sum_eq]
    simpa using h
  rw [← hp.sum_eq, ← hp.length_eq]
  exact ⟨sum_integers hw, average_integers hw, guest_sum hw, guest_mean hw⟩

/-- A sum that a power of two passes through before it cancels. -/
theorem power_cancelled :
    (([1, 2 ^ 52 - 1, -(2 ^ 52)] : List Int).map Int.natAbs).sum ≤ 2 ^ 53 ∧
      ([-(2 ^ 52), 1, 2 ^ 52 - 1] : List Int).Perm [1, 2 ^ 52 - 1, -(2 ^ 52)] ∧
      Totals (.list (([-(2 ^ 52), 1, 2 ^ 52 - 1] : List Int).map .int)) 0 (meanOf 0 3) := by
  have hs : (([1, 2 ^ 52 - 1, -(2 ^ 52)] : List Int).map Int.natAbs).sum ≤ 2 ^ 53 := by decide
  have hp : ([-(2 ^ 52), 1, 2 ^ 52 - 1] : List Int).Perm [1, 2 ^ 52 - 1, -(2 ^ 52)] := by decide
  have hz : ([1, 2 ^ 52 - 1, -(2 ^ 52)] : List Int).sum = 0 := by decide
  have ht := integers_exact hs hp
  rw [hz] at ht
  exact ⟨hs, hp, ht⟩

end Reckoner.Proofs.Sums
