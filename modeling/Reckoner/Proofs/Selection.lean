import Mathlib.Data.EReal.Basic
import Mathlib.Data.List.MinMax
import Mathlib.Order.Bounds.Defs
import Reckoner.Aggregate.Number
import Reckoner.Proofs.Integers

namespace Reckoner.Proofs.Selection
open Aggregate Binary64

/-- The lists and tuples of a caller and their elements; a list may hold itself. -/
inductive Sequence : Value → List Value → Prop where
  | list (vs : List Value) : Sequence (.list vs) vs
  | tuple (vs : List Value) : Sequence (.tuple vs) vs
  | cyclic : Sequence .cyclic [.cyclic]

theorem Sequence.elements {s : Value} {vs : List Value} (h : Sequence s vs) :
    Aggregate.elements s = .ok vs := by
  cases h <;> rfl

/-- What a floating point number stands for: its grid value in units of `2 ^ -1074`. -/
noncomputable def floatValue? : Binary64 → Option EReal
  | .nan => none
  | .inf s => some (if s then ⊥ else ⊤)
  | .fin s m => some (((if s then -1 else 1) * gridOf m / unit : ℝ) : EReal)

noncomputable def value? : Number → Option EReal
  | .int n => some ((n : ℝ) : EReal)
  | .float x => floatValue? x

/-- One number is greater than another; a NaN neither exceeds nor is exceeded. -/
def Exceeds (m n : Number) : Prop := ∃ a b, value? m = some a ∧ value? n = some b ∧ b < a

section
variable (beats : Number → Number → Prop)

/-- None of the numbers beats the one at an index. -/
def Unbeaten (ns : List Number) (i : Nat) : Prop :=
  ∃ h : i < ns.length, ∀ m ∈ ns, ¬ beats m ns[i]

/-- What is chosen among numbers: the first that none beats, if there is any number and no NaN. -/
structure Chosen (ns : List Number) (n : Number) : Prop where
  nan : n.isNaN = true ↔ ns = [] ∨ ∃ m ∈ ns, m.isNaN = true
  first : n.isNaN = false → ∃ i, IsLeast {i | Unbeaten beats ns i} i ∧ ns[i]? = some n

/-- A function that chooses among the elements of every sequence, and does so part by part. -/
structure Chooses (choose : Value → Except Failure Number) : Prop where
  chosen {s : Value} {vs : List Value} (sequence : Sequence s vs) :
    ∃ n, choose s = .ok n ∧ Chosen beats (vs.map toNumber) n
  /-- The choice among two choices is the same number, of the same type. -/
  append {s t u : Value} {xs ys : List Value} (left : Sequence s xs) (right : Sequence t ys)
    (both : Sequence u (xs ++ ys)) (someLeft : xs ≠ []) (someRight : ys ≠ []) :
    ∃ m n, choose s = .ok m ∧ choose t = .ok n ∧ choose u = choose (.list [m.toValue, n.toValue])
  /-- Only a NaN has no value, so either both choices are one or they are equal. -/
  permuted {s t : Value} {xs ys : List Value} (before : Sequence s xs) (after : Sequence t ys)
    (moved : xs.Perm ys) :
    ∃ m n, choose s = .ok m ∧ choose t = .ok n ∧ value? m = value? n

end

/-- The values that places have: the infinities, and a value for each grid value between them. -/
inductive Stands : Option Place → Option EReal → Prop where
  | nowhere : Stands none none
  | below : Stands (some ⟨-1, 0⟩) (some ⊥)
  | above : Stands (some ⟨1, 0⟩) (some ⊤)
  | on (g : ℤ) : Stands (some ⟨0, g⟩) (some ((g / unit : ℝ) : EReal))

theorem Stands.some {p : Place} {a : Option EReal} (h : Stands (.some p) a) :
    ∃ b, a = .some b := by
  cases h <;> exact ⟨_, rfl⟩

theorem unit_real_pos : (0 : ℝ) < unit := Nat.cast_pos.mpr Integers.unit_pos

theorem number_stands (n : Number) : Stands n.place? (value? n) := by
  cases n with
  | int n =>
    have h := Stands.on (n * unit)
    rwa [Int.cast_mul, Int.cast_natCast, mul_div_cancel_right₀ _ unit_real_pos.ne'] at h
  | float x =>
    cases x with
    | nan => exact .nowhere
    | inf s =>
      cases s with
      | true => exact .below
      | false => exact .above
    | fin s m =>
      cases s with
      | true =>
        have h := Stands.on (-(gridOf m : ℤ))
        rwa [Int.cast_neg, Int.cast_natCast, ← neg_one_mul (gridOf m : ℝ)] at h
      | false =>
        have h := Stands.on (gridOf m)
        rwa [Int.cast_natCast, ← one_mul (gridOf m : ℝ)] at h

theorem stands_lt {p q : Place} {a b : EReal} (hp : Stands (some p) (some a))
    (hq : Stands (some q) (some b)) : p.lt q = true ↔ a < b := by
  cases hp with
  | below =>
    cases hq with
    | below => exact iff_of_false (by decide) (lt_irrefl _)
    | above => exact iff_of_true rfl bot_lt_top
    | on h => exact iff_of_true rfl (EReal.bot_lt_coe _)
  | above =>
    cases hq with
    | below => exact iff_of_false (by decide) not_top_lt
    | above => exact iff_of_false (by decide) not_top_lt
    | on h => exact iff_of_false Bool.false_ne_true not_top_lt
  | on g =>
    cases hq with
    | below => exact iff_of_false Bool.false_ne_true not_lt_bot
    | above => exact iff_of_true rfl (EReal.coe_lt_top _)
    | on h =>
      rw [EReal.coe_lt_coe_iff, div_lt_div_iff_of_pos_right unit_real_pos, Int.cast_lt]
      simp [Place.lt]

/-- Numbers are compared exactly, integers with fractions too. -/
theorem lt_iff (m n : Number) : m.lt n = true ↔ Exceeds n m := by
  have hm := number_stands m
  have hn := number_stands n
  rw [Number.lt, Exceeds]
  revert hm hn
  generalize m.place? = p, n.place? = q, value? m = a, value? n = b
  intro hm hn
  cases p with
  | none =>
    cases hm
    exact iff_of_false Bool.false_ne_true (by simp)
  | some p =>
    cases q with
    | none =>
      cases hn
      exact iff_of_false Bool.false_ne_true (by simp)
    | some q =>
      obtain ⟨a, rfl⟩ := hm.some
      obtain ⟨b, rfl⟩ := hn.some
      simpa using stands_lt hm hn

theorem value?_isNone (n : Number) : (value? n).isNone = n.isNaN := by
  cases n with
  | int n => rfl
  | float x => cases x <;> rfl

noncomputable def rank (n : Number) : EReal := (value? n).getD 0

theorem value_of_rank {n : Number} (h : n.isNaN = false) : value? n = some (rank n) := by
  rw [← value?_isNone, Option.isNone_eq_false_iff] at h
  obtain ⟨a, ha⟩ := Option.isSome_iff_exists.mp h
  rw [rank, ha]
  rfl

theorem exceeds_iff {m n : Number} (hm : m.isNaN = false) (hn : n.isNaN = false) :
    Exceeds m n ↔ rank n < rank m := by
  rw [Exceeds, value_of_rank hm, value_of_rank hn]
  simp

theorem value_eq_of_rank {m n : Number} (hm : m.isNaN = false) (hn : n.isNaN = false)
    (h : rank m = rank n) : value? m = value? n := by
  rw [value_of_rank hm, value_of_rank hn, h]

/-- A comparison of numbers by where they stand in a linear order, greater ones beating lesser. -/
structure Ranked {β : Type} [LinearOrder β] (rank : Number → β)
    (beats : Number → Number → Bool) : Prop where
  beats_iff {m n : Number} : m.isNaN = false → n.isNaN = false →
    (beats m n = true ↔ rank n < rank m)
  value_eq {m n : Number} : m.isNaN = false → n.isNaN = false → rank m = rank n →
    value? m = value? n

theorem greater_ranked : Ranked rank fun y best => best.lt y :=
  ⟨fun hm hn => (lt_iff _ _).trans (exceeds_iff hm hn), value_eq_of_rank⟩

theorem less_ranked : Ranked (OrderDual.toDual ∘ rank) fun y best => y.lt best :=
  ⟨fun hm hn => (lt_iff _ _).trans (exceeds_iff hn hm),
    fun hm hn h => value_eq_of_rank hm hn (OrderDual.toDual.injective h)⟩

section
variable {α β : Type} [LinearOrder β] {f : α → β}

theorem argmax_pair (f : α → β) (a b : α) :
    [a, b].argmax f = some (if f a < f b then b else a) := by
  rw [List.argmax_cons, List.argmax_singleton, apply_ite some]

/-- The best of two lists is the best of their best ones. -/
theorem argmax_append {xs ys : List α} {a b : α} (ha : xs.argmax f = some a)
    (hb : ys.argmax f = some b) : (xs ++ ys).argmax f = [a, b].argmax f := by
  induction xs generalizing a with
  | nil => cases ha
  | cons x xs ih =>
    rw [List.argmax_cons] at ha
    rw [List.cons_append, List.argmax_cons]
    cases hc : xs.argmax f with
    | none =>
      rw [hc] at ha
      cases ha
      rw [List.argmax_eq_none.mp hc, List.nil_append, hb, argmax_pair, apply_ite some]
    | some c =>
      rw [hc] at ha
      rw [ih hc, argmax_pair, argmax_pair]
      dsimp only at ha ⊢
      grind

end

section
variable {β : Type} [LinearOrder β] {rank : Number → β} {beats : Number → Number → Bool}
variable (hr : Ranked rank beats) {ns ms : List Number} {n : Number}

include hr

/-- The pass goes on from its best number as the search for the best rank does. -/
theorem foldl_argAux (hn : ∀ m ∈ n :: ns, m.isNaN = false) :
    ns.foldl (List.argAux fun b c => rank c < rank b) (some n) =
      some (ns.foldl (fun best y => if beats y best then y else best) n) := by
  induction ns generalizing n with
  | nil => rfl
  | cons m ns ih =>
    have hb := hr.beats_iff (hn m (by simp)) (hn n (by simp))
    have hstep : List.argAux (fun b c => rank c < rank b) (some n) m =
        some (if beats m n then m else n) := by
      rw [apply_ite some]
      exact if_congr hb.symm rfl rfl
    rw [List.foldl_cons, List.foldl_cons, hstep]
    refine ih fun k hk => hn k ?_
    rcases List.mem_cons.mp hk with rfl | hk
    · split <;> simp
    · simp [hk]

theorem extreme_argmax (hne : ns ≠ []) (hn : ∀ m ∈ ns, m.isNaN = false) :
    ns.argmax rank = some (extreme beats ns) := by
  obtain ⟨n, ns, rfl⟩ := List.exists_cons_of_ne_nil hne
  have hany : (n :: ns).any Number.isNaN = false := by simpa using hn
  rw [extreme, hany, if_neg Bool.false_ne_true]
  exact foldl_argAux hr hn

omit hr in
theorem extreme_nan (h : ns = [] ∨ ∃ m ∈ ns, m.isNaN = true) :
    extreme beats ns = .float .nan := by
  cases ns with
  | nil => rfl
  | cons n ns => rw [extreme, if_pos (List.any_eq_true.mpr (h.resolve_left nofun))]

/-- Either the extreme is a NaN, or all numbers are ranked and it is the first of the best. -/
theorem extreme_cases (ns : List Number) :
    ((ns = [] ∨ ∃ m ∈ ns, m.isNaN = true) ∧ extreme beats ns = .float .nan) ∨
      (ns ≠ [] ∧ (∀ m ∈ ns, m.isNaN = false) ∧ ns.argmax rank = some (extreme beats ns)) := by
  by_cases h : ns = [] ∨ ∃ m ∈ ns, m.isNaN = true
  · exact .inl ⟨h, extreme_nan h⟩
  · obtain ⟨hne, hn⟩ := not_or.mp h
    have hn : ∀ m ∈ ns, m.isNaN = false := by simpa using hn
    exact .inr ⟨hne, hn, extreme_argmax hr hne hn⟩

/-- Among ranked numbers the unbeaten ones are those of the best rank. -/
theorem unbeaten_iff (hn : ∀ m ∈ ns, m.isNaN = false) {i : Nat} :
    Unbeaten (beats · ·) ns i ↔ ∃ h : i < ns.length, ∀ m ∈ ns, rank m ≤ rank ns[i] := by
  refine exists_congr fun hi => forall₂_congr fun m hm => ?_
  rw [← not_lt, ← hr.beats_iff (hn m hm) (hn _ (List.getElem_mem hi))]

theorem argmax_isLeast (hn : ∀ m ∈ ns, m.isNaN = false) (h : ns.argmax rank = some n) :
    IsLeast {i | Unbeaten (beats · ·) ns i} (ns.idxOf n) := by
  obtain ⟨hmem, hbest, hfirst⟩ := List.argmax_eq_some_iff.mp h
  have hlt := List.idxOf_lt_length_iff.mpr hmem
  refine ⟨(unbeaten_iff hr hn).mpr ⟨hlt, ?_⟩, ?_⟩
  · rw [List.getElem_idxOf hlt]
    exact hbest
  · intro i hu
    obtain ⟨hi, hb⟩ := (unbeaten_iff hr hn).mp hu
    -- The number at the index has the best rank, and it does not stand for the first time later.
    refine (hfirst _ (List.getElem_mem hi) (hb _ hmem)).trans (le_of_not_gt fun hlater => ?_)
    have := List.not_of_lt_findIdx hlater
    simp at this

theorem extreme_chosen (ns : List Number) : Chosen (beats · ·) ns (extreme beats ns) := by
  obtain ⟨hnan, he⟩ | ⟨hne, hn, hmax⟩ := extreme_cases hr ns
  · rw [he]
    exact ⟨iff_of_true rfl hnan, nofun⟩
  have hmem := List.argmax_mem hmax
  refine ⟨iff_of_false (by simp [hn _ hmem]) ?_, fun _ => ⟨_, argmax_isLeast hr hn hmax, ?_⟩⟩
  · rintro (rfl | ⟨m, hm, hnan⟩)
    · exact hne rfl
    · rw [hn m hm] at hnan
      cases hnan
  · have hlt := List.idxOf_lt_length_iff.mpr hmem
    rw [List.getElem?_eq_getElem hlt, List.getElem_idxOf hlt]

theorem extreme_append (hns : ns ≠ []) (hms : ms ≠ []) :
    extreme beats (ns ++ ms) = extreme beats [extreme beats ns, extreme beats ms] := by
  obtain ⟨hnan, he⟩ | ⟨-, hn, hmax⟩ := extreme_cases hr ns
  · obtain ⟨m, hm, hnan⟩ := hnan.resolve_left hns
    rw [he, extreme_nan (.inr ⟨m, List.mem_append_left _ hm, hnan⟩),
      extreme_nan (.inr ⟨_, List.mem_cons_self, rfl⟩)]
  obtain ⟨hnan', he'⟩ | ⟨-, hm, hmax'⟩ := extreme_cases hr ms
  · obtain ⟨m, hm, hnan⟩ := hnan'.resolve_left hms
    rw [he', extreme_nan (.inr ⟨m, List.mem_append_right _ hm, hnan⟩),
      extreme_nan (.inr ⟨.float .nan, by simp, rfl⟩)]
  have hboth : ∀ k ∈ ns ++ ms, k.isNaN = false := fun k hk =>
    (List.mem_append.mp hk).elim (hn k) (hm k)
  have hpair : ∀ k ∈ [extreme beats ns, extreme beats ms], k.isNaN = false := by
    simpa using ⟨hn _ (List.argmax_mem hmax), hm _ (List.argmax_mem hmax')⟩
  have happ := argmax_append hmax hmax'
  rw [extreme_argmax hr (by simp [hns]) hboth, extreme_argmax hr (by simp) hpair] at happ
  exact Option.some.inj happ

theorem extreme_perm (h : ns.Perm ms) :
    value? (extreme beats ns) = value? (extreme beats ms) := by
  obtain ⟨hnan, he⟩ | ⟨hne, hn, hmax⟩ := extreme_cases hr ns
  · have hnan' : ms = [] ∨ ∃ m ∈ ms, m.isNaN = true := by
      refine hnan.imp (fun hns => ?_) fun ⟨m, hm, hnan⟩ => ⟨m, h.mem_iff.mp hm, hnan⟩
      rw [hns] at h
      exact h.nil_eq.symm
    rw [he, extreme_nan hnan']
  have hn' : ∀ m ∈ ms, m.isNaN = false := fun m hm => hn m (h.mem_iff.mpr hm)
  have hne' : ms ≠ [] := fun hms => hne (by rw [hms] at h; exact h.eq_nil)
  have hmax' := extreme_argmax hr hne' hn'
  have hmem := List.argmax_mem hmax
  have hmem' := List.argmax_mem hmax'
  exact hr.value_eq (hn _ hmem) (hn' _ hmem')
    (le_antisymm (List.le_of_mem_argmax (h.mem_iff.mp hmem) hmax')
      (List.le_of_mem_argmax (h.mem_iff.mpr hmem') hmax))

end

theorem toNumber_toValue (n : Number) : toNumber n.toValue = n := by
  cases n <;> rfl

theorem choice_chooses {β : Type} [LinearOrder β] {rank : Number → β}
    {beats : Number → Number → Bool} (hr : Ranked rank beats)
    (choose : Value → Except Failure Number)
    (hc : ∀ s, choose s = (elements s).map fun vs => extreme beats (vs.map toNumber)) :
    Chooses (beats · ·) choose := by
  have hs : ∀ {s vs}, Sequence s vs → choose s = .ok (extreme beats (vs.map toNumber)) := by
    intro s vs h
    rw [hc, h.elements]
    rfl
  constructor
  · exact fun h => ⟨_, hs h, extreme_chosen hr _⟩
  · intro s t u xs ys hx hy hxy hxs hys
    refine ⟨_, _, hs hx, hs hy, ?_⟩
    rw [hs hxy, hs (.list _), List.map_append,
      extreme_append hr (by simpa using hxs) (by simpa using hys)]
    simp only [List.map_cons, List.map_nil, toNumber_toValue]
  · exact fun hx hy hm => ⟨_, _, hs hx, hs hy, extreme_perm hr (hm.map toNumber)⟩

/-- The greatest element of a sequence is the first number that no other exceeds, the least one the
first that exceeds no other; a NaN is both of every sequence that it is in. -/
theorem extremes_choose :
    Chooses Exceeds greatest ∧ Chooses (fun m n => Exceeds n m) least := by
  have hg := choice_chooses greater_ranked greatest fun _ => rfl
  have hl := choice_chooses less_ranked least fun _ => rfl
  simp only [lt_iff] at hg hl
  exact ⟨hg, hl⟩

/-- The zeros are equal, so the first of them is chosen. -/
example : extreme (fun y best => y.lt best) [.int 2, .float (.zero true), .int 0] =
    .float (.zero true) := by decide +kernel

end Reckoner.Proofs.Selection
