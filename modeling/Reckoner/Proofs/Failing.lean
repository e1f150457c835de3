import Reckoner.Aggregate.Group
import Reckoner.Proofs.Decoding
import Reckoner.Proofs.Paths
import Reckoner.Proofs.Rounding
import Reckoner.Proofs.TextNumbers
import Reckoner.Proofs.Trimming

namespace Reckoner.Proofs.Failing
open Binary64 Aggregate Integers Rounding Numeral Text Results

def Fails {ε α : Type} (r : Except ε α) : Prop := ∃ e, r = .error e

/-- A value that cannot be gone through, though it may have a place among others. -/
inductive Single : Value → Prop where
  | bool (b : Bool) : Single (.bool b)
  | int (n : Int) : Single (.int n)
  | float (x : Binary64) : Single (.float x)
  | missing : Single .missing
  | helper (h : Helper) : Single (.helper h)
  | function : Single .function

def parts : Value → List Value
  | .list xs => xs
  | .tuple xs => xs
  | .set => [.int 1]
  | .cyclic => [.cyclic]
  | _ => []

theorem elements_cases (v : Value) :
    (Single v ∧ Fails (elements v)) ∨ (¬ Single v ∧ elements v = .ok (parts v)) := by
  cases v
  case bool b => exact .inl ⟨.bool b, _, rfl⟩
  case int n => exact .inl ⟨.int n, _, rfl⟩
  case float x => exact .inl ⟨.float x, _, rfl⟩
  case missing => exact .inl ⟨.missing, _, rfl⟩
  case helper h => exact .inl ⟨.helper h, _, rfl⟩
  case function => exact .inl ⟨.function, _, rfl⟩
  all_goals exact .inr ⟨nofun, rfl⟩

variable {v : Value}

/-- An aggregate of elements fails if there are none to be had or if it fails on them. -/
theorem fails_elements {α : Type} {r : Except Failure α} (Bad : List Value → Prop)
    (he : ∀ e, elements v = .error e → r = .error e)
    (ho : ∀ vs, elements v = .ok vs → (Fails r ↔ Bad vs)) :
    Fails r ↔ Single v ∨ Bad (parts v) := by
  obtain ⟨hs, e, hv⟩ | ⟨hs, hv⟩ := elements_cases v
  · simp only [hs, true_or, iff_true]
    exact ⟨e, he e hv⟩
  · simp only [hs, false_or]
    exact ho _ hv

variable {a : Nat}

/-- The bound is half a step away from the end of the last exponent. -/
theorem integerBound_eq : integerBound = (2 ^ 54 - 1) * 2 ^ 970 ∧ 2 ^ 971 = 2 * 2 ^ 970 := by
  decide +kernel

/-- In the last exponent, what is half a step or less from its end is rounded past it. -/
theorem halfEven_last (hb : a < 2 ^ 53 * 2 ^ 971) :
    halfEven a (2 ^ 971) < 2 ^ 53 ↔ a < integerBound := by
  obtain ⟨hi, hd⟩ := integerBound_eq
  have hp : 0 < 2 ^ 971 := by positivity
  have hle := (halfEven_bounds a hp).1
  have he := halfEven_eq (n := a) (q := 2 ^ 53) hp
  rw [hi]
  clear hi
  generalize 2 ^ 971 = d at *
  generalize 2 ^ 970 = half at *
  constructor
  · intro h
    by_contra ha
    have := he (.inr ⟨rfl, by omega, by omega⟩)
    omega
  · intro h
    apply Nat.lt_of_mul_lt_mul_right (a := d)
    omega

theorem halfEven_shift (a e k : Nat) : halfEven (a * 2 ^ k) (2 ^ (e + k)) = halfEven a (2 ^ e) := by
  rw [Nat.pow_add, halfEven_mul_mul _ _ (by positivity)]

theorem lt_of_shift {x e k : Nat} (h : a * 2 ^ k < x * 2 ^ (e + k)) : a < x * 2 ^ e := by
  rw [Nat.pow_add, ← Nat.mul_assoc] at h
  exact Nat.lt_of_mul_lt_mul_right h

theorem two_pow_le_bound {k : Nat} (hk : k ≤ 1023) : 2 ^ k ≤ integerBound := by
  have h : 2 ^ 1023 ≤ integerBound := by decide +kernel
  exact (pow_le_pow_right₀ one_le_two hk).trans h

theorem bound_le_two_pow {k : Nat} (hk : 1024 ≤ k) : integerBound ≤ 2 ^ k := by
  have h : integerBound ≤ 2 ^ 1024 := by decide +kernel
  exact h.trans (pow_le_pow_right₀ one_le_two hk)

theorem nearest_lt_iff (a : Nat) : nearest (a * unit) 1 < magnitudes ↔ a < integerBound := by
  rcases Nat.eq_zero_or_pos a with rfl | ha
  · decide +kernel
  have hn := nearest_natural ha
  obtain ⟨hl, hh⟩ := halfEven_step ha
  have hmag : magnitudes = 2047 * 2 ^ 52 := rfl
  have hb := Nat.lt_log2_self (n := a)
  rw [hn, hmag]
  obtain hlog | hlog | hlog : a.log2 + 1 ≤ 1023 ∨ a.log2 + 1 = 1024 ∨ 1024 ≤ a.log2 := by omega
  · exact iff_of_true (by omega) (hb.trans_le (two_pow_le_bound hlog))
  · have he : a.log2 + 1022 = 971 + 1074 := by omega
    have hs : halfEven (a * unit) (2 ^ (a.log2 + 1022)) = halfEven a (2 ^ 971) := by
      rw [he, unit_eq, halfEven_shift]
    have hlt := (step_bounds ha).2
    rw [he, unit_eq] at hlt
    rw [← halfEven_last (lt_of_shift hlt), ← hs]
    omega
  · have hle := (bound_le_two_pow hlog).trans (Nat.log2_self_le (by omega))
    exact iff_of_false (by omega) (by omega)

theorem isFinite_ofMag (s : Bool) (m : Nat) : (ofMag s m).isFinite = true ↔ m < magnitudes := by
  unfold ofMag
  split <;> simp [isFinite, *]

/-- An integer is a finite number if its magnitude is below the bound. -/
theorem isFinite_ofInt_iff (n : Int) : (ofInt n).isFinite = true ↔ n.natAbs < integerBound := by
  rw [ofInt, ofGrid, isFinite_ofMag, nearest_lt_iff]

/-- A term that a running sum cannot take: an integer past the finite numbers, or a finite number
that takes the sum past them. -/
inductive Bursts (r : Running) : Value → Prop where
  | integer {n : Int} (h : integerBound ≤ n.natAbs) : Bursts r (.int n)
  | sum {v : Value} {x : Binary64} (ht : term v = .ok x) (hx : x.isFinite = true)
    (hs : (sweep x r.partials).2.isFinite = false) : Bursts r v

/-- Elements that a running sum cannot take to their end. -/
def Overflows (vs : List Value) : Prop :=
  ∃ before v after r, vs = before ++ v :: after ∧ before.foldlM addTerm .empty = .ok r ∧
    Bursts r v

theorem isFinite_of_isZero {x : Binary64} (h : x.isZero = true) : x.isFinite = true := by
  cases x with
  | fin s m => rfl
  | nan => cases h
  | inf s => cases h

theorem push_overflow {r : Running} {x : Binary64} (hx : x.isFinite = true)
    (hs : (sweep x r.partials).2.isFinite = false) : r.push x = .error .overflow := by
  have hz : (sweep x r.partials).2.isZero = false := by
    rw [← Bool.not_eq_true]
    intro hz
    simp [isFinite_of_isZero hz] at hs
  simp [Running.push, hz, hs, hx]

/-- A finite number is taken unless the sum is no longer finite; any other number is. -/
theorem push_error_iff (r : Running) (x : Binary64) :
    Fails (r.push x) ↔ x.isFinite = true ∧ (sweep x r.partials).2.isFinite = false := by
  constructor
  · rintro ⟨e, h⟩
    simp only [Running.push] at h
    split_ifs at h with hz hf hx
    exact ⟨hx, by simpa using hf⟩
  · rintro ⟨hx, hs⟩
    exact ⟨_, push_overflow hx hs⟩

theorem term_failed {v : Value} {e : Failure} (h : term v = .error (.failed e)) :
    ∃ n : Int, v = .int n ∧ integerBound ≤ n.natAbs := by
  unfold term at h
  split at h
  · cases h
  · next n =>
    dsimp only at h
    split_ifs at h with hf
    exact ⟨n, rfl, by rwa [isFinite_ofInt_iff, not_lt] at hf⟩
  · cases h
  · cases h

theorem term_integer {n : Int} (h : integerBound ≤ n.natAbs) :
    term (.int n) = .error (.failed .tooLargeForFloat) :=
  if_neg (by rwa [isFinite_ofInt_iff, not_lt])

theorem addTerm_failed_iff (r : Running) (v : Value) :
    (∃ e, addTerm r v = .error (.failed e)) ↔ Bursts r v := by
  constructor
  · rintro ⟨e, h⟩
    cases ht : term v with
    | error e' =>
      simp only [addTerm, ht, Except.error.injEq] at h
      subst e'
      obtain ⟨n, rfl, hn⟩ := term_failed ht
      exact .integer hn
    | ok x =>
      simp only [addTerm, ht] at h
      cases hp : r.push x with
      | ok r' => rw [hp] at h; cases h
      | error e' =>
        obtain ⟨hx, hs⟩ := (push_error_iff r x).mp ⟨e', hp⟩
        exact .sum ht hx hs
  · intro h
    cases h with
    | integer h => exact ⟨_, by rw [addTerm, term_integer h]⟩
    | sum ht hx hs => exact ⟨.sumOverflow, by simp only [addTerm, ht, push_overflow hx hs]; rfl⟩

/-- The end of a running sum does not fail, though it may be undefined. -/
theorem running_total_failed {r : Running} {e : Failure} :
    r.total.mapError NoTotal.ofSum ≠ .error (.failed e) := by
  unfold Running.total
  split_ifs <;> simp [Except.mapError, NoTotal.ofSum]

theorem total_failed_iff (vs : List Value) :
    (∃ e, total vs = .error (.failed e)) ↔ Overflows vs := by
  constructor
  · rintro ⟨e, h⟩
    cases hr : vs.foldlM addTerm .empty with
    | ok r =>
      simp only [total, hr] at h
      exact absurd h running_total_failed
    | error e' =>
      simp only [total, hr, Except.error.injEq] at h
      subst e'
      obtain ⟨before, v, after, r, hv, hb, hs⟩ := foldlM_error_iff.mp hr
      exact ⟨before, v, after, r, hv, hb, (addTerm_failed_iff r v).mp ⟨e, hs⟩⟩
  · rintro ⟨before, v, after, r, hv, hb, hs⟩
    obtain ⟨e, he⟩ := (addTerm_failed_iff r v).mpr hs
    refine ⟨e, ?_⟩
    rw [total, foldlM_error_iff.mpr ⟨before, v, after, r, hv, hb, he⟩]

theorem fails_average (v : Value) : Fails (average v) ↔ Single v ∨ Overflows (parts v) := by
  refine fails_elements Overflows (fun e he => by rw [average, he]) fun vs he => ?_
  rw [← total_failed_iff]
  cases vs with
  | nil => simp [average, he, Fails, total_failed_iff, Overflows]
  | cons w ws =>
    cases ht : total (w :: ws) with
    | ok x => simp [average, he, ht, Fails]
    | error e => cases e <;> simp [average, he, ht, Fails]

theorem fails_sum (v : Value) : Fails (Aggregate.sum v) ↔ Single v ∨ Overflows (parts v) := by
  refine fails_elements Overflows (fun e he => by rw [Aggregate.sum, he]) fun vs he => ?_
  rw [← total_failed_iff]
  cases ht : total vs with
  | ok x =>
    simp only [Aggregate.sum, he, ht, Fails]
    split <;> simp
  | error e => cases e <;> simp [Aggregate.sum, he, ht, Fails]

theorem fails_map {α : Type} (f : List Value → α) (v : Value) :
    Fails ((elements v).map f) ↔ Single v := by
  obtain ⟨hs, e, hv⟩ | ⟨hs, hv⟩ := elements_cases v
  · simp [hv, hs, Fails, Except.map]
  · simp [hv, hs, Fails, Except.map]

/-- A value with an integer in it that is too long to be written in a label. -/
inductive Long : Value → Prop where
  | int {n : Int} (h : 10 ^ digitLimit ≤ n.natAbs) : Long (.int n)
  | list {xs : List Value} {v : Value} (hv : v ∈ xs) (h : Long v) : Long (.list xs)
  | tuple {xs : List Value} {v : Value} (hv : v ∈ xs) (h : Long v) : Long (.tuple xs)

/-- A key that counts as an index though it writes no integer, or a longer one than may be read. -/
def Unreadable (key : List Char) : Prop :=
  allDigits key = true ∧ ((∃ c ∈ key, digitValue? c = none) ∨ digitLimit < key.length)

/-- A value that is indexed. -/
inductive Sequence : Value → Prop where
  | list (xs : List Value) : Sequence (.list xs)
  | tuple (xs : List Value) : Sequence (.tuple xs)
  | cyclic : Sequence .cyclic

/-- A value that a path gives no group: it comes upon an index that cannot be read, or ends at a
value whose label is too long. -/
inductive Groupless : Value → List (List Char) → Prop where
  | label {v : Value} (h : Long v) : Groupless v []
  | index {v : Value} {key : List Char} {path : List (List Char)} (hs : Sequence v)
    (hk : Unreadable key) : Groupless v (key :: path)
  | member {v w : Value} {key : List Char} {path : List (List Char)}
    (hm : Aggregate.member v key = .ok w) (h : Groupless w path) : Groupless v (key :: path)

theorem hasLabel_iff (v : Value) : hasLabel v = true ↔ ¬ Long v := by
  induction v using Decoding.value_induction with
  | atom v hv =>
    cases v
    case int n =>
      rw [hasLabel, decide_eq_true_eq, JsonTexts.decimalDigits_le_iff]
      exact ⟨fun h hl => by cases hl; omega, fun h => by_contra fun hn => h (.int (by omega))⟩
    case list => cases hv
    case tuple => cases hv
    all_goals exact iff_of_true rfl fun h => by cases h
  | list vs ih =>
    rw [hasLabel, haveLabels_iff]
    exact ⟨fun h hl => by cases hl with | list hv hl => exact (ih _ hv).mp (h _ hv) hl,
      fun h v hv => (ih v hv).mpr fun hl => h (.list hv hl)⟩
  | tuple vs ih =>
    rw [hasLabel, haveLabels_iff]
    exact ⟨fun h hl => by cases hl with | tuple hv hl => exact (ih _ hv).mp (h _ hv) hl,
      fun h v hv => (ih v hv).mpr fun hl => h (.tuple hv hl)⟩
  | dict es ih => exact iff_of_true rfl fun h => by cases h

/-- A character that reading an integer takes for nothing but a digit. -/
def isPlain (c : Char) : Bool := !isMargin c && c != '_' && c != '-' && c != '+'

/-- The characters that count as digits, block by block and range by range. -/
theorem digits_plain :
    (decimalZeros.all fun z => (List.range 10).all fun k => isPlain (Char.ofNat (z + k))) = true ∧
      (numeralRanges.all fun r =>
        (List.range (r.2 + 1 - r.1)).all fun k => isPlain (Char.ofNat (r.1 + k))) = true := by
  decide +kernel

theorem plain_digitLike {c : Char} (h : isDigitLike c = true) : isPlain c = true := by
  have plain {a n : Nat} (ha : ((List.range n).all fun k => isPlain (Char.ofNat (a + k))) = true)
      (hl : a ≤ c.toNat) (hu : c.toNat < a + n) : isPlain c = true := by
    have hc := List.all_eq_true.mp ha (c.toNat - a) (List.mem_range.mpr (by omega))
    rwa [show a + (c.toNat - a) = c.toNat by omega, Char.ofNat_toNat] at hc
  rw [isDigitLike, Bool.or_eq_true] at h
  rcases h with h | h
  · rw [digitValue?, Option.isSome_map, List.find?_isSome] at h
    obtain ⟨z, hz, hc⟩ := h
    simp only [Bool.and_eq_true, decide_eq_true_eq] at hc
    exact plain (List.all_eq_true.mp digits_plain.1 z hz) hc.1 hc.2
  · rw [inRanges, List.any_eq_true] at h
    obtain ⟨r, hr, hc⟩ := h
    simp only [Bool.and_eq_true, decide_eq_true_eq] at hc
    exact plain (List.all_eq_true.mp digits_plain.2 r hr) hc.1 (by omega)

variable {key : List Char}

theorem marks?_digits (h : ∀ c ∈ key, isDigitLike c = true) :
    marks? (trim isMargin key) = some (key.map Mark.ofChar) := by
  have hp : ∀ c ∈ key, isPlain c = true := fun c hc => plain_digitLike (h c hc)
  simp only [isPlain, Bool.and_eq_true, Bool.not_eq_true', bne_iff_ne] at hp
  have hu : ∀ m ∈ key.map Mark.ofChar, m ≠ .other '_' := by
    intro m hm he
    subst m
    obtain ⟨c, hc, he⟩ := List.mem_map.mp hm
    exact (hp c hc).1.1.2 (Numerals.other_of_ofChar he)
  rw [Trimming.trim_none fun c hc => (hp c hc).1.1.1, marks?]
  simp only [TextNumbers.underscoresApart_none fun hm => hu _ hm rfl, if_true, Option.some.injEq]
  exact List.filter_eq_self.mpr fun m hm => decide_eq_true (hu m hm)

theorem sign_digits (h : ∀ c ∈ key, isDigitLike c = true) :
    sign (key.map Mark.ofChar) = (false, key.map Mark.ofChar) := by
  cases key with
  | nil => rfl
  | cons c cs =>
    have hp := plain_digitLike (h c List.mem_cons_self)
    simp only [isPlain, Bool.and_eq_true, Bool.not_eq_true', bne_iff_ne] at hp
    rw [List.map_cons]
    cases hm : Mark.ofChar c with
    | digit d => rfl
    | other d =>
      obtain rfl := Numerals.other_of_ofChar hm
      unfold sign
      split
      · next he => cases he; exact absurd rfl hp.1.2
      · next he => cases he; exact absurd rfl hp.2
      · rfl

theorem digitRun_decimal (h : ∀ c ∈ key, digitValue? c ≠ none) :
    ∃ ds, digitRun (key.map Mark.ofChar) = (ds, []) ∧ ds.length = key.length := by
  induction key with
  | nil => exact ⟨[], rfl, rfl⟩
  | cons c cs ih =>
    obtain ⟨ds, hd, hl⟩ := ih fun c hc => h c (List.mem_cons_of_mem _ hc)
    obtain ⟨d, hc⟩ := Option.ne_none_iff_exists'.mp (h c List.mem_cons_self)
    refine ⟨d :: ds, ?_, congrArg (· + 1) hl⟩
    rw [List.map_cons, Mark.ofChar, hc, digitRun, hd]

theorem digitRun_other {c : Char} (hc : c ∈ key) (hn : digitValue? c = none) :
    (digitRun (key.map Mark.ofChar)).2 ≠ [] := by
  have ho : Mark.ofChar c = .other c := by rw [Mark.ofChar, hn]
  intro he
  have hm := TextNumbers.other_mem_digitRun (List.mem_map.mpr ⟨c, hc, ho⟩)
  rw [he] at hm
  cases hm

/-- Of the keys that count as indexes, those write one that are made of decimal digits and not too
long. -/
theorem fails_int (hk : allDigits key = true) : Fails (Numeral.int key) ↔ Unreadable key := by
  have hd : ∀ c ∈ key, isDigitLike c = true := by
    rw [allDigits, Bool.and_eq_true] at hk
    exact List.all_eq_true.mp hk.2
  have hne : key ≠ [] := by
    rintro rfl
    cases hk
  rw [Numeral.int, marks?_digits hd]
  simp only [sign_digits hd, Unreadable, hk, true_and]
  by_cases hall : ∀ c ∈ key, digitValue? c ≠ none
  · obtain ⟨ds, hr, hl⟩ := digitRun_decimal hall
    have hex : ¬ ∃ c ∈ key, digitValue? c = none := fun ⟨c, hc, hn⟩ => hall c hc hn
    rw [hr]
    cases ds with
    | nil => exact absurd (List.length_eq_zero_iff.mp hl.symm) hne
    | cons d ds =>
      simp only [hex, false_or, ← hl]
      split
      · next hlong => exact iff_of_true ⟨_, rfl⟩ hlong
      · next hshort => exact iff_of_false nofun hshort
  · push Not at hall
    obtain ⟨c, hc, hn⟩ := hall
    have hr := digitRun_other hc hn
    have hex : ∃ c ∈ key, digitValue? c = none := ⟨c, hc, hn⟩
    simp only [hex, true_or, iff_true]
    cases hrun : digitRun (key.map Mark.ofChar) with
    | mk ds rest =>
      rw [hrun] at hr
      cases rest with
      | nil => exact absurd rfl hr
      | cons m rest => cases ds <;> exact ⟨_, rfl⟩

/-- A superscript counts as a digit and writes none. -/
example : Unreadable ['²'] :=
  ⟨by decide +kernel, .inl ⟨_, List.mem_cons_self, by decide +kernel⟩⟩

theorem fails_index (hk : allDigits key = true) : Fails (index key) ↔ Unreadable key := by
  rw [← fails_int hk, index, integerOfText, integerOf]
  cases hi : Numeral.int key with
  | ok n => simp [Fails, Except.map]
  | error e => cases e <;> simp [Fails, Except.map]

theorem fails_element (xs : List Value) (key : List Char) :
    Fails (element xs key) ↔ Unreadable key := by
  rw [element]
  by_cases hk : allDigits key = true
  · rw [if_pos hk, ← fails_index hk]
    cases index key <;> simp [Fails, Except.map]
  · rw [if_neg hk]
    simp [Fails, Unreadable, hk]

theorem fails_member (v : Value) (key : List Char) :
    Fails (Aggregate.member v key) ↔ Sequence v ∧ Unreadable key := by
  cases v
  case list xs => simpa [Sequence.list xs, Aggregate.member] using fails_element xs key
  case tuple xs => simpa [Sequence.tuple xs, Aggregate.member] using fails_element xs key
  case cyclic => simpa [Sequence.cyclic, Aggregate.member] using fails_element [.cyclic] key
  all_goals exact iff_of_false (by rintro ⟨_, h⟩; cases h) (by rintro ⟨h, _⟩; cases h)

theorem groupName_nil (v : Value) :
    groupName [] v = if hasLabel v then .ok (label v) else .error (.tooManyDigits none) := rfl

theorem groupName_cons (key : List Char) (path : List (List Char)) (v : Value) :
    groupName (key :: path) v = Aggregate.member v key >>= groupName path := by
  rw [groupName, Paths.lookup_cons]
  cases Aggregate.member v key <;> rfl

theorem fails_groupName (path : List (List Char)) (v : Value) :
    Fails (groupName path v) ↔ Groupless v path := by
  induction path generalizing v with
  | nil =>
    rw [groupName_nil]
    by_cases hl : hasLabel v = true
    · have hn := (hasLabel_iff v).mp hl
      rw [if_pos hl]
      exact iff_of_false nofun fun hg => by cases hg with | label h => exact hn h
    · have h := by_contra fun hn => hl ((hasLabel_iff v).mpr hn)
      rw [if_neg hl]
      exact iff_of_true ⟨_, rfl⟩ (.label h)
  | cons key path ih =>
    rw [groupName_cons]
    cases hm : Aggregate.member v key with
    | error e =>
      obtain ⟨hs, hk⟩ := (fails_member v key).mp ⟨e, hm⟩
      exact iff_of_true ⟨e, rfl⟩ (.index hs hk)
    | ok w =>
      have hf : ¬ (Sequence v ∧ Unreadable key) := by
        rw [← fails_member, hm]
        nofun
      refine (ih w).trans ⟨.member hm, fun hg => ?_⟩
      cases hg with
      | index hs hk => exact absurd ⟨hs, hk⟩ hf
      | member hw hg =>
        rw [hm] at hw
        cases hw
        exact hg

theorem fails_groupInto (path : List (List Char)) (items : List Value) (gs : Groups) :
    Fails (groupInto path gs items) ↔ ∃ item ∈ items, Groupless item path := by
  induction items generalizing gs with
  | nil => simp [groupInto, Fails]
  | cons item items ih =>
    rw [groupInto, List.exists_mem_cons_iff, ← fails_groupName]
    cases hn : groupName path item with
    | error e => simp [Fails]
    | ok name => simpa [Fails] using ih (gs.add name item)

/-- When each aggregate of a value fails. -/
structure Failures (v : Value) (path : String) : Prop where
  average : Fails (Aggregate.average v) ↔ Single v ∨ Overflows (parts v)
  sum : Fails (Aggregate.sum v) ↔ Single v ∨ Overflows (parts v)
  greatest : Fails (Aggregate.greatest v) ↔ Single v
  least : Fails (Aggregate.least v) ↔ Single v
  groupBy : Fails (Aggregate.groupBy v (.str path)) ↔
    Single v ∨ ∃ item ∈ parts v, Groupless item (splitAt '.' path.toList)

/-- Aggregates fail on values that cannot be gone through. Otherwise averages and sums fail only
where they overflow, extremes do not, and groups fail only where an item has none. Depth alone makes
nothing fail here, where a machine runs out of stack on values that are nested too deep. -/
theorem aggregates_fail_iff (v : Value) (path : String) : Failures v path where
  average := fails_average v
  sum := fails_sum v
  greatest := fails_map _ v
  least := fails_map _ v
  groupBy := by
    refine fails_elements (fun vs => ∃ item ∈ vs, Groupless item (splitAt '.' path.toList))
      (fun e he => by rw [Aggregate.groupBy, he]) fun vs he => ?_
    rw [Aggregate.groupBy, he]
    exact fails_groupInto _ vs []

end Reckoner.Proofs.Failing
