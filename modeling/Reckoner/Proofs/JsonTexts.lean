import Reckoner.Proofs.IntegerText
import Reckoner.Proofs.Layouts
import Reckoner.Proofs.Quoting

namespace Reckoner.Proofs.JsonTexts
open Text Spellings Layouts Quoting

/-- What may stand after a value: nothing, a mark that ends it, or a gap. -/
def Follows (cs : List Char) : Prop :=
  ∀ c, cs.head? = some c → c = ',' ∨ c = ' ' ∨ c = '\n' ∨ c = ']' ∨ c = '\x7d'

theorem follows_mark {c : Char} (hc : c = ',' ∨ c = ']' ∨ c = '\x7d') (cs : List Char) :
    Follows (c :: cs) := by
  intro d hd
  cases hd
  rcases hc with rfl | rfl | rfl <;> simp

theorem Follows.apart {cs : List Char} (h : Follows cs) : Apart cs := by
  intro c hc
  rcases h c hc with rfl | rfl | rfl | rfl | rfl <;> simp

theorem skipSpace_cons {c : Char} (hc : Json.isSpace c = false) (cs : List Char) :
    Json.skipSpace (c :: cs) = c :: cs := by
  rw [Json.skipSpace, List.dropWhile_cons_of_neg (by simp [hc])]

/-- A text that is read as a value, whatever mark stands after it. -/
structure JsonText (cs : List Char) (v : Value) : Prop where
  opens : ∃ c ds, cs = c :: ds ∧ Json.isSpace c = false ∧ c ≠ ']'
  read : ∀ rest fuel, Follows rest → cs.length ≤ fuel + 1 →
    Json.value (fuel + 1) (cs ++ rest) = .ok (v, rest)

variable {cs : List Char} {v : Value}

theorem JsonText.read_at (h : JsonText cs v) {rest : List Char} {fuel : Nat} (hr : Follows rest)
    (hf : cs.length ≤ fuel) : Json.value fuel (cs ++ rest) = .ok (v, rest) := by
  cases fuel with
  | zero =>
    obtain ⟨c, ds, rfl, -⟩ := h.opens
    contradiction
  | succ fuel => exact h.read rest fuel hr hf

theorem JsonText.skipSpace (h : JsonText cs v) (rest : List Char) :
    Json.skipSpace (cs ++ rest) = cs ++ rest := by
  obtain ⟨c, ds, rfl, hc, -⟩ := h.opens
  exact skipSpace_cons hc _

theorem value_mark (fuel : Nat) (cs : List Char) :
    Json.value (fuel + 1) ('\uFEFF' :: cs) = .error (.at .value (cs.length + 1)) := by
  unfold Json.value
  rfl

theorem JsonText.unmarked (h : JsonText cs v) : cs.head? ≠ some '\uFEFF' := by
  intro hm
  obtain ⟨c, ds, rfl, -⟩ := h.opens
  cases hm
  have hr := h.read [] (ds.length + 1) (fun c hc => by cases hc) (by simp)
  rw [List.append_nil, value_mark] at hr
  cases hr

/-- A text as a whole is read as its value. -/
theorem JsonText.whole (h : JsonText cs v) : Json.read cs = .ok v := by
  have hs := h.skipSpace []
  have hr := h.read [] (2 * cs.length + 1) (fun c hc => by cases hc) (by omega)
  rw [List.append_nil] at hs hr
  rw [Json.read, if_neg h.unmarked, hs]
  simp only [hr]
  rfl

theorem null_text : JsonText "null".toList .none where
  opens := ⟨'n', _, rfl, rfl, by decide⟩
  read := by
    intro rest fuel _ _
    unfold Json.value
    rfl

theorem bool_text (b : Bool) : JsonText (if b then "true" else "false").toList (.bool b) := by
  cases b with
  | true =>
    refine ⟨⟨'t', _, rfl, rfl, by decide⟩, ?_⟩
    intro rest fuel _ _
    unfold Json.value
    rfl
  | false =>
    refine ⟨⟨'f', _, rfl, rfl, by decide⟩, ?_⟩
    intro rest fuel _ _
    unfold Json.value
    rfl

theorem value_quote (fuel : Nat) (cs : List Char) :
    Json.value (fuel + 1) ('"' :: cs) =
      (Json.stringTail (cs.length + 1) cs).map fun r => (.str (String.ofList r.1), r.2) := by
  unfold Json.value
  rfl

theorem string_text (ascii : Bool) (cs : List Char) :
    JsonText (Json.string ascii cs) (.str (String.ofList cs)) where
  opens := ⟨'"', _, rfl, rfl, by decide⟩
  read := by
    intro rest fuel _ _
    rw [Json.string, List.cons_append, List.append_assoc, List.singleton_append, value_quote,
      stringTail_text]
    rfl

/-- What starts with a digit, after a minus or without one, is a number. -/
theorem value_number {d : Nat} (hd : d < 10) (negative : Bool) (fuel : Nat) (cs : List Char) :
    Json.value (fuel + 1) ((if negative then ['-'] else []) ++ digitChar d :: cs) =
      (Json.unsigned? negative (digitChar d :: cs)).getD
        (.error (.at .value ((if negative then ['-'] else []) ++ digitChar d :: cs).length)) := by
  unfold Json.value
  cases negative with
  | true => interval_cases d <;> rfl
  | false => interval_cases d <;> rfl

/-- A spelling after its sign is read as what the reader of numbers makes of it. -/
theorem number_text {s : Spelling} (hs : s.Regular) (negative : Bool)
    (hv : ∀ rest, Apart rest → Json.unsigned? negative (s.text ++ rest) = some (.ok (v, rest))) :
    JsonText ((if negative then ['-'] else []) ++ s.text) v := by
  obtain ⟨d, hd, cs, ht⟩ := spelling_head hs
  rw [ht] at hv ⊢
  constructor
  · cases negative with
    | true => exact ⟨'-', _, rfl, rfl, by decide⟩
    | false =>
      refine ⟨digitChar d, cs, rfl, ?_⟩
      interval_cases d <;> exact ⟨rfl, by decide⟩
  · intro rest fuel hr _
    rw [List.append_assoc, List.cons_append, value_number hd, ← List.cons_append, hv rest hr.apart]
    rfl

theorem naturalSpelling_text (n : Nat) : (naturalSpelling n).text = natText n := by
  simp [naturalSpelling, Spelling.text, Spelling.fractionText, Spelling.exponentText, natText,
    digitsText]

theorem natText_head (n : Nat) : ∃ d < 10, ∃ cs, natText n = digitChar d :: cs := by
  have h := spelling_head (naturalSpelling_regular n)
  rwa [naturalSpelling_text] at h

/-- The digits of an integer with too many of them stop the reader. -/
theorem value_long {n : Nat} (hn : Numeral.digitLimit < (decimalDigits n).length) (fuel : Nat)
    {rest : List Char} (hr : Follows rest) :
    Json.value (fuel + 1) (natText n ++ rest) =
      .error (.tooManyDigits (decimalDigits n).length) := by
  have hw := json_whole (naturalSpelling_regular n) ⟨rfl, rfl⟩ false hr.apart
  rw [if_pos (show Numeral.digitLimit < (naturalSpelling n).whole.length from hn),
    naturalSpelling_text] at hw
  obtain ⟨d, hd, cs, ht⟩ := natText_head n
  rw [ht, List.cons_append] at hw ⊢
  have hv := value_number hd false fuel (cs ++ rest)
  rw [hw] at hv
  exact hv

/-- A whole number in digits is read as an integer. -/
theorem numeral_text {s : Spelling} (hs : s.Regular) (hn : s.IsNumeral)
    (hl : s.whole.length ≤ Numeral.digitLimit) (negative : Bool) :
    JsonText ((if negative then ['-'] else []) ++ s.text)
      (.int (if negative then -(s.digits : Int) else s.digits)) :=
  number_text hs negative fun _ hr => json_numeral hs hn hl negative hr

/-- Any other number is read as a floating point number. -/
theorem decimal_text {s : Spelling} (hs : s.Regular) (hn : ¬ s.IsNumeral) (negative : Bool) :
    JsonText ((if negative then ['-'] else []) ++ s.text)
      (.float (.ofDecimal negative s.digits s.scale)) :=
  number_text hs negative fun _ hr => json_decimal hs hn negative hr

theorem naturalSpelling_digits (n : Nat) : (naturalSpelling n).digits = n := by
  rw [Spelling.digits, naturalSpelling, List.append_nil, natOf_decimalDigits]

theorem two_pow_le_limit {k : Nat} (hk : k ≤ Numeral.digitLimit) :
    2 ^ k ≤ 10 ^ Numeral.digitLimit :=
  (Nat.pow_le_pow_left (by omega) k).trans (Nat.pow_le_pow_right (by omega) hk)

theorem decimalDigits_le_iff (n : Nat) :
    (decimalDigits n).length ≤ Numeral.digitLimit ↔ n < 10 ^ Numeral.digitLimit := by
  rcases Nat.eq_zero_or_pos n with rfl | hp
  · exact iff_of_true (by decide) (by positivity)
  · rw [Digits.decimalDigits_eq hp, List.length_reverse]
    exact Nat.digits_length_le_iff (by omega) n

theorem decimalDigits_length {n : Nat} (hn : n < 10 ^ Numeral.digitLimit) :
    (decimalDigits n).length ≤ Numeral.digitLimit :=
  (decimalDigits_le_iff n).mpr hn

/-- The least integer with too many digits. -/
def longInteger : Nat := 10 ^ Numeral.digitLimit

theorem longInteger_long : Numeral.digitLimit < (decimalDigits longInteger).length := by
  rw [← Nat.not_le, decimalDigits_le_iff]
  exact Nat.lt_irrefl _

theorem hasText_long {n : Nat} (hn : Numeral.digitLimit < (decimalDigits n).length) :
    (Value.int n).hasText = false := by
  rw [Value.hasText, Int.natAbs_natCast]
  exact decide_eq_false (Nat.not_le.mpr hn)

theorem int_text {n : Int} (hn : n.natAbs < 10 ^ Numeral.digitLimit) :
    JsonText (intText n) (.int n) := by
  have h := numeral_text (naturalSpelling_regular n.natAbs) ⟨rfl, rfl⟩ (decimalDigits_length hn)
    (decide (n < 0))
  rw [naturalSpelling_digits] at h
  have hv : (if decide (n < 0) = true then -(n.natAbs : Int) else n.natAbs) = n := by
    by_cases hs : n < 0
    · rw [if_pos (decide_eq_true hs)]
      omega
    · rw [if_neg (by simpa using hs)]
      omega
  rw [hv] at h
  rw [intText_eq]
  simpa using h

/-- Digits without needless zeros are those of their number. -/
theorem decimalDigits_natOf {s : Spelling} (hs : s.Regular) :
    decimalDigits (Numeral.natOf s.whole) = s.whole := by
  rcases hs.leading with hw | ⟨d, ds, hw, h0⟩
  · rw [hw]
    rfl
  · have hd : Nat.digits 10 (Numeral.natOf s.whole) = s.whole.reverse := by
      rw [natOf_eq_ofDigits]
      refine Nat.digits_ofDigits 10 (by omega) _ ?_ ?_
      · intro x hx
        exact hs.whole x (List.mem_reverse.mp hx)
      · intro _
        rw [List.getLast_reverse]
        simpa [hw] using h0
    have hp : 0 < Numeral.natOf s.whole := by
      rw [Nat.pos_iff_ne_zero]
      intro hz
      rw [hz] at hd
      simp [hw] at hd
    rw [Digits.decimalDigits_eq hp, hd, List.reverse_reverse]

/-- A numeral is spelt as its number is. -/
theorem numeral_eq {s : Spelling} (hs : s.Regular) (hn : s.IsNumeral) :
    s = naturalSpelling s.digits := by
  obtain ⟨ws, fs, e⟩ := s
  obtain ⟨rfl, rfl⟩ := hn
  have hd := decimalDigits_natOf hs
  simp only [naturalSpelling, Spelling.digits, List.append_nil, hd]

theorem natText_inj {a b : Nat} (h : natText a = natText b) : a = b := by
  have hr : ∀ n, Json.natOf (natText n) = n := fun n =>
    (jsonNatOf_digitsText (Digits.decimalDigits_lt n)).trans (natOf_decimalDigits n)
  rw [← hr a, h, hr b]

theorem minus_notMem_natText (n : Nat) : '-' ∉ natText n := by
  intro hm
  have := Digits.natText_isDigit n _ hm
  contradiction

theorem intText_inj {a b : Int} (h : intText a = intText b) : a = b := by
  rw [intText, intText] at h
  split at h
  · split at h
    · rw [List.cons.injEq] at h
      have := natText_inj h.2
      omega
    · exact absurd (h ▸ List.mem_cons_self) (minus_notMem_natText b.natAbs)
  · split at h
    · exact absurd (h ▸ List.mem_cons_self) (minus_notMem_natText a.natAbs)
    · have := natText_inj h
      omega

/-- A number that is not whole, or has an exponent, has a character that no integer has. -/
theorem not_numeral_mark {s : Spelling} (hs : ¬ s.IsNumeral) : '.' ∈ s.text ∨ 'e' ∈ s.text := by
  obtain ⟨ws, fs, e⟩ := s
  cases fs with
  | cons f fs => exact .inl (by simp [Spelling.text, Spelling.fractionText])
  | nil =>
    cases e with
    | none => exact absurd ⟨rfl, rfl⟩ hs
    | some p => exact .inr (by simp [Spelling.text, Spelling.exponentText])

theorem not_numeral_text {s : Spelling} (hs : ¬ s.IsNumeral) (cs : List Char) (n : Int) :
    cs ++ s.text ≠ intText n := by
  intro h
  have hm : ∀ c, c ∈ s.text → c.isDigit = true ∨ c = '-' := by
    intro c hc
    exact Digits.intText_chars n c (h ▸ List.mem_append_right _ hc)
  rcases not_numeral_mark hs with hc | hc
  · rcases hm _ hc with hd | hd <;> contradiction
  · rcases hm _ hc with hd | hd <;> contradiction

theorem digits_pos {m : Nat} (hm : m ≠ 0) (hlt : m < Binary64.magnitudes) :
    0 < (magnitudeSpelling .snippet m).digits := by
  rw [Nat.pos_iff_ne_zero]
  intro hz
  have h := ofDecimal_magnitude snippet_faithful false hlt
  rw [hz, Binary64.ofDecimal, if_pos rfl, Binary64.zero, Binary64.ofMag, dif_pos (by decide),
    Binary64.fin.injEq, Fin.mk.injEq] at h
  exact hm h.2.symm

/-- Numerals of floating point numbers have at most as many digits as places. -/
theorem numeral_short {m : Nat} (hn : (magnitudeSpelling .snippet m).IsNumeral) :
    (magnitudeSpelling .snippet m).whole.length ≤ Numeral.digitLimit := by
  have hh : Layout.snippet.highest = 21 := rfl
  have hl : Numeral.digitLimit = 4300 := rfl
  obtain ⟨-, he⟩ := hn
  rw [hl]
  unfold magnitudeSpelling spelling at he ⊢
  split
  · simp
  · next hm =>
    rw [if_neg hm] at he
    split
    · next hp =>
      simp only [Bool.and_eq_true, decide_eq_true_eq, hh] at hp
      split
      · simp
      · split
        · simp only [List.length_append, List.length_replicate]
          omega
        · simp only [List.length_take]
          omega
    · next hp => simp [hp] at he

def digitsInt (s : Bool) (m : Nat) : Int :=
  if s && decide (m ≠ 0) then -((magnitudeSpelling .snippet m).digits : Int)
  else (magnitudeSpelling .snippet m).digits

theorem digitsInt_eq (s : Bool) (m : Nat) : digitsInt s m =
    if s then -((magnitudeSpelling .snippet m).digits : Int)
    else (magnitudeSpelling .snippet m).digits := by
  by_cases hm : m = 0
  · subst m
    cases s <;> decide +kernel
  · simp [digitsInt, hm]

variable {s : Bool} {m : Fin Binary64.magnitudes}

theorem snippet_text (s : Bool) (m : Fin Binary64.magnitudes) :
    (Binary64.fin s m).text .snippet =
      (if s && decide (m.val ≠ 0) then ['-'] else []) ++ (magnitudeSpelling .snippet m).text := by
  have ht := text_fin snippet_faithful s m
  have hsign : Layout.snippet.signsZero = false := rfl
  rwa [signText, hsign, Bool.or_false] at ht

/-- A number that is spelt as a numeral has the text of an integer. -/
theorem numeral_intText (hn : (magnitudeSpelling .snippet m).IsNumeral) :
    (Binary64.fin s m).text .snippet = intText (digitsInt s m) := by
  have he := numeral_eq (magnitudeSpelling_regular snippet_faithful m.isLt) hn
  rw [snippet_text, intText_eq, digitsInt]
  by_cases hs : (s && decide (m.val ≠ 0)) = true
  · have hm : m.val ≠ 0 := by
      rw [Bool.and_eq_true, decide_eq_true_eq] at hs
      exact hs.2
    have hp := digits_pos hm m.isLt
    rw [if_pos hs, if_pos hs, if_pos (by omega), Int.natAbs_neg, Int.natAbs_natCast, ← he]
  · rw [if_neg hs, if_neg hs, if_neg (by omega), Int.natAbs_natCast, ← he]

/-- Only a number that is spelt as a numeral has the text of an integer. -/
theorem numeral_of_intText {n : Int} (h : (Binary64.fin s m).text .snippet = intText n) :
    (magnitudeSpelling .snippet m).IsNumeral ∧ n = digitsInt s m := by
  by_cases hn : (magnitudeSpelling .snippet m).IsNumeral
  · exact ⟨hn, intText_inj (h.symm.trans (numeral_intText hn))⟩
  · rw [snippet_text] at h
    exact absurd h (not_numeral_text hn _ n)

/-- A finite number is read back as itself, unless its text is that of an integer. -/
theorem float_text {x : Binary64} (hx : x.isFinite = true) :
    ∃ w, JsonText (x.text .snippet) w ∧
      ((∃ n, x.text .snippet = intText n ∧ w = .int n) ∨
        ((∀ n, x.text .snippet ≠ intText n) ∧ w = .float x)) := by
  cases x with
  | nan => contradiction
  | inf s => contradiction
  | fin s m =>
    have hr := magnitudeSpelling_regular snippet_faithful m.isLt
    by_cases hn : (magnitudeSpelling .snippet m).IsNumeral
    · have hj := numeral_text hr hn (numeral_short hn) (s && decide (m.val ≠ 0))
      rw [← snippet_text] at hj
      exact ⟨_, hj, .inl ⟨_, numeral_intText hn, rfl⟩⟩
    · have hm : m.val ≠ 0 := by
        intro hm
        rw [hm, magnitudeSpelling, if_pos rfl] at hn
        exact hn ⟨rfl, rfl⟩
      have hj := decimal_text hr hn s
      have ht := snippet_text s m
      rw [ofDecimal_magnitude snippet_faithful s m.isLt] at hj
      rw [decide_eq_true hm, Bool.and_true] at ht
      rw [← ht] at hj
      exact ⟨_, hj, .inr ⟨fun n h => hn (numeral_of_intText h).1, rfl⟩⟩

/-- The literal of a number, finite or not, is read as that number. -/
theorem literal_text (x : Binary64) : JsonText (x.text .literal) (.float x) := by
  cases x with
  | nan =>
    refine ⟨⟨'N', _, rfl, rfl, by decide⟩, ?_⟩
    intro rest fuel _ _
    unfold Json.value
    rfl
  | inf s =>
    cases s with
    | false =>
      refine ⟨⟨'I', _, rfl, rfl, by decide⟩, ?_⟩
      intro rest fuel _ _
      unfold Json.value
      rfl
    | true =>
      refine ⟨⟨'-', _, rfl, rfl, by decide⟩, ?_⟩
      intro rest fuel _ _
      unfold Json.value
      rfl
  | fin s m =>
    have hj := decimal_text (magnitudeSpelling_regular literal_faithful m.isLt)
      (marked_not_numeral literal_faithful rfl m.isLt) s
    have hsign : Layout.literal.signsZero = true := rfl
    rw [ofDecimal_magnitude literal_faithful s m.isLt] at hj
    rwa [text_fin literal_faithful, signText, hsign, Bool.or_true, Bool.and_true]

def Gap (cs : List Char) : Prop := ∀ c ∈ cs, c = ' ' ∨ c = '\n'

theorem Gap.skipSpace {g : List Char} (h : Gap g) (cs : List Char) :
    Json.skipSpace (g ++ cs) = Json.skipSpace cs := by
  refine List.dropWhile_append_of_pos fun c hc => ?_
  rcases h c hc with rfl | rfl <;> rfl

theorem gap_nil : Gap [] := by simp [Gap]

theorem newline_gap (s : Json.Style) (depth : Nat) : Gap (s.newline depth) := by
  intro c hc
  unfold Json.Style.newline at hc
  split at hc
  · cases hc
  · rcases List.mem_cons.mp hc with rfl | hc
    · exact .inr rfl
    · exact .inl (List.mem_replicate.mp hc).2

theorem comma_gap (s : Json.Style) (depth : Nat) : ∃ g, Gap g ∧ s.comma depth = ',' :: g := by
  unfold Json.Style.comma
  split
  · exact ⟨_, newline_gap s depth, rfl⟩
  · split
    · exact ⟨[' '], by simp [Gap], rfl⟩
    · exact ⟨[], gap_nil, rfl⟩

theorem colon_gap (s : Json.Style) : ∃ g, Gap g ∧ s.colon = ':' :: g := by
  unfold Json.Style.colon
  split
  · exact ⟨[' '], by simp [Gap], rfl⟩
  · exact ⟨[], gap_nil, rfl⟩

/-- Texts after the commas of a style. -/
def followed (s : Json.Style) (depth : Nat) (ts : List (List Char)) : List Char :=
  ts.flatMap (s.comma depth ++ ·)

section
variable (s : Json.Style) (depth : Nat) {g : List Char}

theorem followed_cons (t : List Char) (ts : List (List Char)) :
    ∃ c, Gap c ∧ followed s depth (t :: ts) = ',' :: (c ++ (t ++ followed s depth ts)) := by
  obtain ⟨c, hc, he⟩ := comma_gap s depth
  exact ⟨c, hc, by simp [followed, he]⟩

theorem follows_followed (hg : Gap g) (ts : List (List Char)) {c : Char}
    (hc : c = ']' ∨ c = '\x7d') (rest : List Char) :
    Follows (followed s depth ts ++ (g ++ c :: rest)) := by
  cases ts with
  | nil =>
    cases g with
    | nil => exact follows_mark (.inr hc) rest
    | cons d g =>
      intro e he
      cases he
      rcases hg _ List.mem_cons_self with rfl | rfl <;> simp
  | cons t ts =>
    obtain ⟨d, -, he⟩ := followed_cons s depth t ts
    rw [he]
    exact follows_mark (.inl rfl) _

theorem Gap.close (hg : Gap g) {c : Char} (hc : c = ']' ∨ c = '\x7d') (rest : List Char) :
    Json.skipSpace (g ++ c :: rest) = c :: rest := by
  rw [hg.skipSpace]
  rcases hc with rfl | rfl <;> exact skipSpace_cons rfl _

theorem elements_last {fuel : Nat} {cs after rest : List Char} {x : Value}
    (hx : Json.value fuel cs = .ok (x, after)) (ha : Json.skipSpace after = ']' :: rest) :
    Json.elements (fuel + 1) cs = .ok ([x], rest) := by
  unfold Json.elements
  simp only [hx, bind, Except.bind, ha]

theorem elements_more {fuel : Nat} {cs after next rest : List Char} {x : Value} {xs : List Value}
    (hx : Json.value fuel cs = .ok (x, ',' :: after)) (ha : Json.skipSpace after = next)
    (hxs : Json.elements fuel next = .ok (xs, rest)) :
    Json.elements (fuel + 1) cs = .ok (x :: xs, rest) := by
  unfold Json.elements
  simp only [hx, bind, Except.bind, skipSpace_cons (c := ',') rfl, ha, hxs]

/-- Elements are read one after the other up to the closing bracket. -/
theorem elements_read (hg : Gap g) {p : List Char × Value} {ps : List (List Char × Value)}
    (hp : ∀ q ∈ p :: ps, JsonText q.1 q.2) {fuel : Nat} {rest : List Char}
    (hf : (p.1 ++ followed s depth (ps.map Prod.fst)).length < fuel) :
    Json.elements fuel (p.1 ++ (followed s depth (ps.map Prod.fst) ++ (g ++ ']' :: rest))) =
      .ok ((p :: ps).map Prod.snd, rest) := by
  have hfo := fun ts => follows_followed s depth hg ts (.inl rfl) rest
  induction ps generalizing p fuel with
  | nil =>
    rw [List.length_append] at hf
    obtain ⟨fuel, rfl⟩ : ∃ k, fuel = k + 1 := ⟨fuel - 1, by omega⟩
    exact elements_last ((hp p List.mem_cons_self).read_at (hfo []) (by omega))
      (hg.close (.inl rfl) rest)
  | cons q ps ih =>
    obtain ⟨c, hc, he⟩ := followed_cons s depth q.1 (ps.map Prod.fst)
    have hx := fun k (hk : p.1.length ≤ k) => (hp p List.mem_cons_self).read_at
      (hfo ((q :: ps).map Prod.fst)) hk
    rw [List.map_cons, he] at hf hx ⊢
    simp only [List.length_append, List.length_cons] at hf
    obtain ⟨fuel, rfl⟩ : ∃ k, fuel = k + 1 := ⟨fuel - 1, by omega⟩
    have hs := (hp q (by simp)).skipSpace (followed s depth (ps.map Prod.fst) ++ (g ++ ']' :: rest))
    have hxs := ih (fun r hr => hp r (List.mem_cons_of_mem _ hr))
      (show _ < fuel by rw [List.length_append]; omega)
    have hx := hx fuel (by omega)
    simp only [List.cons_append, List.append_assoc] at hx ⊢
    exact elements_more hx ((hc.skipSpace _).trans hs) hxs

theorem elements_stopped {fuel : Nat} {cs : List Char} {e : Json.Stop}
    (h : Json.value fuel cs = .error e) : Json.elements (fuel + 1) cs = .error e := by
  unfold Json.elements
  simp only [h, bind, Except.bind]

theorem value_bracket {fuel : Nat} {cs next : List Char}
    (hs : Json.skipSpace cs = next) (hn : next.head? ≠ some ']') :
    Json.value (fuel + 1) ('[' :: cs) =
      (Json.elements fuel next).map fun r => (.list r.1, r.2) := by
  unfold Json.value
  simp only [hs]
  split
  · exact absurd rfl hn
  · rfl

theorem bracketed_cons (left right : Char) (t : List Char) (ts : List (List Char)) :
    Json.bracketed s depth left right (t :: ts) =
      left :: (s.newline (depth + 1) ++ (t ++ (followed s (depth + 1) ts ++
        (s.newline depth ++ [right])))) := by
  simp [Json.bracketed, followed]

/-- Texts between the brackets of a style are read as a list. -/
theorem list_text {ps : List (List Char × Value)}
    (hp : ∀ p ∈ ps, JsonText p.1 p.2) :
    JsonText (Json.bracketed s depth '[' ']' (ps.map Prod.fst)) (.list (ps.map Prod.snd)) := by
  cases ps with
  | nil =>
    refine ⟨⟨'[', _, rfl, rfl, by decide⟩, ?_⟩
    intro rest fuel _ _
    unfold Json.value
    rfl
  | cons p ps =>
    rw [List.map_cons, bracketed_cons]
    refine ⟨⟨'[', _, rfl, rfl, by decide⟩, ?_⟩
    intro rest fuel _ hf
    obtain ⟨c, ds, ht, -, hn⟩ := (hp p List.mem_cons_self).opens
    have hs := (hp p List.mem_cons_self).skipSpace
      (followed s (depth + 1) (ps.map Prod.fst) ++ (s.newline depth ++ ']' :: rest))
    simp only [List.length_append, List.length_cons] at hf
    simp only [List.cons_append, List.append_assoc, List.nil_append]
    rw [value_bracket (((newline_gap s (depth + 1)).skipSpace _).trans hs) (by simpa [ht] using hn),
      elements_read s (depth + 1) (newline_gap s depth) hp (by rw [List.length_append]; omega)]
    rfl

theorem bracketed_compact (left right : Char) (ts : List (List Char)) :
    Json.bracketed .compact depth left right ts = left :: ([','].intercalate ts ++ [right]) := by
  cases ts with
  | nil => rfl
  | cons t ts =>
    have hi : [','].intercalate (t :: ts) = t ++ followed .compact (depth + 1) ts := by
      induction ts generalizing t with
      | nil => simp [followed]
      | cons u ts ih =>
        rw [List.intercalate_cons_of_ne_nil (by simp), ih u]
        simp [followed, Json.Style.comma, Json.Style.compact]
    rw [bracketed_cons, hi]
    simp [Json.Style.newline, Json.Style.compact]

/-- Texts between brackets, with commas between them, are read as a list. -/
theorem array_text {ps : List (List Char × Value)} (hp : ∀ p ∈ ps, JsonText p.1 p.2) :
    JsonText ('[' :: ([','].intercalate (ps.map Prod.fst) ++ [']'])) (.list (ps.map Prod.snd)) := by
  rw [← bracketed_compact 0]
  exact list_text .compact 0 hp

/-- A member of an object in a text: its key, and the text and the value under it. -/
structure Part where
  key : String
  text : List Char
  value : Value

namespace Part

def styled (s : Json.Style) (p : Part) : List Char :=
  Json.string s.ascii p.key.toList ++ s.colon ++ p.text

def whole (p : Part) : List Char := Json.string false p.key.toList ++ ':' :: p.text

def entry (p : Part) : Value × Value := (.str p.key, p.value)

theorem styled_compact (p : Part) : p.styled .compact = p.whole := by
  simp [styled, whole, Json.Style.colon, Json.Style.compact]

theorem styled_append (p : Part) (cs : List Char) :
    ∃ c, Gap c ∧ p.styled s ++ cs =
      '"' :: (p.key.toList.flatMap (Json.escapedChar s.ascii) ++
        '"' :: ':' :: (c ++ (p.text ++ cs))) := by
  obtain ⟨c, hc, he⟩ := colon_gap s
  exact ⟨c, hc, by simp [styled, Json.string, he]⟩

theorem skipSpace_styled (p : Part) (cs : List Char) :
    Json.skipSpace (p.styled s ++ cs) = p.styled s ++ cs := by
  obtain ⟨c, -, he⟩ := p.styled_append s cs
  rw [he]
  exact skipSpace_cons rfl _

theorem length_styled (p : Part) : p.text.length < (p.styled s).length := by
  simp only [styled, Json.string, List.length_append, List.length_cons]
  omega

end Part

theorem members_last {p : Part} {fuel : Nat} {es : Entries} {cs after rest : List Char}
    (hs : Json.skipSpace (p.text ++ cs) = p.text ++ cs)
    (hv : Json.value fuel (p.text ++ cs) = .ok (p.value, after))
    (ha : Json.skipSpace after = '\x7d' :: rest) :
    Json.members (fuel + 1) es (p.styled s ++ cs) =
      .ok (es.insert (.str p.key) p.value, rest) := by
  obtain ⟨c, hc, he⟩ := p.styled_append s cs
  rw [he]
  unfold Json.members
  simp only [stringTail_text, bind, Except.bind, skipSpace_cons (c := ':') rfl, hc.skipSpace, hs,
    hv, String.ofList_toList, ha]

theorem members_more {p : Part} {fuel : Nat} {es es' : Entries} {cs after next rest : List Char}
    (hs : Json.skipSpace (p.text ++ cs) = p.text ++ cs)
    (hv : Json.value fuel (p.text ++ cs) = .ok (p.value, ',' :: after))
    (ha : Json.skipSpace after = next)
    (hm : Json.members fuel (es.insert (.str p.key) p.value) next = .ok (es', rest)) :
    Json.members (fuel + 1) es (p.styled s ++ cs) = .ok (es', rest) := by
  obtain ⟨c, hc, he⟩ := p.styled_append s cs
  rw [he]
  unfold Json.members
  simp only [stringTail_text, bind, Except.bind, skipSpace_cons (c := ':') rfl, hc.skipSpace, hs,
    hv, String.ofList_toList, skipSpace_cons (c := ',') rfl, ha, hm]

/-- Members are read one after the other, and written over those that were read before. -/
theorem members_read (hg : Gap g) {p : Part} {ps : List Part}
    (hp : ∀ q ∈ p :: ps, JsonText q.text q.value) {fuel : Nat} {es : Entries} {rest : List Char}
    (hf : (p.styled s ++ followed s depth (ps.map (Part.styled s))).length < fuel) :
    Json.members fuel es
        (p.styled s ++ (followed s depth (ps.map (Part.styled s)) ++ (g ++ '\x7d' :: rest))) =
      .ok (es.insertAll ((p :: ps).map Part.entry), rest) := by
  have hfo := fun ts => follows_followed s depth hg ts (.inr rfl) rest
  have hw := p.length_styled s
  induction ps generalizing p fuel es with
  | nil =>
    rw [List.length_append] at hf
    obtain ⟨fuel, rfl⟩ : ∃ k, fuel = k + 1 := ⟨fuel - 1, by omega⟩
    have h := hp p List.mem_cons_self
    exact members_last s (h.skipSpace _) (h.read_at (hfo []) (by omega)) (hg.close (.inr rfl) rest)
  | cons q ps ih =>
    obtain ⟨c, hc, he⟩ :=
      followed_cons s depth (q.styled s) (ps.map (Part.styled s))
    have h := hp p List.mem_cons_self
    have hx := fun k (hk : p.text.length ≤ k) => h.read_at (hfo ((q :: ps).map (Part.styled s))) hk
    have hsp := h.skipSpace
      (followed s depth ((q :: ps).map (Part.styled s)) ++ (g ++ '\x7d' :: rest))
    rw [List.map_cons, he] at hf hx hsp ⊢
    simp only [List.length_append, List.length_cons] at hf
    obtain ⟨fuel, rfl⟩ : ∃ k, fuel = k + 1 := ⟨fuel - 1, by omega⟩
    have hs := q.skipSpace_styled s
      (followed s depth (ps.map (Part.styled s)) ++ (g ++ '\x7d' :: rest))
    have hms := @ih q (fun r hr => hp r (List.mem_cons_of_mem _ hr)) fuel
      (es.insert (.str p.key) p.value) (by rw [List.length_append]; omega) (q.length_styled s)
    have hx := hx fuel (by omega)
    simp only [List.cons_append, List.append_assoc] at hx hsp ⊢
    exact members_more s hsp hx ((hc.skipSpace _).trans hs) hms

theorem members_stopped {p : Part} {fuel : Nat} {es : Entries} {cs : List Char} {e : Json.Stop}
    (hs : Json.skipSpace (p.text ++ cs) = p.text ++ cs)
    (hv : Json.value fuel (p.text ++ cs) = .error e) :
    Json.members (fuel + 1) es (p.styled s ++ cs) = .error e := by
  obtain ⟨c, hc, he⟩ := p.styled_append s cs
  rw [he]
  unfold Json.members
  simp only [stringTail_text, bind, Except.bind, skipSpace_cons (c := ':') rfl, hc.skipSpace, hs,
    hv]

theorem value_brace {fuel : Nat} {cs next : List Char}
    (hs : Json.skipSpace cs = next) (hn : next.head? ≠ some '\x7d') :
    Json.value (fuel + 1) ('\x7b' :: cs) =
      (Json.members fuel [] next).map fun r => (.dict r.1, r.2) := by
  unfold Json.value
  simp only [hs]
  split
  · exact absurd rfl hn
  · rfl

/-- Members between the braces of a style are read as a dictionary. -/
theorem dict_text {ps : List Part}
    (hp : ∀ p ∈ ps, JsonText p.text p.value) :
    JsonText (Json.bracketed s depth '\x7b' '\x7d' (ps.map (Part.styled s)))
      (.dict (Entries.ofList (ps.map Part.entry))) := by
  cases ps with
  | nil =>
    refine ⟨⟨'\x7b', _, rfl, rfl, by decide⟩, ?_⟩
    intro rest fuel _ _
    unfold Json.value
    rfl
  | cons p ps =>
    rw [List.map_cons, bracketed_cons]
    refine ⟨⟨'\x7b', _, rfl, rfl, by decide⟩, ?_⟩
    intro rest fuel _ hf
    obtain ⟨c, -, he⟩ := p.styled_append s
      (followed s (depth + 1) (ps.map (Part.styled s)) ++ (s.newline depth ++ '\x7d' :: rest))
    have hs := p.skipSpace_styled s
      (followed s (depth + 1) (ps.map (Part.styled s)) ++ (s.newline depth ++ '\x7d' :: rest))
    simp only [List.length_append, List.length_cons] at hf
    simp only [List.cons_append, List.append_assoc, List.nil_append]
    rw [value_brace (((newline_gap s (depth + 1)).skipSpace _).trans hs) (by rw [he]; simp),
      members_read s (depth + 1) (newline_gap s depth) hp (by rw [List.length_append]; omega)]
    rfl

/-- Texts between braces, with commas between them, are read as a dictionary. -/
theorem object_text {ps : List Part} (hp : ∀ p ∈ ps, JsonText p.text p.value) :
    JsonText ('\x7b' :: ([','].intercalate (ps.map Part.whole) ++ ['\x7d']))
      (.dict (Entries.ofList (ps.map Part.entry))) := by
  have h := dict_text .compact 0 hp
  rwa [bracketed_compact, List.map_congr_left fun p _ => p.styled_compact] at h

end

theorem insert_fresh {k : String} {v : Value} {es : Entries}
    (h : ∀ e ∈ es, e.1.same (.str k) = false) : es.insert (.str k) v = es ++ [(.str k, v)] := by
  induction es with
  | nil => rfl
  | cons e es ih =>
    obtain ⟨j, w⟩ := e
    have hj : ¬ j.same (.str k) = true := by simpa using h (j, w) List.mem_cons_self
    rw [Entries.insert, if_neg hj, ih fun f hf => h f (List.mem_cons_of_mem _ hf),
      List.cons_append]

theorem insertAll_distinct {done ps : List Part} (hd : ((done ++ ps).map Part.key).Nodup) :
    Entries.insertAll (done.map Part.entry) (ps.map Part.entry) =
      (done ++ ps).map Part.entry := by
  induction ps generalizing done with
  | nil => simp [Entries.insertAll]
  | cons p ps ih =>
    have hf : ∀ e ∈ done.map Part.entry, e.1.same (.str p.key) = false := by
      intro e he
      obtain ⟨q, hq, rfl⟩ := List.mem_map.mp he
      rw [List.map_append, List.nodup_append] at hd
      have hne := hd.2.2 q.key (List.mem_map_of_mem hq) p.key (by simp)
      simpa [Part.entry, Value.same] using hne
    have hs := @ih (done ++ [p]) (by simpa using hd)
    rw [List.map_cons, Entries.insertAll, List.foldl_cons, ← Entries.insertAll, Part.entry,
      insert_fresh hf]
    simpa [Part.entry] using hs

/-- Members with distinct keys stay apart, in their order. -/
theorem ofList_distinct {ps : List Part} (hd : (ps.map Part.key).Nodup) :
    Entries.ofList (ps.map Part.entry) = ps.map Part.entry :=
  @insertAll_distinct [] ps hd

end Reckoner.Proofs.JsonTexts
