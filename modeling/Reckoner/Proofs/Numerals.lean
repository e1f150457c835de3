import Reckoner.Aggregate.Number
import Reckoner.Proofs.Lexing
import Reckoner.Proofs.Spellings

namespace Reckoner.Proofs.Numerals
open Text Numeral Snippet Spellings

/-- A character that snippets read in no numeral, though it may stand in or around one: an
underscore, a digit of another script, or white space that is none in a snippet. -/
def isForeign (c : Char) : Bool :=
  c == '_' || ((digitValue? c).isSome && !c.isDigit) || (isBlank c && !isSpace c)

variable {c : Char}

theorem isDigit_iff (c : Char) : c.isDigit = true ↔ 48 ≤ c.toNat ∧ c.toNat ≤ 57 := by
  simp only [Char.isDigit, Bool.and_eq_true, decide_eq_true_eq, UInt32.le_iff_toNat_le]
  exact Iff.rfl

theorem digitIn_ten (c : Char) :
    digitIn? 10 c = if 48 ≤ c.toNat ∧ c.toNat ≤ 57 then some (c.toNat - 48) else none := by
  simp only [digitIn?, hexValue?, Bool.and_eq_true, decide_eq_true_eq]
  split_ifs <;> simp <;> omega

theorem digitValue?_ascii (h : c.toNat < 1632) : digitValue? c = digitIn? 10 c := by
  have ht : ∀ z ∈ decimalZeros.tail, 1632 ≤ z := by decide
  have hn : decimalZeros.tail.find? (fun z => z ≤ c.toNat && c.toNat < z + 10) = none := by
    refine List.find?_eq_none.mpr fun z hz => ?_
    have := ht z hz
    simp
    omega
  have hz : decimalZeros = 48 :: decimalZeros.tail := rfl
  rw [digitIn_ten, digitValue?, hz, List.find?_cons, hn]
  by_cases hd : 48 ≤ c.toNat ∧ c.toNat ≤ 57
  · have hb : (decide (48 ≤ c.toNat) && decide (c.toNat < 48 + 10)) = true := by
      simp
      omega
    rw [if_pos hd, hb]
    rfl
  · have hb : (decide (48 ≤ c.toNat) && decide (c.toNat < 48 + 10)) = false := by
      simp
      omega
    rw [if_neg hd, hb]
    rfl

/-- A digit has the same value on both sides unless it is foreign. -/
theorem digitValue?_familiar (h : isForeign c = false) : digitValue? c = digitIn? 10 c := by
  by_cases hl : c.toNat < 1632
  · exact digitValue?_ascii hl
  · have hd : c.isDigit = false := by
      rw [← Bool.not_eq_true, isDigit_iff]
      omega
    simp only [isForeign, hd, Bool.not_false, Bool.and_true, Bool.or_eq_false_iff] at h
    rw [digitIn_ten, if_neg (by omega)]
    simpa using h.1.2

theorem familiar_ascii (hl : 32 ≤ c.toNat) (hu : c.toNat < 128) (h : c ≠ '_') :
    isForeign c = false := by
  have hd : (digitValue? c).isSome = true → c.isDigit = true := by
    rw [digitValue?_ascii (by omega), digitIn_ten, isDigit_iff]
    split <;> simp
    omega
  have hb : isBlank c = true → isSpace c = true := by
    simp only [isBlank, isSpace, Bool.or_eq_true, Bool.and_eq_true, decide_eq_true_eq, beq_iff_eq]
    omega
  unfold isForeign
  cases hc : (digitValue? c).isSome <;> cases hs : isBlank c <;> simp_all

/-- The characters of the numerals of snippets: letters, digits, signs and points. -/
def isNumeral (c : Char) : Bool := c.isAlphanum || c == '+' || c == '-' || c == '.'

theorem isUpper_of_bounds (hl : 65 ≤ c.toNat) (hu : c.toNat ≤ 90) : c.isUpper = true :=
  decide_eq_true ⟨UInt32.le_iff_toNat_le.mpr hl, UInt32.le_iff_toNat_le.mpr hu⟩

theorem isLower_of_bounds (hl : 97 ≤ c.toNat) (hu : c.toNat ≤ 122) : c.isLower = true :=
  Bool.and_eq_true_iff.mpr ⟨decide_eq_true (UInt32.le_iff_toNat_le.mpr hl),
    decide_eq_true (UInt32.le_iff_toNat_le.mpr hu)⟩

theorem numeral_of_bounds (h : 48 ≤ c.toNat ∧ c.toNat ≤ 57 ∨ 65 ≤ c.toNat ∧ c.toNat ≤ 90 ∨
    97 ≤ c.toNat ∧ c.toNat ≤ 122) : isNumeral c = true := by
  have ha : c.isAlphanum = true := by
    refine Bool.or_eq_true_iff.mpr ?_
    rcases h with ⟨hl, hu⟩ | ⟨hl, hu⟩ | ⟨hl, hu⟩
    · exact .inr ((isDigit_iff c).mpr ⟨hl, hu⟩)
    · exact .inl (Bool.or_eq_true_iff.mpr (.inl (isUpper_of_bounds hl hu)))
    · exact .inl (Bool.or_eq_true_iff.mpr (.inr (isLower_of_bounds hl hu)))
  rw [isNumeral, ha, Bool.true_or, Bool.true_or, Bool.true_or]

theorem numeral_digit {radix d : Nat} (h : digitIn? radix c = some d) : isNumeral c = true := by
  simp only [digitIn?, hexValue?, Bool.and_eq_true, decide_eq_true_eq] at h
  refine numeral_of_bounds ?_
  split_ifs at h <;> omega

theorem familiar_numeral (h : isNumeral c = true) : isForeign c = false := by
  have hb : 43 ≤ c.toNat ∧ c.toNat < 128 := by
    simp only [isNumeral, Char.isAlphanum, Bool.or_eq_true, beq_iff_eq] at h
    rcases h with (((h | h) | rfl) | rfl) | rfl
    · have := Lexing.alpha_bounds h
      omega
    · have := Lexing.digit_bounds h
      omega
    all_goals decide
  refine familiar_ascii (by omega) hb.2 ?_
  rintro rfl
  cases h

/-- No space of snippets is a digit of a script. -/
theorem spaces_digitless : (decimalZeros.all fun z =>
    (List.range 10).all fun k => !isSpace (Char.ofNat (z + k))) = true := by
  decide +kernel

theorem familiar_space (h : isSpace c = true) : isForeign c = false := by
  have hu : c ≠ '_' := by
    rintro rfl
    revert h
    decide
  have hd : digitValue? c = none := by
    rw [digitValue?, Option.map_eq_none_iff]
    refine List.find?_eq_none.mpr fun z hz hb => ?_
    simp only [Bool.and_eq_true, decide_eq_true_eq] at hb
    have hs := List.all_eq_true.mp (List.all_eq_true.mp spaces_digitless z hz) (c.toNat - z)
      (List.mem_range.mpr (by omega))
    rw [show z + (c.toNat - z) = c.toNat by omega, Char.ofNat_toNat, h] at hs
    cases hs
  simp [isForeign, hu, hd, h]

/-- The byte order mark is a space of snippets only. -/
def mark : Char := '\uFEFF'

/-- Characters that are neither foreign nor the mark are spaces on both sides or on none. -/
theorem isBlank_eq_isSpace (hf : isForeign c = false) (hm : c ≠ mark) : isBlank c = isSpace c := by
  have hs : isSpace c = true → isBlank c = true := by
    have hn : c.toNat ≠ 0xFEFF := fun h => hm (Char.toNat_inj.mp h)
    simp only [isBlank, isSpace, Bool.or_eq_true, Bool.and_eq_true, decide_eq_true_eq, beq_iff_eq]
    omega
  cases hb : isBlank c with
  | true =>
    simp only [isForeign, hb, Bool.true_and, Bool.or_eq_false_iff, Bool.not_eq_false'] at hf
    exact hf.2.symm
  | false =>
    cases h : isSpace c with
    | true => exact hb.symm.trans (hs h)
    | false => rfl

/-- A text without foreign characters. -/
def Familiar (cs : List Char) : Prop := ∀ c ∈ cs, isForeign c = false

variable {cs rest : List Char}

theorem Familiar.of_cons (h : Familiar (c :: cs)) : isForeign c = false ∧ Familiar cs :=
  List.forall_mem_cons.mp h

def marks (cs : List Char) : List Mark := cs.map Mark.ofChar

theorem ofChar_digit {d : Nat} (hf : isForeign c = false) (h : digitIn? 10 c = some d) :
    Mark.ofChar c = .digit d := by
  rw [Mark.ofChar, digitValue?_familiar hf, h]

theorem ofChar_other (hf : isForeign c = false) (h : digitIn? 10 c = none) :
    Mark.ofChar c = .other c := by
  rw [Mark.ofChar, digitValue?_familiar hf, h]

theorem other_of_ofChar {d : Char} (h : Mark.ofChar c = .other d) : c = d := by
  unfold Mark.ofChar at h
  split at h
  · cases h
  · exact Mark.other.inj h

theorem digitsIn_ungrouped (radix : Nat) (cs : List Char) :
    digitsIn false radix cs = digitsFrom false radix cs := by
  unfold digitsIn
  split
  · rfl
  · next h =>
    cases cs with
    | nil => rfl
    | cons c cs =>
      cases hd : digitIn? radix c with
      | none => simp [digitsFrom, hd]
      | some d => simp [digitNext, hd] at h

theorem digitsFrom_subset (radix : Nat) (cs : List Char) :
    ∀ c ∈ (digitsFrom false radix cs).2, c ∈ cs := by
  induction cs with
  | nil => simp [digitsFrom]
  | cons c cs ih =>
    unfold digitsFrom
    split
    · exact fun d hd => List.mem_cons_of_mem _ (ih d hd)
    · simp

/-- Both sides take the same digits from a text. -/
theorem digitRun_marks (h : Familiar cs) : digitRun (marks cs) =
    ((digitsFrom false 10 cs).1, marks (digitsFrom false 10 cs).2) := by
  induction cs with
  | nil => rfl
  | cons c cs ih =>
    obtain ⟨hc, hcs⟩ := h.of_cons
    have hs := ih hcs
    rw [marks] at hs
    cases hd : digitIn? 10 c with
    | none => simp [marks, ofChar_other hc hd, digitRun, digitsFrom, hd]
    | some d => simp [marks, ofChar_digit hc hd, digitRun, digitsFrom, hd, hs]

theorem digitNext_eq (cs : List Char) :
    digitNext 10 cs = !(digitsFrom false 10 cs).1.isEmpty := by
  cases cs with
  | nil => rfl
  | cons c cs => cases hd : digitIn? 10 c <;> simp [digitNext, digitsFrom, hd]

/-- A sign in front of a text, true for a minus, and what follows it. -/
def signOf : List Char → Bool × List Char
  | '-' :: cs => (true, cs)
  | '+' :: cs => (false, cs)
  | cs => (false, cs)

theorem signOf_cases (cs : List Char) :
    (∃ ds, cs = '-' :: ds) ∨ (∃ ds, cs = '+' :: ds) ∨
      ((∀ ds, cs ≠ '-' :: ds) ∧ ∀ ds, cs ≠ '+' :: ds) := by
  by_cases hm : ∃ ds, cs = '-' :: ds
  · exact .inl hm
  by_cases hp : ∃ ds, cs = '+' :: ds
  · exact .inr (.inl hp)
  exact .inr (.inr ⟨not_exists.mp hm, not_exists.mp hp⟩)

theorem signOf_unsigned (hm : ∀ ds, cs ≠ '-' :: ds) (hp : ∀ ds, cs ≠ '+' :: ds) :
    signOf cs = (false, cs) := by
  unfold signOf
  split
  · exact absurd rfl (hm _)
  · exact absurd rfl (hp _)
  · rfl

theorem signOf_subset (cs : List Char) : ∀ c ∈ (signOf cs).2, c ∈ cs := by
  unfold signOf
  split <;> simp +contextual

theorem sign_marks (cs : List Char) : sign (marks cs) = ((signOf cs).1, marks (signOf cs).2) := by
  rcases signOf_cases cs with ⟨ds, rfl⟩ | ⟨ds, rfl⟩ | ⟨hm, hp⟩
  · rfl
  · rfl
  · rw [signOf_unsigned hm hp]
    unfold sign
    split
    · next h =>
      obtain ⟨c, ds, rfl, hc, -⟩ := List.map_eq_cons_iff.mp h
      rw [other_of_ofChar hc] at hm
      exact absurd rfl (hm ds)
    · next h =>
      obtain ⟨c, ds, rfl, hc, -⟩ := List.map_eq_cons_iff.mp h
      rw [other_of_ofChar hc] at hp
      exact absurd rfl (hp ds)
    · rfl

theorem exponentPart_letter (he : c = 'e' ∨ c = 'E') (cs : List Char) :
    exponentPart false (c :: cs) =
      match digitsFrom false 10 (signOf cs).2 with
      | ([], _) => none
      | (ds, rest) => some (if (signOf cs).1 then -(natOf ds : Int) else natOf ds, rest) := by
  simp only [exponentPart, if_pos he, digitsIn_ungrouped]
  rcases signOf_cases cs with ⟨ds, rfl⟩ | ⟨ds, rfl⟩ | ⟨hm, hp⟩
  · rfl
  · rfl
  · obtain ⟨⟨ds, rest⟩, hd⟩ : ∃ p, digitsFrom false 10 cs = p := ⟨_, rfl⟩
    cases ds with
    | nil => simp only [signOf, hd]
    | cons d ds => simp only [signOf, hd]

theorem exponentPart_other (he : ¬ (c = 'e' ∨ c = 'E')) (cs : List Char) :
    exponentPart false (c :: cs) = none := by
  simp only [exponentPart, if_neg he]

/-- The exponent that both sides read, if nothing follows it. -/
theorem exponent?_marks (h : Familiar (c :: cs)) : exponent? (marks (c :: cs)) =
    (exponentPart false (c :: cs)).bind fun p => if p.2.isEmpty then some p.1 else none := by
  obtain ⟨hc, hcs⟩ := h.of_cons
  by_cases he : c = 'e' ∨ c = 'E'
  · have hr := digitRun_marks fun d hd => hcs d (signOf_subset cs d hd)
    have ho : Mark.ofChar c = .other c := by
      rcases he with rfl | rfl <;> rfl
    have hcons : marks (c :: cs) = .other c :: marks cs := by rw [marks, List.map_cons, ho, marks]
    simp only [hcons, exponent?, if_pos he, sign_marks, hr, exponentPart_letter he]
    obtain ⟨ds, rest⟩ := digitsFrom false 10 (signOf cs).2
    cases ds with
    | nil => cases rest <;> rfl
    | cons d ds => cases rest <;> simp [marks]
  · rw [exponentPart_other he, Option.bind_none, marks, List.map_cons]
    cases hd : digitIn? 10 c with
    | none => simp [ofChar_other hc hd, exponent?, he]
    | some d => simp [ofChar_digit hc hd, exponent?]

def withSign (negative : Bool) (x : Binary64) : Binary64 := if negative then x.neg else x

theorem ofMag_sign (negative : Bool) (m : Nat) :
    Binary64.ofMag negative m = withSign negative (.ofMag false m) := by
  unfold Binary64.ofMag withSign
  cases negative <;> split <;> rfl

/-- A decimal is rounded alike with a sign and without it. -/
theorem ofDecimal_sign (negative : Bool) (m : Nat) (e : Int) :
    Binary64.ofDecimal negative m e = withSign negative (.ofDecimal false m e) := by
  have hi : Binary64.inf negative = withSign negative (.inf false) := by
    cases negative <;> rfl
  unfold Binary64.ofDecimal
  split_ifs
  · exact ofMag_sign negative _
  · exact hi
  · exact ofMag_sign negative _
  · exact ofMag_sign negative _
  · exact ofMag_sign negative _

theorem isNaN_ofMag (negative : Bool) (m : Nat) : (Binary64.ofMag negative m).isNaN = false := by
  unfold Binary64.ofMag
  split <;> rfl

theorem isNaN_ofDecimal (negative : Bool) (m : Nat) (e : Int) :
    (Binary64.ofDecimal negative m e).isNaN = false := by
  unfold Binary64.ofDecimal
  split_ifs
  · exact isNaN_ofMag negative _
  · rfl
  · exact isNaN_ofMag negative _
  · exact isNaN_ofMag negative _
  · exact isNaN_ofMag negative _

theorem digitIn_some {d : Nat} (h : digitIn? 10 c = some d) : d < 10 ∧ digitChar d = c := by
  rw [digitIn_ten] at h
  split at h
  · cases h
    refine ⟨by omega, ?_⟩
    rw [digitChar, show 48 + (c.toNat - 48) = c.toNat by omega, Char.ofNat_toNat]
  · cases h

/-- A text is the digits taken from it and what follows them. -/
theorem digitsFrom_split (cs : List Char) : AllDigits (digitsFrom false 10 cs).1 ∧
    cs = digitsText (digitsFrom false 10 cs).1 ++ (digitsFrom false 10 cs).2 := by
  induction cs with
  | nil => exact ⟨nofun, rfl⟩
  | cons c cs ih =>
    cases hd : digitIn? 10 c with
    | none => simp [digitsFrom, hd, AllDigits, digitsText]
    | some d =>
      obtain ⟨hl, hc⟩ := digitIn_some hd
      obtain ⟨ha, ht⟩ := ih
      simp only [digitsFrom, hd, digitsText, List.map_cons, List.cons_append, hc]
      exact ⟨List.forall_mem_cons.mpr ⟨hl, ha⟩, congrArg (c :: ·) ht⟩

/-- Letters that name infinity outside of snippets, though they are not the name in a snippet. -/
def NamesInfinity (cs : List Char) : Prop :=
  (cs.map Char.toLower = "inf".toList ∨ cs.map Char.toLower = "infinity".toList) ∧
    cs ≠ "Infinity".toList

/-- What an unsigned text is read as outside of a snippet, where a sign went before, and in it. -/
inductive Reading (negative : Bool) (cs : List Char) : Option Binary64 → Option Binary64 → Prop
  | neither : Reading negative cs none none
  | nan : Reading negative cs (some .nan) none
  | both (x : Binary64) : Reading negative cs (some (withSign negative x)) (some x)
  /-- Digits alone are rounded once outside of snippets. -/
  | whole (ds : List Nat) (digits : AllDigits ds) (text : cs = digitsText ds) :
      Reading negative cs (some (.ofDecimal negative (natOf ds) 0)) (some (wholeNumber 10 ds))
  | name (infinity : NamesInfinity cs) : Reading negative cs (some (.inf negative)) none

/-- A number that a reader found and after which nothing is left. -/
def entire? : Option (Binary64 × List Char) → Option Binary64
  | some (x, []) => some x
  | _ => none

variable {negative : Bool}

/-- The number outside of snippets once its digits are known: an exponent may follow. -/
def scaled? (negative : Bool) (whole fraction : List Nat) (rest : List Mark) : Option Binary64 :=
  if whole.isEmpty && fraction.isEmpty then none
  else (exponent? rest).map fun e =>
    .ofDecimal negative (natOf (whole ++ fraction)) (e - fraction.length)

/-- The number in a snippet once its digits are known, and what follows it. -/
def scaledIn? (pointed : Bool) (whole fraction : List Nat) (rest : List Char) :
    Option (Binary64 × List Char) :=
  if whole.isEmpty && fraction.isEmpty then none
  else
    match exponentPart false rest with
    | some (e, rest) =>
      some (.ofDecimal false (natOf (whole ++ fraction)) (e - fraction.length), rest)
    | none =>
      if pointed then
        some (.ofDecimal false (natOf (whole ++ fraction)) (-(fraction.length : Int)), rest)
      else some (wholeNumber 10 whole, rest)

theorem magnitude?_point {ms rest : List Mark} {whole : List Nat}
    (h : digitRun ms = (whole, .other '.' :: rest)) :
    magnitude? negative ms = scaled? negative whole (digitRun rest).1 (digitRun rest).2 := by
  simp only [magnitude?, h, scaled?]

theorem magnitude?_plain {ms rest : List Mark} {whole : List Nat} (h : digitRun ms = (whole, rest))
    (hp : ∀ ks, rest ≠ .other '.' :: ks) :
    magnitude? negative ms = scaled? negative whole [] rest := by
  unfold magnitude? scaled?
  rw [h]
  dsimp only
  split
  · exact absurd rfl (hp _)
  · rfl

theorem fractionPart_point (afterDigits : Bool) (cs : List Char) :
    fractionPart false afterDigits ('.' :: cs) =
      if afterDigits || !(digitsFrom false 10 cs).1.isEmpty then some (digitsFrom false 10 cs)
      else none := by
  rw [fractionPart, digitNext_eq, digitsIn_ungrouped]

theorem decimal?_point {whole : List Nat} (h : digitsFrom false 10 cs = (whole, '.' :: rest)) :
    decimal? false cs =
      scaledIn? true whole (digitsFrom false 10 rest).1 (digitsFrom false 10 rest).2 := by
  simp only [decimal?, digitsIn_ungrouped, h, fractionPart_point, scaledIn?]
  obtain ⟨fraction, left⟩ := digitsFrom false 10 rest
  cases whole with
  | nil =>
    cases fraction with
    | nil => rfl
    | cons f fs => rfl
  | cons d ds => rfl

theorem decimal?_plain {whole : List Nat} (h : digitsFrom false 10 cs = (whole, rest))
    (hp : ∀ ds, rest ≠ '.' :: ds) : decimal? false cs = scaledIn? false whole [] rest := by
  have hf : fractionPart false (!whole.isEmpty) rest = none := by
    unfold fractionPart
    split
    · exact absurd rfl (hp _)
    · rfl
  simp only [decimal?, digitsIn_ungrouped, h, hf]
  rfl

/-- The same digits make the same number on both sides, whatever the exponent. -/
theorem scaled_reading (h : Familiar rest) {whole fraction : List Nat} {pointed : Bool}
    (hw : pointed = false → fraction = [] ∧ AllDigits whole ∧ cs = digitsText whole ++ rest) :
    Reading negative cs (scaled? negative whole fraction (marks rest))
      (entire? (scaledIn? pointed whole fraction rest)) := by
  unfold scaled? scaledIn?
  cases hn : whole.isEmpty && fraction.isEmpty with
  | true => exact .neither
  | false =>
    rw [if_neg Bool.false_ne_true, if_neg Bool.false_ne_true]
    cases rest with
    | nil =>
      have he : exponent? (marks []) = some 0 := rfl
      rw [he, Option.map_some, Int.zero_sub]
      cases pointed with
      | true =>
        rw [ofDecimal_sign]
        exact .both _
      | false =>
        obtain ⟨rfl, hd, ht⟩ := hw rfl
        rw [List.append_nil] at ht
        simpa [exponentPart, entire?] using Reading.whole whole hd ht
    | cons c rest =>
      rw [exponent?_marks h]
      cases he : exponentPart false (c :: rest) with
      | none => cases pointed <;> exact .neither
      | some p =>
        obtain ⟨e, left⟩ := p
        cases left with
        | nil =>
          rw [Option.bind_some, List.isEmpty_nil, if_pos rfl, Option.map_some, ofDecimal_sign]
          exact .both _
        | cons d left => exact .neither

/-- Digits, points and exponents have the same meaning on both sides. -/
theorem magnitude_reading (h : Familiar cs) :
    Reading negative cs (magnitude? negative (marks cs)) (entire? (decimal? false cs)) := by
  have hr := digitRun_marks h
  have hsub := digitsFrom_subset 10 cs
  obtain ⟨hd, ht⟩ := digitsFrom_split cs
  cases hs : digitsFrom false 10 cs with
  | mk whole rest =>
    rw [hs] at hr hsub hd ht
    by_cases hp : ∃ ds, rest = '.' :: ds
    · obtain ⟨ds, rfl⟩ := hp
      have hf : Familiar ds := fun c hc => h c (hsub c (List.mem_cons_of_mem _ hc))
      have hm : digitRun (marks cs) = (whole, .other '.' :: marks ds) := hr
      rw [magnitude?_point hm, digitRun_marks hf, decimal?_point hs]
      exact scaled_reading (fun c hc => hf c (digitsFrom_subset 10 ds c hc)) nofun
    · have hm : ∀ ks, marks rest ≠ .other '.' :: ks := by
        intro ks he
        obtain ⟨c, ds, rfl, hc, -⟩ := List.map_eq_cons_iff.mp he
        exact hp ⟨ds, by rw [other_of_ofChar hc]⟩
      rw [magnitude?_plain hr hm, decimal?_plain hs (not_exists.mp hp)]
      exact scaled_reading (fun c hc => h c (hsub c hc)) fun _ => ⟨rfl, hd, ht⟩

theorem digitIn_alpha (h : c.isAlpha = true) : digitIn? 10 c = none := by
  have := Lexing.alpha_bounds h
  rw [digitIn_ten, if_neg (by omega)]

theorem letters?_marks (h : Familiar cs) :
    letters? (marks cs) = if cs.all Char.isAlpha then some (cs.map Char.toLower) else none := by
  induction cs with
  | nil => rfl
  | cons c cs ih =>
    obtain ⟨hc, hcs⟩ := h.of_cons
    have hs := ih hcs
    simp only [letters?, marks] at hs
    cases hd : digitIn? 10 c with
    | none =>
      cases ha : c.isAlpha with
      | false => simp [letters?, marks, ofChar_other hc hd, ha]
      | true =>
        simp only [letters?, marks, List.map_cons, List.mapM_cons, ofChar_other hc hd, ha, if_true,
          List.all_cons, Bool.true_and, hs]
        cases cs.all Char.isAlpha <;> rfl
    | some d =>
      have ha : c.isAlpha = false := by
        cases ha : c.isAlpha with
        | false => rfl
        | true => rw [digitIn_alpha ha] at hd; cases hd
      simp [letters?, marks, ofChar_digit hc hd, ha]

/-- What the marks after a sign write: a name or a magnitude. -/
def bodyValue? (negative : Bool) (ms : List Mark) : Option Binary64 :=
  match letters? ms with
  | some ['i', 'n', 'f'] => some (.inf negative)
  | some ['i', 'n', 'f', 'i', 'n', 'i', 't', 'y'] => some (.inf negative)
  | some ['n', 'a', 'n'] => some .nan
  | _ => magnitude? negative ms

theorem float?_eq (cs : List Char) : float? cs =
    (marks? (trim isMargin cs)).bind fun ms => bodyValue? (sign ms).1 (sign ms).2 := rfl

theorem unsigned?_eq (cs : List Char) : unsigned? cs =
    if cs = "Infinity".toList then some (.inf false) else entire? (decimal? false cs) := by
  unfold unsigned? entire?
  split_ifs
  · rfl
  · split <;> simp_all

/-- Snippets read no number where a letter stands first, but for the name of infinity. -/
theorem decimal?_letter (h : c.isAlpha = true) (cs : List Char) :
    decimal? false (c :: cs) = none := by
  have hd : digitsFrom false 10 (c :: cs) = ([], c :: cs) := by
    simp [digitsFrom, digitIn_alpha h]
  have hp : ∀ ds, c :: cs ≠ '.' :: ds := by
    intro ds he
    rw [(List.cons.inj he).1] at h
    cases h
  rw [decimal?_plain hd hp]
  rfl

theorem isAlpha_of_toLower (h : c.toLower.isAlpha = true) : c.isAlpha = true := by
  unfold Char.toLower at h
  split at h
  · next hu =>
    have hc : c.isUpper = true := decide_eq_true hu
    exact Bool.or_eq_true_iff.mpr (.inl hc)
  · exact h

theorem NamesInfinity.letter (h : NamesInfinity cs) :
    ∃ c rest, cs = c :: rest ∧ c.isAlpha = true := by
  rcases h.1 with hm | hm
  · obtain ⟨c, rest, rfl, hc, -⟩ := List.map_eq_cons_iff.mp hm
    exact ⟨c, rest, rfl, isAlpha_of_toLower (by rw [hc]; rfl)⟩
  · obtain ⟨c, rest, rfl, hc, -⟩ := List.map_eq_cons_iff.mp hm
    exact ⟨c, rest, rfl, isAlpha_of_toLower (by rw [hc]; rfl)⟩

theorem unsigned?_name (h : NamesInfinity cs) : unsigned? cs = none := by
  obtain ⟨c, rest, rfl, hc⟩ := h.letter
  rw [unsigned?_eq, if_neg h.2, decimal?_letter hc]
  rfl

/-- The two readings of a text of letters: names of infinity and NaN, or nothing. -/
theorem letters_reading (h : Familiar cs) (ha : cs.all Char.isAlpha = true) :
    Reading negative cs (bodyValue? negative (marks cs)) (unsigned? cs) := by
  have hl := letters?_marks h
  rw [ha, if_pos rfl] at hl
  unfold bodyValue?
  rw [hl]
  split
  · next he =>
    have hm : cs.map Char.toLower = "inf".toList := Option.some.inj he
    have hi : cs ≠ "Infinity".toList := by
      rintro rfl
      cases hm
    rw [unsigned?_name ⟨.inl hm, hi⟩]
    exact .name ⟨.inl hm, hi⟩
  · next he =>
    have hm : cs.map Char.toLower = "infinity".toList := Option.some.inj he
    by_cases hi : cs = "Infinity".toList
    · rw [unsigned?_eq, if_pos hi]
      cases negative
      · exact .both (.inf false)
      · exact .both (.inf false)
    · rw [unsigned?_name ⟨.inr hm, hi⟩]
      exact .name ⟨.inr hm, hi⟩
  · next he =>
    obtain ⟨c, ds, rfl, hc, -⟩ := List.map_eq_cons_iff.mp (Option.some.inj he)
    have hi : c :: ds ≠ "Infinity".toList := by
      intro hi
      rw [hi] at he
      cases he
    rw [unsigned?_eq, if_neg hi, decimal?_letter (List.all_eq_true.mp ha c List.mem_cons_self)]
    exact .nan
  · next h2 h3 =>
    have hi : cs ≠ "Infinity".toList := by
      rintro rfl
      exact h2 rfl
    rw [unsigned?_eq, if_neg hi]
    exact magnitude_reading h

/-- The two readings of an unsigned text without foreign characters. -/
theorem unsigned_reading (negative : Bool) (h : Familiar cs) :
    Reading negative cs (bodyValue? negative (marks cs)) (unsigned? cs) := by
  cases ha : cs.all Char.isAlpha with
  | true => exact letters_reading h ha
  | false =>
    have hi : cs ≠ "Infinity".toList := by
      rintro rfl
      cases ha
    rw [unsigned?_eq, if_neg hi, bodyValue?, letters?_marks h, ha, if_neg Bool.false_ne_true]
    exact magnitude_reading h

theorem digitsText_familiar {ds : List Nat} (hd : AllDigits ds) : Familiar (digitsText ds) := by
  intro c hc
  obtain ⟨d, hm, rfl⟩ := List.mem_map.mp hc
  exact familiar_numeral (numeral_digit (digitIn_digitChar (hd d hm)))

theorem digitsText_letterless {ds : List Nat} (hd : AllDigits ds) (hn : ds ≠ []) :
    (digitsText ds).all Char.isAlpha = false := by
  obtain ⟨d, ds, rfl⟩ := List.exists_cons_of_ne_nil hn
  have hl := hd d List.mem_cons_self
  have ha : (digitChar d).isAlpha = false := by
    interval_cases d <;> rfl
  rw [digitsText, List.map_cons, List.all_cons, ha, Bool.false_and]

/-- The two readings of digits alone. -/
theorem digits_readings (negative : Bool) {ds : List Nat} (hd : AllDigits ds) (hn : ds ≠ []) :
    bodyValue? negative (marks (digitsText ds)) = some (.ofDecimal negative (natOf ds) 0) ∧
      unsigned? (digitsText ds) = some (wholeNumber 10 ds) := by
  have hf := digitsText_familiar hd
  have hl := digitsText_letterless hd hn
  have hs : digitsFrom false 10 (digitsText ds) = (ds, []) := by
    simpa using digitsFrom_digits false hd (show Stops [] from nofun)
  have hr : digitRun (marks (digitsText ds)) = (ds, []) := by
    rw [digitRun_marks hf, hs]
    rfl
  have he : ds.isEmpty = false := by simpa using hn
  constructor
  · rw [bodyValue?, letters?_marks hf, hl, if_neg Bool.false_ne_true]
    dsimp only
    rw [magnitude?_plain hr nofun]
    simp [scaled?, he, exponent?]
  · have hi : digitsText ds ≠ "Infinity".toList := by
      intro h
      rw [h] at hl
      cases hl
    rw [unsigned?_eq, if_neg hi, decimal?_plain hs nofun]
    simp [scaledIn?, he, exponentPart, entire?]

end Reckoner.Proofs.Numerals
