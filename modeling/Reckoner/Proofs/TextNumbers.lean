import Reckoner.Proofs.Denotations
import Reckoner.Proofs.Numerals
import Reckoner.Proofs.Trimming

namespace Reckoner.Proofs.TextNumbers
open Text Numeral Snippet UnitTexts Spellings Trimming Numerals

variable {cs rest : List Char} {c : Char} {negative : Bool}

/-- A reader takes characters of numerals only, up to what it leaves. -/
def TakesNumerals (cs rest : List Char) : Prop := ∀ c ∈ cs, isNumeral c = true ∨ c ∈ rest

theorem TakesNumerals.trans {mid : List Char} (h : TakesNumerals cs mid)
    (h' : TakesNumerals mid rest) : TakesNumerals cs rest :=
  fun c hc => (h c hc).elim .inl (h' c)

theorem TakesNumerals.cons (hc : isNumeral c = true) (h : TakesNumerals cs rest) :
    TakesNumerals (c :: cs) rest :=
  List.forall_mem_cons.mpr ⟨.inl hc, h⟩

theorem TakesNumerals.all (h : TakesNumerals cs []) (hc : c ∈ cs) : isNumeral c = true :=
  (h c hc).resolve_right List.not_mem_nil

theorem takes_digits (radix : Nat) (cs : List Char) :
    TakesNumerals cs (digitsFrom false radix cs).2 := by
  induction cs with
  | nil => exact nofun
  | cons c cs ih =>
    cases hd : digitIn? radix c with
    | none =>
      have hs : digitsFrom false radix (c :: cs) = ([], c :: cs) := by simp [digitsFrom, hd]
      rw [hs]
      exact fun _ => .inr
    | some d =>
      simp only [digitsFrom, hd]
      exact ih.cons (numeral_digit hd)

theorem takes_sign (cs : List Char) : TakesNumerals cs (signOf cs).2 := by
  rcases signOf_cases cs with ⟨ds, rfl⟩ | ⟨ds, rfl⟩ | ⟨hm, hp⟩
  · exact TakesNumerals.cons (by decide) fun _ => .inr
  · exact TakesNumerals.cons (by decide) fun _ => .inr
  · rw [signOf_unsigned hm hp]
    exact fun _ => .inr

theorem takes_exponent {e : Int} (h : exponentPart false cs = some (e, rest)) :
    TakesNumerals cs rest := by
  cases cs with
  | nil => cases h
  | cons c cs =>
    by_cases he : c = 'e' ∨ c = 'E'
    · have hc : isNumeral c = true := by
        rcases he with rfl | rfl <;> decide
      have ht := (takes_sign cs).trans (takes_digits 10 (signOf cs).2)
      rw [exponentPart_letter he] at h
      cases hs : digitsFrom false 10 (signOf cs).2 with
      | mk ds left =>
        rw [hs] at h ht
        cases ds with
        | nil => cases h
        | cons d ds =>
          cases h
          exact ht.cons hc
    · rw [exponentPart_other he] at h
      cases h

theorem takes_scaled {pointed : Bool} {whole fraction : List Nat} {x : Binary64}
    (h : scaledIn? pointed whole fraction cs = some (x, rest)) : TakesNumerals cs rest := by
  unfold scaledIn? at h
  split at h
  · cases h
  · cases he : exponentPart false cs with
    | none =>
      rw [he] at h
      have hr : rest = cs := by
        cases pointed <;> cases h <;> rfl
      rw [hr]
      exact fun _ => .inr
    | some p =>
      obtain ⟨e, left⟩ := p
      rw [he] at h
      cases h
      exact takes_exponent he

theorem takes_decimal {x : Binary64} (h : decimal? false cs = some (x, rest)) :
    TakesNumerals cs rest := by
  have hd := takes_digits 10 cs
  cases hs : digitsFrom false 10 cs with
  | mk whole mid =>
    rw [hs] at hd
    by_cases hp : ∃ ds, mid = '.' :: ds
    · obtain ⟨ds, rfl⟩ := hp
      rw [decimal?_point hs] at h
      exact hd.trans (.cons (by decide) ((takes_digits 10 ds).trans (takes_scaled h)))
    · rw [decimal?_plain hs (not_exists.mp hp)] at h
      exact hd.trans (takes_scaled h)

theorem takes_unsigned {x : Binary64} (h : unsigned? cs = some x) : TakesNumerals cs [] := by
  rw [unsigned?_eq] at h
  split at h
  · next hi =>
    have hf : "Infinity".toList.all isNumeral = true := by decide +kernel
    rw [hi]
    exact fun c hc => .inl (List.all_eq_true.mp hf c hc)
  · cases hd : decimal? false cs with
    | none => rw [hd] at h; cases h
    | some p =>
      obtain ⟨y, left⟩ := p
      cases left with
      | nil => exact takes_decimal hd
      | cons c left => rw [hd] at h; cases h

/-- A radix letter is a letter, but not that of an exponent. -/
theorem radixOf?_letter {radix : Nat} (h : radixOf? c = some radix) :
    isNumeral c = true ∧ digitIn? 10 c = none ∧ ¬ (c = 'e' ∨ c = 'E') ∧ c ≠ '.' := by
  have hc : c = 'x' ∨ c = 'X' ∨ c = 'o' ∨ c = 'O' ∨ c = 'b' ∨ c = 'B' := by
    unfold radixOf? at h
    split_ifs at h with h1 h2 h3 <;> tauto
  rcases hc with rfl | rfl | rfl | rfl | rfl | rfl <;> decide

theorem radixNumber?_some {x : Binary64} (h : radixNumber? false cs = some (x, rest)) :
    ∃ c radix ds, cs = '0' :: c :: ds ∧ radixOf? c = some radix ∧
      rest = (digitsFrom false radix ds).2 := by
  unfold radixNumber? at h
  split at h
  · next c ds =>
    cases hr : radixOf? c with
    | none => rw [hr] at h; cases h
    | some radix =>
      rw [hr] at h
      simp only [digitsIn_ungrouped] at h
      cases hs : digitsFrom false radix ds with
      | mk digits left =>
        rw [hs] at h
        cases digits with
        | nil => cases h
        | cons d digits =>
          cases h
          exact ⟨c, radix, ds, rfl, hr, by rw [hs]⟩
  · cases h

theorem takes_radix {x : Binary64} (h : radixNumber? false cs = some (x, rest)) :
    TakesNumerals cs rest := by
  obtain ⟨c, radix, ds, rfl, hc, rfl⟩ := radixNumber?_some h
  exact .cons (by decide) (.cons (radixOf?_letter hc).1 (takes_digits radix ds))

theorem other_mem_digitRun {ms : List Mark} {c : Char} (h : .other c ∈ ms) :
    .other c ∈ (digitRun ms).2 := by
  induction ms with
  | nil => cases h
  | cons m ms ih =>
    cases m with
    | digit d => exact ih (by simpa using h)
    | other d => exact h

theorem mark_mem_sign {ms : List Mark} (h : .other mark ∈ ms) : .other mark ∈ (sign ms).2 := by
  unfold sign
  split
  · simpa [mark] using h
  · simpa [mark] using h
  · exact h

theorem exponent?_mark {ms : List Mark} (h : .other mark ∈ ms) : exponent? ms = none := by
  cases ms with
  | nil => cases h
  | cons m ms =>
    cases m with
    | digit d => rfl
    | other c =>
      by_cases he : c = 'e' ∨ c = 'E'
      · have hms : .other mark ∈ ms := by
          rcases he with rfl | rfl <;> simpa [mark] using h
        have hr := other_mem_digitRun (mark_mem_sign hms)
        simp only [exponent?, if_pos he]
        cases hs : digitRun (sign ms).2 with
        | mk ds left =>
          rw [hs] at hr
          cases left with
          | nil => cases hr
          | cons k left => cases ds <;> rfl
      · simp only [exponent?, if_neg he]

theorem scaled?_mark {ms : List Mark} (h : .other mark ∈ ms) (whole fraction : List Nat) :
    scaled? negative whole fraction ms = none := by
  rw [scaled?, exponent?_mark h]
  exact ite_self none

theorem magnitude?_mark {ms : List Mark} (h : .other mark ∈ ms) :
    magnitude? negative ms = none := by
  have hr := other_mem_digitRun h
  cases hs : digitRun ms with
  | mk whole rest =>
    rw [hs] at hr
    by_cases hp : ∃ ks, rest = .other '.' :: ks
    · obtain ⟨ks, rfl⟩ := hp
      have hk : .other mark ∈ ks := by simpa [mark] using hr
      rw [magnitude?_point hs, scaled?_mark (other_mem_digitRun hk)]
    · rw [magnitude?_plain hs (not_exists.mp hp), scaled?_mark hr]

theorem letters?_mark {ms : List Mark} (h : .other mark ∈ ms) : letters? ms = none := by
  induction ms with
  | nil => cases h
  | cons m ms ih =>
    rcases List.mem_cons.mp h with rfl | hm
    · rfl
    · have hs := ih hm
      simp only [letters?] at hs
      cases m with
      | digit d => rfl
      | other c =>
        simp only [letters?, List.mapM_cons, hs]
        cases c.isAlpha <;> rfl

/-- Outside of snippets, a text that the mark is in writes no number. -/
theorem float?_mark {cs : List Char} (h : mark ∈ trim isMargin cs) : float? cs = none := by
  have hm : Mark.other mark ∈ (trim isMargin cs).map Mark.ofChar :=
    List.mem_map.mpr ⟨mark, h, by decide⟩
  rw [float?_eq, marks?]
  split
  · have hk : Mark.other mark ∈ ((trim isMargin cs).map Mark.ofChar).filter (· ≠ .other '_') :=
      List.mem_filter.mpr ⟨hm, by decide⟩
    have hs := mark_mem_sign hk
    rw [Option.bind_some, bodyValue?, letters?_mark hs]
    exact magnitude?_mark hs
  · rfl

theorem ofDecimal_whole (n : Nat) : Binary64.ofDecimal false n 0 = .ofInt (n : Nat) := by
  rcases Nat.eq_zero_or_pos n with rfl | hn
  · exact Integers.ofInt_zero.symm
  · have hs : decide ((n : Int) < 0) = false := by simp
    rw [Rounding.ofDecimal_natural hn, Binary64.ofInt, hs, Int.natAbs_natCast]

/-- Up to 19 digits are collected without loss, and rounded once in a snippet, too. -/
theorem wholeNumber_short {ds : List Nat} (hd : AllDigits ds) (hs : ds.length ≤ 19) :
    wholeNumber 10 ds = .ofDecimal false (natOf ds) 0 := by
  have hp : 10 ^ ds.length ≤ 10 ^ 19 := Nat.pow_le_pow_right (by omega) hs
  rw [Denotations.wholeNumber_natural ((Layouts.natOf_lt hd).trans_le hp), ofDecimal_whole]

theorem margin_blank (c : Char) (h : isBlank c = false) : isMargin c = false := by
  rw [isMargin, h, Bool.false_and]

theorem underscoresApart_none {ms : List Mark} (h : .other '_' ∉ ms) (before : Bool) :
    underscoresApart before ms = true := by
  induction ms generalizing before with
  | nil => rfl
  | cons m ms ih =>
    rw [List.mem_cons, not_or] at h
    rw [underscoresApart, if_neg (Ne.symm h.1), ih h.2]

theorem marks?_familiar (h : Familiar cs) : marks? cs = some (marks cs) := by
  have hu : .other '_' ∉ cs.map Mark.ofChar := by
    intro hm
    obtain ⟨c, hc, he⟩ := List.mem_map.mp hm
    have hf := h c hc
    rw [other_of_ofChar he] at hf
    cases hf
  rw [marks?, underscoresApart_none hu, marks]
  simp only [if_true, Option.some.injEq, List.filter_eq_self]
  intro m hm
  have hne : m ≠ .other '_' := by
    rintro rfl
    exact hu hm
  simp [hne]

/-- A trimmed text without foreign characters is read by its sign and what follows that. -/
theorem float?_familiar (h : Familiar (strip cs)) :
    float? (strip cs) = bodyValue? (signOf (strip cs)).1 (marks (signOf (strip cs)).2) := by
  rw [float?_eq, strip, trim_trim margin_blank, ← strip, marks?_familiar h, Option.bind_some,
    sign_marks]

theorem toNumber_str (s : String) : Aggregate.toNumber (.str s) =
    if strip s.toList = [] then .int 0 else .float ((float? (strip s.toList)).getD .nan) := by
  rw [Aggregate.toNumber]
  cases strip s.toList <;> rfl

/-- What a snippet reads a trimmed text as. -/
def readText? (cs : List Char) : Option Binary64 :=
  match cs with
  | [] => some (.zero false)
  | '-' :: rest => (unsigned? rest).map Binary64.neg
  | '+' :: rest => unsigned? rest
  | cs =>
    match radixNumber? false cs with
    | some (x, []) => some x
    | _ => unsigned? cs

theorem numberOfText_eq (u : Units) :
    numberOfText u = (readText? (trim isSpace (Units.toChars u))).getD .nan := rfl

theorem numberOfText_ofString (s : String) :
    numberOfText (Units.ofString s) = (readText? (trim isSpace s.toList)).getD .nan := by
  rw [numberOfText_eq, Units.ofString, toChars_ofChars]

theorem readText?_unsigned (hn : cs ≠ []) (hr : ∀ x, radixNumber? false cs ≠ some (x, [])) :
    readText? cs = (unsigned? (signOf cs).2).map (withSign (signOf cs).1) := by
  unfold readText?
  split
  · exact absurd rfl hn
  · rfl
  · exact Option.map_id'.symm
  · next hm hp =>
    rw [signOf_unsigned (fun ds he => hm ds he) fun ds he => hp ds he]
    split
    · next x he => exact absurd he (hr x)
    · exact Option.map_id'.symm

/-- The same number, or a NaN on both sides: only a NaN has no place. -/
def SameNumber (n : Aggregate.Number) (x : Binary64) : Prop := x.place? = n.place?

theorem place?_isNone (x : Binary64) : x.place?.isNone = x.isNaN := by
  cases x with
  | nan => rfl
  | inf s => cases s <;> rfl
  | fin s m => cases s <;> rfl

theorem number_place?_isNone (n : Aggregate.Number) : n.place?.isNone = n.isNaN := by
  cases n with
  | int n => rfl
  | float x => exact place?_isNone x

theorem SameNumber.isNaN {n : Aggregate.Number} {x : Binary64} (h : SameNumber n x) :
    x.isNaN = n.isNaN := by
  rw [← place?_isNone, ← number_place?_isNone, h]

theorem SameNumber.of_isNaN {n : Aggregate.Number} {x : Binary64} (hn : n.isNaN = true)
    (hx : x.isNaN = true) : SameNumber n x := by
  rw [← number_place?_isNone, Option.isNone_iff_eq_none] at hn
  rw [← place?_isNone, Option.isNone_iff_eq_none] at hx
  rw [SameNumber, hn, hx]

theorem place?_neg (x : Binary64) : x.neg.place? = x.place?.map fun p => ⟨-p.side, -p.grid⟩ := by
  cases x with
  | nan => rfl
  | inf s => cases s <;> rfl
  | fin s m => cases s <;> simp [Binary64.neg, Binary64.place?]

theorem withSign_place? {x y : Binary64} :
    (withSign negative x).place? = (withSign negative y).place? ↔ x.place? = y.place? := by
  cases negative with
  | false => exact Iff.rfl
  | true =>
    simp only [withSign, if_true, place?_neg]
    refine ⟨fun h => ?_, fun h => by rw [h]⟩
    refine Option.map_injective (fun p q he => ?_) h
    cases p
    cases q
    simpa using he

variable {s : String}

/-- The texts that the two sides read as different numbers. -/
inductive Divided (s : String) : Prop where
  /-- Only snippets know radix letters and trim the byte order mark. -/
  | snippetOnly (number : (numberOfText (Units.ofString s)).isNaN = false)
      (own : (∃ x, radixNumber? false (trim isSpace s.toList) = some (x, [])) ∨ mark ∈ s.toList)
  /-- Only the other side knows underscores, other scripts, their spaces, and other names. -/
  | hostOnly (number : (Aggregate.toNumber (.str s)).isNaN = false)
      (own : (∃ c ∈ s.toList, isForeign c = true) ∨
        NamesInfinity (signOf (strip s.toList)).2)
  /-- Snippets round twice what has too many digits for 64 bits. -/
  | rounded (ds : List Nat) (text : (signOf (strip s.toList)).2 = digitsText ds)
      (digits : AllDigits ds) (long : 19 < ds.length)
      (apart : (wholeNumber 10 ds).place? ≠ (Binary64.ofDecimal false (natOf ds) 0).place?)

theorem takes_text {x : Binary64} (h : readText? cs = some x) : TakesNumerals cs [] := by
  by_cases hn : cs = []
  · subst hn
    exact nofun
  by_cases hr : ∃ y, radixNumber? false cs = some (y, [])
  · obtain ⟨y, hy⟩ := hr
    exact takes_radix hy
  · rw [readText?_unsigned hn (not_exists.mp hr)] at h
    obtain ⟨y, hy, -⟩ := Option.map_eq_some_iff.mp h
    exact (takes_sign cs).trans (takes_unsigned hy)

/-- A text that a snippet reads as a number has characters of numerals and spaces only. -/
theorem number_characters {u : Units} (h : (numberOfText u).isNaN = false) :
    ∀ c ∈ Units.toChars u, isSpace c = true ∨ isNumeral c = true := by
  rw [numberOfText_eq] at h
  cases hr : readText? (trim isSpace (Units.toChars u)) with
  | none =>
    rw [hr] at h
    cases h
  | some x => exact fun c hc => (mem_trim hc).imp_right (takes_text hr).all

/-- Nothing foreign is in a text that a snippet reads as a number. -/
theorem guest_familiar (h : (numberOfText (Units.ofString s)).isNaN = false) :
    Familiar s.toList := by
  intro c hc
  rw [← toChars_ofChars s.toList] at hc
  exact (number_characters h c hc).elim familiar_space familiar_numeral

/-- The mark is in no text that is read as a number outside of snippets. -/
theorem host_unmarked (h : (Aggregate.toNumber (.str s)).isNaN = false) : mark ∉ s.toList := by
  intro hm
  have ht : mark ∈ strip s.toList := (mem_trim hm).resolve_left (by decide)
  have hn : float? (strip s.toList) = none := by
    apply float?_mark
    rwa [strip, trim_trim margin_blank]
  rw [toNumber_str, if_neg (List.ne_nil_of_mem ht), hn] at h
  cases h

/-- A radix letter belongs to no number outside of snippets. -/
theorem bodyValue?_radix (hf : Familiar cs) {x : Binary64}
    (h : radixNumber? false cs = some (x, rest)) :
    bodyValue? (signOf cs).1 (marks (signOf cs).2) = none := by
  obtain ⟨c, radix, ds, rfl, hc, -⟩ := radixNumber?_some h
  obtain ⟨hcf, hd, he, hp⟩ := radixOf?_letter hc
  have hl : letters? (marks ('0' :: c :: ds)) = none := by
    rw [letters?_marks hf]
    rfl
  have hr : digitRun (marks ('0' :: c :: ds)) = ([0], .other c :: marks ds) := by
    have h0 : Mark.ofChar '0' = .digit 0 := rfl
    simp [marks, ofChar_other (familiar_numeral hcf) hd, h0, digitRun]
  have hs : signOf ('0' :: c :: ds) = (false, '0' :: c :: ds) := rfl
  rw [hs, bodyValue?, hl]
  dsimp only
  rw [magnitude?_plain hr (by simp [hp]), scaled?]
  simp [exponent?, he]

/-- A text with a radix letter has neither digits alone nor a name after its sign. -/
theorem radix_body {x : Binary64} (h : radixNumber? false cs = some (x, rest)) :
    (∀ ds, AllDigits ds → (signOf cs).2 ≠ digitsText ds) ∧ ¬ NamesInfinity (signOf cs).2 := by
  obtain ⟨c, radix, left, rfl, hc, -⟩ := radixNumber?_some h
  have hs : (signOf ('0' :: c :: left)).2 = '0' :: c :: left := rfl
  rw [hs]
  constructor
  · intro ds hd he
    have hm : c ∈ digitsText ds := by simp [← he]
    obtain ⟨d, hdm, rfl⟩ := List.mem_map.mp hm
    have hn := (radixOf?_letter hc).2.1
    rw [digitIn_digitChar (hd d hdm)] at hn
    cases hn
  · intro hn
    obtain ⟨d, ds, he, ha⟩ := hn.letter
    cases he
    cases ha

/-- A text without what only one of the sides knows as part of a numeral or around it. -/
structure Clean (s : String) : Prop where
  familiar : Familiar s.toList
  unmarked : mark ∉ s.toList

/-- Both sides trim a clean text alike. -/
theorem Clean.trimmed (h : Clean s) : trim isSpace s.toList = strip s.toList := by
  refine trim_congr fun c hc => (isBlank_eq_isSpace (h.familiar c hc) ?_).symm
  rintro rfl
  exact h.unmarked hc

theorem Clean.core (h : Clean s) : Familiar (strip s.toList) :=
  fun c hc => h.familiar c (mem_of_mem_trim hc)

theorem host_number (hn : strip s.toList ≠ []) (hf : Familiar (strip s.toList)) :
    Aggregate.toNumber (.str s) = .float ((bodyValue? (signOf (strip s.toList)).1
      (marks (signOf (strip s.toList)).2)).getD .nan) := by
  rw [toNumber_str, if_neg hn, float?_familiar hf]

theorem Clean.guest_number (h : Clean s) (hn : strip s.toList ≠ [])
    (hr : ∀ x, radixNumber? false (strip s.toList) ≠ some (x, [])) :
    numberOfText (Units.ofString s) = ((unsigned? (signOf (strip s.toList)).2).map
      (withSign (signOf (strip s.toList)).1)).getD .nan := by
  rw [numberOfText_ofString, h.trimmed, readText?_unsigned hn hr]

/-- A number with a radix letter is none outside of snippets. -/
theorem Clean.radix (h : Clean s) {x : Binary64}
    (hx : radixNumber? false (strip s.toList) = some (x, [])) :
    (Aggregate.toNumber (.str s)).isNaN = true := by
  have hn : strip s.toList ≠ [] := by
    obtain ⟨c, radix, ds, he, -⟩ := radixNumber?_some hx
    simp [he]
  rw [host_number hn h.core, bodyValue?_radix h.core hx]
  rfl

/-- A text that is the same number on both sides is clean. -/
theorem SameNumber.clean
    (hs : SameNumber (Aggregate.toNumber (.str s)) (numberOfText (Units.ofString s)))
    (hg : (numberOfText (Units.ofString s)).isNaN = false) : Clean s :=
  ⟨guest_familiar hg, host_unmarked (hs.isNaN.symm.trans hg)⟩

theorem name_apart (hi : NamesInfinity (signOf (strip s.toList)).2) (h : Clean s) :
    (numberOfText (Units.ofString s)).isNaN = true := by
  have hn : strip s.toList ≠ [] := by
    intro he
    rw [he] at hi
    obtain ⟨c, rest, hc, -⟩ := hi.letter
    cases hc
  rw [h.guest_number hn fun x hx => (radix_body hx).2 hi, unsigned?_name hi]
  rfl

theorem rounded_apart {ds : List Nat} (text : (signOf (strip s.toList)).2 = digitsText ds)
    (digits : AllDigits ds) (hd : ds ≠ [])
    (hs : SameNumber (Aggregate.toNumber (.str s)) (numberOfText (Units.ofString s))) :
    (wholeNumber 10 ds).place? = (Binary64.ofDecimal false (natOf ds) 0).place? := by
  have hn : strip s.toList ≠ [] := by
    intro he
    rw [he] at text
    exact hd (by simpa [signOf, digitsText] using text.symm)
  have hf : Familiar (strip s.toList) := fun c hc =>
    (takes_sign _ c hc).elim familiar_numeral fun hc => digitsText_familiar digits c (text ▸ hc)
  obtain ⟨hb, hu⟩ := digits_readings (signOf (strip s.toList)).1 digits hd
  have hh := host_number hn hf
  rw [text, hb, Option.getD_some] at hh
  have hnan : (Aggregate.toNumber (.str s)).isNaN = false := by
    rw [hh]
    exact isNaN_ofDecimal _ _ _
  have hg := (hs.clean (hs.isNaN.trans hnan)).guest_number hn
    fun x hx => (radix_body hx).1 ds digits text
  rw [text, hu, Option.map_some, Option.getD_some] at hg
  rw [hg, hh, SameNumber, ofDecimal_sign] at hs
  exact withSign_place?.mp hs

/-- The two sides read a divided text as different numbers. -/
theorem Divided.apart (h : Divided s) :
    ¬ SameNumber (Aggregate.toNumber (.str s)) (numberOfText (Units.ofString s)) := by
  intro hs
  cases h with
  | snippetOnly number own =>
    have hc := hs.clean number
    rcases own with ⟨x, hx⟩ | hm
    · rw [hc.trimmed] at hx
      rw [hs.isNaN, hc.radix hx] at number
      cases number
    · exact hc.unmarked hm
  | hostOnly number own =>
    have hc := hs.clean (hs.isNaN.trans number)
    rcases own with ⟨c, hm, hf⟩ | hi
    · rw [hc.familiar c hm] at hf
      cases hf
    · rw [← hs.isNaN, name_apart hi hc] at number
      cases number
  | rounded ds text digits long apart =>
    exact apart (rounded_apart text digits (List.ne_nil_of_length_pos (by omega)) hs)

/-- A clean text is the same number on both sides if it is not divided. -/
theorem Clean.same (h : Clean s) (hd : ¬ Divided s) :
    SameNumber (Aggregate.toNumber (.str s)) (numberOfText (Units.ofString s)) := by
  by_cases hn : strip s.toList = []
  · have hz : (Binary64.zero false).place? = some (.ofInt 0) := by decide +kernel
    rw [numberOfText_ofString, h.trimmed, toNumber_str, if_pos hn, hn]
    exact hz
  by_cases hr : ∃ x, radixNumber? false (strip s.toList) = some (x, [])
  · obtain ⟨x, hx⟩ := hr
    refine .of_isNaN (h.radix hx) ?_
    by_contra hg
    exact hd (.snippetOnly (by simpa using hg) (.inl ⟨x, by rw [h.trimmed, hx]⟩))
  have hh := host_number hn h.core
  have hg := h.guest_number hn (not_exists.mp hr)
  have hread := unsigned_reading (signOf (strip s.toList)).1
    fun c hc => h.core c (signOf_subset _ c hc)
  generalize bodyValue? _ _ = host at hread hh
  generalize unsigned? _ = guest at hread hg
  rw [hg, hh]
  cases hread with
  | neither => rfl
  | nan => rfl
  | both x => rfl
  | whole ds digits text =>
    by_contra hs
    have hp : (wholeNumber 10 ds).place? ≠ (Binary64.ofDecimal false (natOf ds) 0).place? := by
      intro hp
      refine hs ?_
      rw [Option.getD_some, Option.map_some, Option.getD_some, SameNumber, ofDecimal_sign]
      exact withSign_place?.mpr hp
    have hl : 19 < ds.length := by
      by_contra hl
      exact hp (by rw [wholeNumber_short digits (by omega)])
    exact hd (.rounded ds text digits hl hp)
  | name infinity =>
    refine absurd (Divided.hostOnly ?_ (.inr infinity)) hd
    rw [hh]
    rfl

/-- The two sides read a text as the same number exactly if it is not divided. -/
theorem sameNumber_iff (s : String) :
    SameNumber (Aggregate.toNumber (.str s)) (numberOfText (Units.ofString s)) ↔ ¬ Divided s := by
  refine ⟨fun hs hd => hd.apart hs, fun hd => ?_⟩
  by_cases hg : (numberOfText (Units.ofString s)).isNaN = false
  · have hc : Clean s := ⟨guest_familiar hg, fun hm => hd (.snippetOnly hg (.inr hm))⟩
    exact hc.same hd
  by_cases hh : (Aggregate.toNumber (.str s)).isNaN = false
  · have hf : Familiar s.toList := by
      intro c hm
      by_contra hf
      exact hd (.hostOnly hh (.inl ⟨c, hm, by simpa using hf⟩))
    have hc : Clean s := ⟨hf, host_unmarked hh⟩
    exact hc.same hd
  · exact .of_isNaN (by simpa using hh) (by simpa using hg)

end Reckoner.Proofs.TextNumbers
