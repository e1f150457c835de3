import Reckoner.Json.Reader
import Reckoner.Proofs.Digits
import Reckoner.Snippet.Token

namespace Reckoner.Proofs.Spellings
open Snippet Text

/-- A number in decimal digits; without a fraction it has no point. -/
structure Spelling where
  whole : List Nat
  fraction : List Nat
  /-- The digits of the exponent, and whether it is negative. -/
  exponent : Option (Bool × List Nat)

def digitsText (ds : List Nat) : List Char := ds.map digitChar

def AllDigits (ds : List Nat) : Prop := ∀ d ∈ ds, d < 10

namespace Spelling

def fractionText : List Nat → List Char
  | [] => []
  | f :: fs => '.' :: digitsText (f :: fs)

def exponentText : Option (Bool × List Nat) → List Char
  | none => []
  | some (negative, es) => 'e' :: (if negative then '-' else '+') :: digitsText es

def text (s : Spelling) : List Char :=
  digitsText s.whole ++ (fractionText s.fraction ++ exponentText s.exponent)

def digits (s : Spelling) : Nat := Numeral.natOf (s.whole ++ s.fraction)

def power : Option (Bool × List Nat) → Int
  | none => 0
  | some (negative, es) => if negative then -(Numeral.natOf es : Int) else Numeral.natOf es

/-- The power of ten that the digits are multiplied by. -/
def scale (s : Spelling) : Int := power s.exponent - s.fraction.length

def IsNumeral (s : Spelling) : Prop := s.fraction = [] ∧ s.exponent = none

/-- There are digits, and no needless zeros before the whole part. -/
structure Regular (s : Spelling) : Prop where
  whole : AllDigits s.whole
  fraction : AllDigits s.fraction
  exponent : ∀ negative es, s.exponent = some (negative, es) → es ≠ [] ∧ AllDigits es
  leading : s.whole = [0] ∨ ∃ d ds, s.whole = d :: ds ∧ d ≠ 0

theorem digitsText_chars {ds : List Nat} (hd : AllDigits ds) :
    ∀ c ∈ digitsText ds, c.isDigit = true := by
  intro c hc
  obtain ⟨d, hm, rfl⟩ := List.mem_map.mp hc
  exact Digits.digitChar_isDigit (hd d hm)

/-- Besides its digits, a spelling has a point, an exponent's letter and signs. -/
theorem Regular.text_chars {s : Spelling} (hs : s.Regular) :
    ∀ c ∈ s.text, c.isDigit = true ∨ c ∈ ['.', 'e', '-', '+'] := by
  intro c hc
  rcases List.mem_append.mp hc with hw | hc
  · exact .inl (digitsText_chars hs.whole c hw)
  rcases List.mem_append.mp hc with hf | he
  · cases hs' : s.fraction with
    | nil => simp [hs', fractionText] at hf
    | cons f fs =>
      rw [hs', fractionText] at hf
      rcases List.mem_cons.mp hf with rfl | hf
      · exact .inr (by decide)
      · exact .inl (digitsText_chars (hs' ▸ hs.fraction) c hf)
  · cases hs' : s.exponent with
    | none => simp [hs', exponentText] at he
    | some p =>
      obtain ⟨negative, es⟩ := p
      rw [hs', exponentText] at he
      rcases List.mem_cons.mp he with rfl | he
      · exact .inr (by decide)
      rcases List.mem_cons.mp he with rfl | he
      · exact .inr (by cases negative <;> decide)
      · exact .inl (digitsText_chars (hs.exponent negative es hs').2 c he)

end Spelling

/-- The characters that may follow a number: those between the items of a list. -/
def Apart (cs : List Char) : Prop :=
  ∀ c, cs.head? = some c → c = ',' ∨ c = ' ' ∨ c = '\n' ∨ c = ':' ∨ c = ']' ∨ c = '\x7d'

theorem hexValue_digitChar {d : Nat} (hd : d < 10) : hexValue? (digitChar d) = some d := by
  interval_cases d <;> rfl

theorem digitIn_digitChar {d : Nat} (hd : d < 10) : digitIn? 10 (digitChar d) = some d := by
  rw [digitIn?, hexValue_digitChar hd]
  exact if_pos hd

/-- A text that neither a digit nor an underscore starts. -/
def Stops (cs : List Char) : Prop := ∀ c, cs.head? = some c → digitIn? 10 c = none ∧ c ≠ '_'

theorem Apart.stops {cs : List Char} (h : Apart cs) : Stops cs := by
  intro c hc
  rcases h c hc with rfl | rfl | rfl | rfl | rfl | rfl <;> exact ⟨rfl, by decide⟩

/-- What stands apart from a number belongs to no name. -/
theorem Apart.unnamed {cs : List Char} (h : Apart cs) :
    cs.head?.any continuesIdentifier = false := by
  cases cs with
  | nil => rfl
  | cons c cs => rcases h c rfl with rfl | rfl | rfl | rfl | rfl | rfl <;> rfl

theorem digitsFrom_stops (grouped : Bool) {cs : List Char} (h : Stops cs) :
    digitsFrom grouped 10 cs = ([], cs) := by
  cases cs with
  | nil => rfl
  | cons c cs =>
    obtain ⟨hd, hu⟩ := h c rfl
    simp [digitsFrom, hd, hu]

/-- Digits are read up to where they stop. -/
theorem digitsFrom_digits (grouped : Bool) {ds : List Nat} (hd : AllDigits ds) {rest : List Char}
    (hr : Stops rest) : digitsFrom grouped 10 (digitsText ds ++ rest) = (ds, rest) := by
  induction ds with
  | nil => exact digitsFrom_stops grouped hr
  | cons d ds ih =>
    have h := digitIn_digitChar (hd d List.mem_cons_self)
    have hs := ih fun x hx => hd x (List.mem_cons_of_mem _ hx)
    simp only [digitsText, List.map_cons, List.cons_append] at hs ⊢
    simp only [digitsFrom, h, hs]

theorem digitsIn_digits (grouped : Bool) {ds : List Nat} (hn : ds ≠ []) (hd : AllDigits ds)
    {rest : List Char} (hr : Stops rest) :
    digitsIn grouped 10 (digitsText ds ++ rest) = (ds, rest) := by
  obtain ⟨d, ds', rfl⟩ := List.exists_cons_of_ne_nil hn
  have h := digitIn_digitChar (hd d List.mem_cons_self)
  have hnext : digitNext 10 (digitsText (d :: ds') ++ rest) = true := by
    simp [digitNext, digitsText, h]
  rw [digitsIn, if_pos hnext, digitsFrom_digits grouped hd hr]

theorem stops_exponent (e : Option (Bool × List Nat)) {rest : List Char} (hr : Stops rest) :
    Stops (Spelling.exponentText e ++ rest) := by
  cases e with
  | none => exact hr
  | some p =>
    intro c hc
    simp only [Spelling.exponentText, List.cons_append, List.head?_cons, Option.some.injEq] at hc
    subst c
    exact ⟨rfl, by decide⟩

theorem stops_fraction (fs : List Nat) (e : Option (Bool × List Nat)) {rest : List Char}
    (hr : Stops rest) : Stops (Spelling.fractionText fs ++ (Spelling.exponentText e ++ rest)) := by
  cases fs with
  | nil => exact stops_exponent e hr
  | cons f fs =>
    intro c hc
    simp only [Spelling.fractionText, List.cons_append, List.head?_cons, Option.some.injEq] at hc
    subst c
    exact ⟨rfl, by decide⟩

theorem digitsText_inj {xs ys : List Nat} (hx : AllDigits xs) (hy : AllDigits ys)
    {r r' : List Char} (hr : Stops r) (hr' : Stops r')
    (h : digitsText xs ++ r = digitsText ys ++ r') : xs = ys ∧ r = r' := by
  have hd := digitsFrom_digits false hy hr'
  rw [← h, digitsFrom_digits false hx hr, Prod.mk.injEq] at hd
  exact hd

theorem stops_nil : Stops [] := nofun

theorem exponentText_inj {e e' : Option (Bool × List Nat)}
    (he : ∀ negative es, e = some (negative, es) → AllDigits es)
    (he' : ∀ negative es, e' = some (negative, es) → AllDigits es)
    (h : Spelling.exponentText e = Spelling.exponentText e') : e = e' := by
  cases e with
  | none =>
    cases e' with
    | none => rfl
    | some p => cases h
  | some p =>
    cases e' with
    | none => cases h
    | some q =>
      obtain ⟨negative, es⟩ := p
      obtain ⟨negative', es'⟩ := q
      simp only [Spelling.exponentText, List.cons.injEq, true_and] at h
      have hn : negative = negative' := by
        cases negative <;> cases negative' <;> simp_all
      have hs := digitsText_inj (he negative es rfl) (he' negative' es' rfl) stops_nil stops_nil
        (congrArg (· ++ []) h.2)
      rw [hn, hs.1]

theorem fractionText_inj {fs fs' : List Nat} {e e' : Option (Bool × List Nat)}
    (hf : AllDigits fs) (hf' : AllDigits fs')
    (h : Spelling.fractionText fs ++ Spelling.exponentText e =
      Spelling.fractionText fs' ++ Spelling.exponentText e') :
    fs = fs' ∧ Spelling.exponentText e = Spelling.exponentText e' := by
  have hstops (e : Option (Bool × List Nat)) : Stops (Spelling.exponentText e) := by
    simpa using stops_exponent e stops_nil
  cases fs with
  | nil =>
    cases fs' with
    | nil => exact ⟨rfl, h⟩
    | cons f fs' => cases e <;> cases h
  | cons f fs =>
    cases fs' with
    | nil => cases e' <;> cases h
    | cons f' fs' =>
      simp only [Spelling.fractionText, List.cons_append, List.cons.injEq, true_and] at h
      exact digitsText_inj hf hf' (hstops e) (hstops e') h

/-- A text is that of one spelling only. -/
theorem Spelling.Regular.text_inj {s t : Spelling} (hs : s.Regular) (ht : t.Regular)
    (h : s.text = t.text) : s = t := by
  have hstops (s : Spelling) :
      Stops (Spelling.fractionText s.fraction ++ Spelling.exponentText s.exponent) := by
    simpa using stops_fraction s.fraction s.exponent stops_nil
  obtain ⟨hw, h⟩ := digitsText_inj hs.whole ht.whole (hstops s) (hstops t) h
  obtain ⟨hf, h⟩ := fractionText_inj hs.fraction ht.fraction h
  have he := exponentText_inj (fun n es he => (hs.exponent n es he).2)
    (fun n es he => (ht.exponent n es he).2) h
  cases s
  cases t
  simp_all

theorem exponentPart_apart (grouped : Bool) {rest : List Char} (hr : Apart rest) :
    exponentPart grouped rest = none := by
  cases rest with
  | nil => rfl
  | cons c rest => rcases hr c rfl with rfl | rfl | rfl | rfl | rfl | rfl <;> rfl

/-- The exponent of a spelling is read as the power that it is. -/
theorem exponentPart_text (grouped : Bool) {negative : Bool} {es : List Nat} (hn : es ≠ [])
    (hd : AllDigits es) {rest : List Char} (hr : Apart rest) :
    exponentPart grouped (Spelling.exponentText (some (negative, es)) ++ rest) =
      some (Spelling.power (some (negative, es)), rest) := by
  have hi := digitsIn_digits grouped hn hd hr.stops
  obtain ⟨d, ds, rfl⟩ := List.exists_cons_of_ne_nil hn
  cases negative <;>
    simp [Spelling.exponentText, exponentPart, hi, Spelling.power]

theorem fractionPart_apart (grouped : Bool) (e : Option (Bool × List Nat)) {rest : List Char}
    (hr : Apart rest) :
    fractionPart grouped true (Spelling.exponentText e ++ rest) = none := by
  cases e with
  | some p => rfl
  | none =>
    cases rest with
    | nil => rfl
    | cons c rest => rcases hr c rfl with rfl | rfl | rfl | rfl | rfl | rfl <;> rfl

theorem fractionPart_text (grouped : Bool) {f : Nat} {fs : List Nat} (hd : AllDigits (f :: fs))
    {rest : List Char} (hr : Stops rest) :
    fractionPart grouped true (Spelling.fractionText (f :: fs) ++ rest) = some (f :: fs, rest) := by
  rw [Spelling.fractionText, List.cons_append, fractionPart, Bool.true_or, if_pos rfl,
    digitsIn_digits grouped (by simp) hd hr]

/-- The number that a snippet reads a spelling as. -/
def Spelling.number (s : Spelling) : Binary64 :=
  match s.fraction, s.exponent with
  | [], none => wholeNumber 10 s.whole
  | _, _ => .ofDecimal false s.digits s.scale

theorem Spelling.Regular.whole_ne {s : Spelling} (hs : s.Regular) : s.whole ≠ [] := by
  rcases hs.leading with h | ⟨d, ds, h, -⟩ <;> simp [h]

theorem spelling_head {s : Spelling} (hs : s.Regular) :
    ∃ d, d < 10 ∧ ∃ cs, s.text = digitChar d :: cs := by
  obtain ⟨d, ds, hw⟩ := List.exists_cons_of_ne_nil hs.whole_ne
  refine ⟨d, hs.whole d (by rw [hw]; exact List.mem_cons_self), ?_⟩
  rw [Spelling.text, hw]
  exact ⟨_, rfl⟩

/-- A decimal reader reads a spelling to its end. -/
theorem decimal?_text (grouped : Bool) {s : Spelling} (hs : s.Regular) {rest : List Char}
    (hr : Apart rest) : decimal? grouped (s.text ++ rest) = some (s.number, rest) := by
  have hne := hs.whole_ne
  obtain ⟨ws, fs, e⟩ := s
  have hw := digitsIn_digits grouped hne hs.whole (stops_fraction fs e hr.stops)
  have hwe : ws.isEmpty = false := by simpa using hne
  simp only [Spelling.text, List.append_assoc, decimal?, hw, hwe, Bool.not_false, Bool.false_and,
    Bool.false_eq_true, ↓reduceIte]
  cases fs with
  | nil =>
    have hf : Spelling.fractionText [] = [] := rfl
    simp only [hf, List.nil_append, fractionPart_apart grouped e hr]
    cases e with
    | none =>
      have he : Spelling.exponentText none = [] := rfl
      simp only [he, List.nil_append, exponentPart_apart grouped hr]
      rfl
    | some p =>
      obtain ⟨hn, hd⟩ := hs.exponent p.1 p.2 rfl
      simp only [exponentPart_text grouped hn hd hr]
      rfl
  | cons f fs =>
    simp only [fractionPart_text grouped hs.fraction (stops_exponent e hr.stops)]
    cases e with
    | none =>
      have he : Spelling.exponentText none = [] := rfl
      simp only [he, List.nil_append, exponentPart_apart grouped hr, ↓reduceIte]
      simp [Spelling.number, Spelling.digits, Spelling.scale, Spelling.power]
    | some p =>
      obtain ⟨hn, hd⟩ := hs.exponent p.1 p.2 rfl
      simp only [exponentPart_text grouped hn hd hr]
      rfl

/-- What may follow the whole part of a spelling. -/
theorem after_whole (s : Spelling) {rest : List Char} (hr : Apart rest) (c : Char)
    (hc : (Spelling.fractionText s.fraction ++ (Spelling.exponentText s.exponent ++ rest)).head? =
      some c) :
    c = '.' ∨ c = 'e' ∨ c = ',' ∨ c = ' ' ∨ c = '\n' ∨ c = ':' ∨ c = ']' ∨ c = '\x7d' := by
  obtain ⟨ws, fs, e⟩ := s
  cases fs with
  | cons f fs =>
    simp only [Spelling.fractionText, List.cons_append, List.head?_cons, Option.some.injEq] at hc
    exact .inl hc.symm
  | nil =>
    cases e with
    | some p =>
      simp only [Spelling.fractionText, Spelling.exponentText, List.nil_append, List.cons_append,
        List.head?_cons, Option.some.injEq] at hc
      exact .inr (.inl hc.symm)
    | none => exact .inr (.inr (hr c hc))

theorem literalNumber?_zero {cs : List Char}
    (h : ∀ c, cs.head? = some c → radixOf? c = none ∧ c.isDigit = false ∧ c ≠ '_') :
    literalNumber? ('0' :: cs) = decimal? true ('0' :: cs) := by
  cases cs with
  | nil => rfl
  | cons c cs =>
    obtain ⟨hx, hd, hu⟩ := h c rfl
    simp [literalNumber?, hx, hd, hu]

theorem literalNumber?_nonzero {c : Char} (hc : c ≠ '0') (cs : List Char) :
    literalNumber? (c :: cs) = decimal? true (c :: cs) := by
  rw [literalNumber?]
  rintro d ds h
  rw [List.cons.injEq] at h
  exact hc h.1

theorem digitChar_ne_zero {d : Nat} (hd : d < 10) (h0 : d ≠ 0) : digitChar d ≠ '0' := by
  interval_cases d
  · contradiction
  all_goals decide

/-- A snippet reads a spelling as one number token. -/
theorem numberToken_text {s : Spelling} (hs : s.Regular) {rest : List Char} (hr : Apart rest) :
    numberToken (s.text ++ rest) = .ok (.number s.number, rest) := by
  have hl : literalNumber? (s.text ++ rest) = decimal? true (s.text ++ rest) := by
    rw [Spelling.text, List.append_assoc, List.append_assoc]
    rcases hs.leading with hw | ⟨d, ds, hw, hd⟩
    · rw [hw]
      apply literalNumber?_zero
      intro c hc
      rcases after_whole s hr c hc with rfl | rfl | rfl | rfl | rfl | rfl | rfl | rfl <;>
        exact ⟨rfl, rfl, by decide⟩
    · rw [hw]
      have hlt := hs.whole d (by rw [hw]; exact List.mem_cons_self)
      exact literalNumber?_nonzero (digitChar_ne_zero hlt hd) _
  rw [numberToken, hl, decimal?_text true hs hr]
  simp only [hr.unnamed, Bool.false_eq_true, ↓reduceIte]

theorem jsonDigit_digitChar {d : Nat} (hd : d < 10) : Json.isDigit (digitChar d) = true := by
  interval_cases d <;> rfl

theorem jsonNatOf_digitsText {ds : List Nat} (hd : AllDigits ds) :
    Json.natOf (digitsText ds) = Numeral.natOf ds := by
  have h : ∀ n, (digitsText ds).foldl (fun n c => 10 * n + (c.toNat - 48)) n =
      ds.foldl (fun n d => 10 * n + d) n := by
    induction ds with
    | nil => exact fun _ => rfl
    | cons d ds ih =>
      intro n
      have hc : (digitChar d).toNat - 48 = d := by
        have := hd d List.mem_cons_self
        interval_cases d <;> rfl
      simp only [digitsText, List.map_cons, List.foldl_cons, hc]
      exact ih (fun x hx => hd x (List.mem_cons_of_mem _ hx)) _
  exact h 0

def Ends (cs : List Char) : Prop := ∀ c, cs.head? = some c → Json.isDigit c = false

theorem Apart.ends {cs : List Char} (h : Apart cs) : Ends cs := by
  intro c hc
  rcases h c hc with rfl | rfl | rfl | rfl | rfl | rfl <;> rfl

theorem json_digits_text {ds : List Nat} (hd : AllDigits ds) {rest : List Char} (hr : Ends rest) :
    Json.digits (digitsText ds ++ rest) = (digitsText ds, rest) := by
  have ha : ∀ c ∈ digitsText ds, Json.isDigit c = true := by
    intro c hc
    obtain ⟨d, hm, rfl⟩ := List.mem_map.mp hc
    exact jsonDigit_digitChar (hd d hm)
  have hn : rest.takeWhile Json.isDigit = [] ∧ rest.dropWhile Json.isDigit = rest := by
    cases rest with
    | nil => exact ⟨rfl, rfl⟩
    | cons c rest => simp [hr c rfl]
  rw [Json.digits, List.takeWhile_append_of_pos ha, List.dropWhile_append_of_pos ha, hn.1, hn.2,
    List.append_nil]

theorem whole?_text {s : Spelling} (hs : s.Regular) {rest : List Char} (hr : Ends rest) :
    Json.whole? (digitsText s.whole ++ rest) = some (digitsText s.whole, rest) := by
  rcases hs.leading with hw | ⟨d, ds, hw, h0⟩
  · rw [hw]
    rfl
  · have hd := hs.whole
    rw [hw] at hd ⊢
    have hlt := hd d List.mem_cons_self
    have hds := json_digits_text (fun x hx => hd x (List.mem_cons_of_mem _ hx)) hr
    simp only [digitsText, List.map_cons, List.cons_append] at hds ⊢
    rw [Json.whole?, if_neg (digitChar_ne_zero hlt h0), if_pos (jsonDigit_digitChar hlt), hds]

theorem ends_exponent (e : Option (Bool × List Nat)) {rest : List Char} (hr : Ends rest) :
    Ends (Spelling.exponentText e ++ rest) := by
  cases e with
  | none => exact hr
  | some p =>
    intro c hc
    simp only [Spelling.exponentText, List.cons_append, List.head?_cons, Option.some.injEq] at hc
    subst c
    rfl

theorem ends_fraction (fs : List Nat) (e : Option (Bool × List Nat)) {rest : List Char}
    (hr : Ends rest) : Ends (Spelling.fractionText fs ++ (Spelling.exponentText e ++ rest)) := by
  cases fs with
  | nil => exact ends_exponent e hr
  | cons f fs =>
    intro c hc
    simp only [Spelling.fractionText, List.cons_append, List.head?_cons, Option.some.injEq] at hc
    subst c
    rfl

theorem json_exponent_apart {rest : List Char} (hr : Apart rest) : Json.exponent? rest = none := by
  cases rest with
  | nil => rfl
  | cons c rest => rcases hr c rfl with rfl | rfl | rfl | rfl | rfl | rfl <;> rfl

theorem json_exponent_text {negative : Bool} {es : List Nat} (hn : es ≠ []) (hd : AllDigits es)
    {rest : List Char} (hr : Apart rest) :
    Json.exponent? (Spelling.exponentText (some (negative, es)) ++ rest) =
      some (Spelling.power (some (negative, es)), rest) := by
  have hi := json_digits_text hd hr.ends
  have hv := jsonNatOf_digitsText hd
  have he : (digitsText es).isEmpty = false := by simpa [digitsText] using hn
  cases negative <;>
    simp [Spelling.exponentText, Json.exponent?, hi, he, hv, Spelling.power]

theorem json_fraction_text {f : Nat} {fs : List Nat} (hd : AllDigits (f :: fs)) {rest : List Char}
    (hr : Ends rest) :
    Json.fraction (Spelling.fractionText (f :: fs) ++ rest) = (digitsText (f :: fs), rest) := by
  have hi := json_digits_text hd hr
  rw [Spelling.fractionText, List.cons_append, Json.fraction, hi]
  rfl

theorem json_fraction_none (e : Option (Bool × List Nat)) {rest : List Char} (hr : Apart rest) :
    Json.fraction (Spelling.exponentText e ++ rest) = ([], Spelling.exponentText e ++ rest) := by
  cases e with
  | some p => rfl
  | none =>
    cases rest with
    | nil => rfl
    | cons c rest => rcases hr c rfl with rfl | rfl | rfl | rfl | rfl | rfl <;> rfl

/-- A JSON text reads a whole number in digits as an integer, unless these are too many. -/
theorem json_whole {s : Spelling} (hs : s.Regular) (hn : s.IsNumeral) (negative : Bool)
    {rest : List Char} (hr : Apart rest) :
    Json.unsigned? negative (s.text ++ rest) =
      some (if Numeral.digitLimit < s.whole.length then .error (.tooManyDigits s.whole.length)
        else .ok (.int (if negative then -(s.digits : Int) else s.digits), rest)) := by
  obtain ⟨ws, fs, e⟩ := s
  obtain ⟨rfl, rfl⟩ := hn
  have hw := whole?_text hs hr.ends
  have hv := jsonNatOf_digitsText hs.whole
  have hf := json_fraction_none none hr
  have hx := json_exponent_apart hr
  have hl : (digitsText ws).length = ws.length := List.length_map ..
  simp only [Spelling.text, Spelling.fractionText, Spelling.exponentText, List.append_nil,
    Json.unsigned?, hw, Option.bind_eq_bind, Option.bind_some]
  simp only [Spelling.exponentText, List.nil_append] at hf
  simp only [hf, hx, hl, hv, Spelling.digits, List.append_nil, List.isEmpty_nil]
  split <;> rfl

theorem json_numeral {s : Spelling} (hs : s.Regular) (hn : s.IsNumeral)
    (hl : s.whole.length ≤ Numeral.digitLimit) (negative : Bool) {rest : List Char}
    (hr : Apart rest) :
    Json.unsigned? negative (s.text ++ rest) =
      some (.ok (.int (if negative then -(s.digits : Int) else s.digits), rest)) := by
  rw [json_whole hs hn negative hr, if_neg (Nat.not_lt.mpr hl)]

/-- Any other spelling is read as the floating point number nearest to it. -/
theorem json_decimal {s : Spelling} (hs : s.Regular) (hn : ¬ s.IsNumeral) (negative : Bool)
    {rest : List Char} (hr : Apart rest) :
    Json.unsigned? negative (s.text ++ rest) =
      some (.ok (.float (.ofDecimal negative s.digits s.scale), rest)) := by
  obtain ⟨ws, fs, e⟩ := s
  have hw := whole?_text hs (ends_fraction fs e hr.ends)
  have hv : Json.natOf (digitsText ws ++ digitsText fs) = Numeral.natOf (ws ++ fs) := by
    rw [digitsText, digitsText, ← List.map_append, ← digitsText, jsonNatOf_digitsText]
    intro d hd
    exact (List.mem_append.mp hd).elim (hs.whole d) (hs.fraction d)
  simp only [Spelling.text, List.append_assoc, Json.unsigned?, hw, Option.bind_eq_bind,
    Option.bind_some, Spelling.digits, Spelling.scale, ← hv]
  cases fs with
  | nil =>
    cases e with
    | none => exact absurd ⟨rfl, rfl⟩ hn
    | some p =>
      obtain ⟨hne, hd⟩ := hs.exponent p.1 p.2 rfl
      have hx : Json.exponent? (Spelling.exponentText (some p) ++ rest) =
          some (Spelling.power (some p), rest) := json_exponent_text hne hd hr
      simp [Spelling.fractionText, json_fraction_none (some p) hr, hx, digitsText]
  | cons f fs =>
    have hl : (digitsText (f :: fs)).isEmpty = false := rfl
    have hc : (digitsText (f :: fs)).length = (f :: fs).length := List.length_map ..
    simp only [json_fraction_text hs.fraction (ends_exponent e hr.ends), hl, hc]
    cases e with
    | none =>
      simp only [Spelling.exponentText, List.nil_append, json_exponent_apart hr, Spelling.power,
        zero_sub]
    | some p =>
      obtain ⟨hne, hd⟩ := hs.exponent p.1 p.2 rfl
      have hx : Json.exponent? (Spelling.exponentText (some p) ++ rest) =
          some (Spelling.power (some p), rest) := json_exponent_text hne hd hr
      simp only [hx]

end Reckoner.Proofs.Spellings
