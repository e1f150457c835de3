import Reckoner.Proofs.Names
import Reckoner.Proofs.Quoting
import Reckoner.Proofs.Spellings

namespace Reckoner.Proofs.Lexing
open Snippet Text Names Spellings Quoting

/-- The tokens of a text, whatever space stands before it. -/
def Lexes (cs : List Char) (ls : List Lexeme) : Prop :=
  ∀ n fuel, cs.length + n < fuel → lexFrom fuel (List.replicate n ' ' ++ cs) = ls

theorem Lexes.lex_eq {cs : List Char} {ls : List Lexeme} (h : Lexes cs ls) : lex cs = ls :=
  h 0 _ (Nat.lt_succ_self _)

theorem Lexes.spaced {cs : List Char} {ls : List Lexeme} (h : Lexes cs ls) :
    Lexes (' ' :: cs) ls := by
  intro n fuel hf
  rw [List.length_cons] at hf
  have hr : List.replicate n ' ' ++ ' ' :: cs = List.replicate (n + 1) ' ' ++ cs := by
    rw [List.replicate_succ', List.append_assoc, List.singleton_append]
  rw [hr]
  exact h (n + 1) fuel (by omega)

theorem afterSpace_nil (fuel : Nat) (broken : Bool) :
    afterSpace fuel broken [] = .ok (broken, []) := by
  cases fuel <;> rfl

theorem afterSpace_space (fuel : Nat) (cs : List Char) :
    afterSpace (fuel + 1) false (' ' :: cs) = afterSpace fuel false cs := by
  conv => lhs; unfold afterSpace
  rfl

theorem afterSpace_spaces (fuel n : Nat) (cs : List Char) :
    afterSpace (fuel + n) false (List.replicate n ' ' ++ cs) = afterSpace fuel false cs := by
  induction n with
  | zero => rfl
  | succ n ih => rw [List.replicate_succ, List.cons_append, ← Nat.add_assoc, afterSpace_space, ih]

/-- A character that is no space and starts no comment. -/
def Solid (c : Char) : Prop := isSpace c = false ∧ c ≠ '/'

theorem afterSpace_solid {c : Char} (hc : Solid c) (fuel : Nat) (cs : List Char) :
    afterSpace (fuel + 1) false (c :: cs) = .ok (false, c :: cs) := by
  obtain ⟨hs, hc⟩ := hc
  unfold afterSpace
  split
  · next h =>
    cases h
    contradiction
  · next h =>
    cases h
    contradiction
  · next h =>
    cases h
    rw [hs]
    rfl
  · next h => cases h

theorem lexes_nil : Lexes [] [] := by
  intro n fuel hf
  obtain ⟨k, rfl⟩ : ∃ k, fuel = k + n := ⟨fuel - n, by omega⟩
  have hs : afterSpace (k + n) false (List.replicate n ' ' ++ []) = .ok (false, []) := by
    rw [afterSpace_spaces, afterSpace_nil]
  generalize k + n = fuel at hf hs
  cases fuel with
  | zero => contradiction
  | succ fuel =>
    unfold lexFrom
    rw [hs]

/-- A token at the front of a text comes before the tokens of what follows it. -/
theorem lexes_token {c : Char} {rest rest' : List Char} {t : Token} {ls : List Lexeme}
    (hc : Solid c) (ht : ∀ fuel, rest.length + 1 < fuel → tokenAt fuel c rest = .ok (t, rest'))
    (hl : rest'.length ≤ rest.length) (h : Lexes rest' ls) :
    Lexes (c :: rest) (⟨t, false⟩ :: ls) := by
  intro n fuel hf
  rw [List.length_cons] at hf
  obtain ⟨k, rfl⟩ : ∃ k, fuel = k + 1 + n := ⟨fuel - n - 1, by omega⟩
  have hs : afterSpace (k + 1 + n) false (List.replicate n ' ' ++ c :: rest) =
      .ok (false, c :: rest) := by
    rw [afterSpace_spaces, afterSpace_solid hc]
  rw [Nat.add_right_comm] at hs hf ⊢
  unfold lexFrom
  rw [hs]
  simp only [ht _ (show rest.length + 1 < k + n + 1 by omega), List.cons.injEq, true_and]
  exact h 0 (k + n) (by omega)

theorem escapedChar?_ne {c : Char} (hc : c ≠ '\\') (cs : List Char) :
    escapedChar? (c :: cs) = none := by
  unfold escapedChar?
  split
  · next h =>
    cases h
    contradiction
  · rfl

def marks : List Char := ['[', ']', '\x7b', '\x7d', ',', ':']

def mark (c : Char) : Lexeme := ⟨.mark c, false⟩

theorem tokenAt_mark {c : Char} (hc : c ∈ marks) (fuel : Nat) (rest : List Char) :
    tokenAt fuel c rest = .ok (.mark c, rest) := by
  have hn : c ≠ '\\' := by
    rintro rfl
    revert hc
    decide
  unfold tokenAt
  rw [escapedChar?_ne hn]
  simp only [marks, List.mem_cons, List.not_mem_nil, or_false] at hc
  rcases hc with rfl | rfl | rfl | rfl | rfl | rfl <;> rfl

theorem solid_mark : ∀ c ∈ marks, Solid c := by
  intro c hc
  simp only [marks, List.mem_cons, List.not_mem_nil, or_false] at hc
  rcases hc with rfl | rfl | rfl | rfl | rfl | rfl <;> exact ⟨rfl, by decide⟩

theorem lexes_mark {c : Char} (hc : c ∈ marks) {rest : List Char} {ls : List Lexeme}
    (h : Lexes rest ls) : Lexes (c :: rest) (mark c :: ls) :=
  lexes_token (solid_mark c hc) (fun fuel _ => tokenAt_mark hc fuel rest) (Nat.le_refl _) h

/-- A minus that no other minus follows. -/
theorem lexes_minus {rest : List Char} {ls : List Lexeme} (hr : rest.head? ≠ some '-')
    (h : Lexes rest ls) : Lexes ('-' :: rest) (mark '-' :: ls) := by
  refine lexes_token ⟨rfl, by decide⟩ (fun fuel _ => ?_) (Nat.le_refl _) h
  have hs : startsIdentifier '-' = false := rfl
  unfold tokenAt
  rw [escapedChar?_ne (by decide)]
  simp [hr, hs]

theorem digitChar_solid {d : Nat} (hd : d < 10) : Solid (digitChar d) := by
  interval_cases d <;> exact ⟨rfl, by decide⟩

theorem tokenAt_digit {d : Nat} (hd : d < 10) (fuel : Nat) (rest : List Char) :
    tokenAt fuel (digitChar d) rest = numberToken (digitChar d :: rest) := by
  have hq : ¬ (digitChar d = '\'' ∨ digitChar d = '"') := by
    interval_cases d <;> decide
  unfold tokenAt
  rw [if_neg (by simpa using hq), if_pos (by simp [Digits.digitChar_isDigit hd])]

/-- A number is one token, if nothing that follows could belong to it. -/
theorem lexes_number {s : Spelling} (hs : s.Regular) {rest : List Char} {ls : List Lexeme}
    (hr : Apart rest) (h : Lexes rest ls) :
    Lexes (s.text ++ rest) (⟨.number s.number, false⟩ :: ls) := by
  have hn := numberToken_text hs hr
  obtain ⟨d, ds, hw⟩ := List.exists_cons_of_ne_nil hs.whole_ne
  have hd : d < 10 := hs.whole d (by rw [hw]; exact List.mem_cons_self)
  have ht : ∃ cs, s.text ++ rest = digitChar d :: (cs ++ rest) := by
    rw [Spelling.text, hw, digitsText, List.map_cons]
    exact ⟨_, rfl⟩
  obtain ⟨cs, ht⟩ := ht
  rw [ht] at hn ⊢
  refine lexes_token (digitChar_solid hd) (fun fuel _ => ?_) (by simp) h
  rw [tokenAt_digit hd, hn]

theorem nameStart_cases {c : Char} (h : isNameStart c = true) :
    c.isAlpha = true ∨ c = '_' ∨ c = '$' := by
  simpa [isNameStart, or_assoc] using h

theorem upper_bounds {c : Char} (h : c.isUpper = true) : 65 ≤ c.toNat ∧ c.toNat ≤ 90 :=
  (of_decide_eq_true h).imp UInt32.le_iff_toNat_le.mp UInt32.le_iff_toNat_le.mp

theorem lower_bounds {c : Char} (h : c.isLower = true) : 97 ≤ c.toNat ∧ c.toNat ≤ 122 := by
  obtain ⟨hl, hu⟩ := Bool.and_eq_true_iff.mp h
  exact ⟨UInt32.le_iff_toNat_le.mp (of_decide_eq_true hl),
    UInt32.le_iff_toNat_le.mp (of_decide_eq_true hu)⟩

theorem alpha_bounds {c : Char} (h : c.isAlpha = true) : 65 ≤ c.toNat ∧ c.toNat ≤ 122 := by
  rcases Bool.or_eq_true_iff.mp h with h | h
  · have hb := upper_bounds h
    omega
  · have hb := lower_bounds h
    omega

theorem digit_bounds {c : Char} (h : c.isDigit = true) : 48 ≤ c.toNat ∧ c.toNat ≤ 57 := by
  simp only [Char.isDigit, Bool.and_eq_true, decide_eq_true_eq, UInt32.le_iff_toNat_le] at h
  exact h

theorem starts_nameStart {c : Char} (h : isNameStart c = true) : startsIdentifier c = true := by
  rcases nameStart_cases h with ha | rfl | rfl
  · rw [startsIdentifier, if_pos (by have := alpha_bounds ha; omega), ha]
    rfl
  · rfl
  · rfl

theorem continues_namePart {c : Char} (h : isNamePart c = true) : continuesIdentifier c = true := by
  have hw : c.toNat < 128 → c.isAlphanum = true → continuesIdentifier c = true := by
    intro hc ha
    rw [continuesIdentifier, if_pos hc, isWord, if_pos hc, ha]
    rfl
  rw [isNamePart, Bool.or_eq_true] at h
  rcases h with h | hd
  · rcases nameStart_cases h with ha | rfl | rfl
    · exact hw (by have := alpha_bounds ha; omega) (by rw [Char.isAlphanum, ha]; rfl)
    · rfl
    · rfl
  · exact hw (by have := digit_bounds hd; omega) (by rw [Char.isAlphanum, hd, Bool.or_true])

/-- A text that no character of a name starts. -/
def Unnamed (cs : List Char) : Prop :=
  ∀ c, cs.head? = some c → continuesIdentifier c = false ∧ c ≠ '\\'

theorem nameTail_name {cs : List Char} (hc : ∀ c ∈ cs, isNamePart c = true) {rest : List Char}
    (hr : Unnamed rest) {fuel : Nat} (hf : cs.length < fuel) :
    nameTail false fuel (cs ++ rest) = (cs, false, rest) := by
  induction cs generalizing fuel with
  | nil =>
    cases fuel with
    | zero => exact absurd hf (Nat.not_lt_zero _)
    | succ fuel =>
      cases rest with
      | nil => rfl
      | cons c rest =>
        obtain ⟨hn, hb⟩ := hr c rfl
        rw [List.nil_append]
        unfold nameTail
        rw [escapedChar?_ne hb]
        simp [hn]
  | cons c cs ih =>
    cases fuel with
    | zero => contradiction
    | succ fuel =>
      have hp := hc c List.mem_cons_self
      have hb : c ≠ '\\' := by
        rintro rfl
        revert hp
        decide
      rw [List.cons_append]
      unfold nameTail
      rw [escapedChar?_ne hb]
      simp only [continues_namePart hp, ↓reduceIte,
        ih (fun d hd => hc d (List.mem_cons_of_mem _ hd)) (Nat.lt_of_succ_lt_succ hf)]

theorem Apart.not_named {cs : List Char} (h : Apart cs) : Unnamed cs := by
  intro c hc
  rcases h c hc with rfl | rfl | rfl | rfl | rfl | rfl <;> exact ⟨rfl, by decide⟩

theorem alpha_solid {c : Char} (h : c.isAlpha = true) : Solid c := by
  obtain ⟨hl, hh⟩ := alpha_bounds h
  constructor
  · simp only [isSpace, Bool.or_eq_false_iff, Bool.and_eq_false_iff, beq_eq_false_iff_ne,
      decide_eq_false_iff_not]
    omega
  · rintro rfl
    contradiction

/-- A first character of a name starts no other token. -/
theorem tokenAt_nameStart {c : Char} (h : isNameStart c = true) (fuel : Nat) (rest : List Char) :
    tokenAt fuel c rest = .ok (nameToken c false rest) := by
  have hs := starts_nameStart h
  have ho : ¬ (c = '\'' ∨ c = '"') ∧ c.isDigit = false ∧ c ≠ '.' := by
    rcases nameStart_cases h with ha | rfl | rfl
    · obtain ⟨hl, hh⟩ := alpha_bounds ha
      refine ⟨?_, ?_, ?_⟩
      · rintro (rfl | rfl) <;> contradiction
      · cases hd : c.isDigit with
        | false => rfl
        | true =>
          have := digit_bounds hd
          omega
      · rintro rfl
        contradiction
    · decide
    · decide
  obtain ⟨hq, hd, hp⟩ := ho
  unfold tokenAt
  rw [if_neg (by simpa using hq), if_neg (by simp [hd, hp]), if_pos hs]

theorem nameStart_solid {c : Char} (h : isNameStart c = true) : Solid c := by
  rcases nameStart_cases h with ha | rfl | rfl
  · exact alpha_solid ha
  · exact ⟨rfl, by decide⟩
  · exact ⟨rfl, by decide⟩

/-- A name is one token, if no further character of a name follows. -/
theorem lexes_name {cs : List Char} (hn : IsName cs) {rest : List Char} {ls : List Lexeme}
    (hr : Unnamed rest) (h : Lexes rest ls) : Lexes (cs ++ rest) (⟨.name cs, false⟩ :: ls) := by
  obtain ⟨c, ds, rfl, hs, hd⟩ := hn
  have ht : nameTail false ((ds ++ rest).length + 1) (ds ++ rest) = (ds, false, rest) :=
    nameTail_name hd hr (by rw [List.length_append]; omega)
  rw [List.cons_append]
  refine lexes_token (nameStart_solid hs) (fun fuel _ => ?_) (by simp) h
  rw [tokenAt_nameStart hs, nameToken, ht]
  rfl

/-- A quoted text is one token, whatever follows it. -/
theorem lexes_text (cs : List Char) {rest : List Char} {ls : List Lexeme} (h : Lexes rest ls) :
    Lexes (Json.string false cs ++ rest) (⟨.text (Units.ofChars cs), false⟩ :: ls) := by
  have hl := length_le_written cs
  rw [Json.string, List.cons_append, List.append_assoc, List.singleton_append]
  have hlen : rest.length ≤ (cs.flatMap (Json.escapedChar false) ++ '"' :: rest).length := by
    rw [List.length_append, List.length_cons]
    omega
  refine lexes_token ⟨rfl, by decide⟩ (fun fuel hf => ?_) hlen h
  rw [List.length_append] at hf
  unfold tokenAt
  rw [if_pos (by decide), textTail_text cs rest (by omega)]
  rfl

end Reckoner.Proofs.Lexing
