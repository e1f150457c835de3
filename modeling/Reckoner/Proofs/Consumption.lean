import Reckoner.Proofs.Lexing
import Reckoner.Proofs.Results

namespace Reckoner.Proofs.Consumption
open Snippet Text Lexing Results

variable {cs rest : List Char}

theorem digitsFrom_length (grouped : Bool) (radix : Nat) (cs : List Char) :
    (digitsFrom grouped radix cs).1.length + (digitsFrom grouped radix cs).2.length ≤
      cs.length := by
  induction cs with
  | nil => simp [digitsFrom]
  | cons c cs ih =>
    unfold digitsFrom
    cases digitIn? radix c with
    | some d =>
      simp only [List.length_cons]
      omega
    | none =>
      dsimp only
      split
      · rw [List.length_cons]
        omega
      · simp

theorem digitsIn_length {grouped : Bool} {radix : Nat} {ds : List Nat}
    (h : digitsIn grouped radix cs = (ds, rest)) : ds.length + rest.length ≤ cs.length := by
  have hd := digitsFrom_length grouped radix cs
  unfold digitsIn at h
  split at h
  · rwa [h] at hd
  · cases h
    simp

theorem exponentPart_length {grouped : Bool} {e : Int}
    (h : exponentPart grouped cs = some (e, rest)) : rest.length ≤ cs.length := by
  cases cs with
  | nil => cases h
  | cons c cs =>
    unfold exponentPart at h
    dsimp only at h
    split at h
    · split at h
      · cases h
      · next hd =>
        cases h
        have hl := digitsIn_length hd
        -- A sign before the digits belongs to what was read.
        split at hl <;> simp only [List.length_cons] at hl ⊢ <;> omega
    · cases h

theorem fractionPart_length {grouped afterDigits : Bool} {ds : List Nat}
    (h : fractionPart grouped afterDigits cs = some (ds, rest)) :
    ds.length + rest.length < cs.length := by
  unfold fractionPart at h
  split at h
  · split at h
    · have hl := digitsIn_length (Option.some.inj h)
      rw [List.length_cons]
      omega
    · cases h
  · cases h

theorem decimal?_length {grouped : Bool} {x : Binary64} (h : decimal? grouped cs = some (x, rest)) :
    rest.length < cs.length := by
  unfold decimal? at h
  cases hd : digitsIn grouped 10 cs with
  | mk whole r =>
    have hw := digitsIn_length hd
    rw [hd] at h
    dsimp only at h
    cases hf : fractionPart grouped (!whole.isEmpty) r with
    | none =>
      rw [hf] at h
      dsimp only at h
      split at h
      · cases h
      · next hne =>
        have hp : 0 < whole.length := by
          rw [List.length_pos_iff]
          rintro rfl
          simp at hne
        cases he : exponentPart grouped r with
        | none =>
          rw [he] at h
          cases h
          omega
        | some p =>
          have hl := exponentPart_length he
          rw [he] at h
          cases h
          omega
    | some q =>
      have hl := fractionPart_length hf
      rw [hf] at h
      dsimp only at h
      split at h
      · cases h
      · cases he : exponentPart grouped q.2 with
        | none =>
          rw [he] at h
          cases h
          omega
        | some p =>
          have hx := exponentPart_length he
          rw [he] at h
          cases h
          omega

theorem radixNumber?_length {grouped : Bool} {x : Binary64}
    (h : radixNumber? grouped cs = some (x, rest)) : rest.length < cs.length := by
  unfold radixNumber? at h
  split at h
  · split at h
    · cases h
    · split at h
      · cases h
      · next hd =>
        have hl := digitsIn_length hd
        cases h
        simp only [List.length_cons]
        omega
  · cases h

theorem oldOctal?_length {x : Binary64} (h : oldOctal? cs = some (x, rest)) :
    rest.length ≤ cs.length := by
  unfold oldOctal? at h
  split at h
  · cases h
  · next hd =>
    split at h
    · cases h
    · have hl := digitsIn_length hd
      cases h
      omega

theorem pointless_eq {r s : Binary64 × List Char} (h : pointless r = some s) : r = s := by
  unfold pointless at h
  split at h
  · cases h
  · exact Option.some.inj h

theorem literalNumber?_length {x : Binary64} (h : literalNumber? cs = some (x, rest)) :
    rest.length < cs.length := by
  unfold literalNumber? at h
  split at h
  · split at h
    · obtain ⟨r, hr, hp⟩ := Option.bind_eq_some_iff.mp h
      rw [pointless_eq hp] at hr
      exact radixNumber?_length hr
    · split at h
      · split at h
        · next hr =>
          rw [pointless_eq h] at hr
          have hl := oldOctal?_length hr
          simp only [List.length_cons] at hl ⊢
          omega
        · exact decimal?_length h
      · split at h
        · cases h
        · exact decimal?_length h
  · exact decimal?_length h

theorem numberToken_length {t : Token} (h : numberToken cs = .ok (t, rest)) :
    rest.length < cs.length := by
  unfold numberToken at h
  split at h
  · cases h
  · next hn =>
    split at h
    · cases h
    · cases h
      exact literalNumber?_length hn

theorem hexDigits?_length {n v : Nat} (h : hexDigits? n cs = some (v, rest)) :
    rest.length ≤ cs.length := by
  unfold hexDigits? at h
  dsimp only at h
  split at h
  · obtain ⟨vs, -, hv⟩ := Option.map_eq_some_iff.mp h
    cases hv
    simp
  · cases h

theorem code?_length {n v : Nat} (h : code? n cs = some (v, rest)) :
    rest.length ≤ cs.length := by
  unfold code? at h
  split at h
  · dsimp only at h
    split at h
    · next hd =>
      split at h
      · cases h
      · have hl := hexDigits?_length hd
        cases h
        simp only [List.length_cons] at hl ⊢
        omega
    · cases h
  · exact hexDigits?_length h

theorem octal_length (first : Nat) (cs : List Char) : (octal first cs).2.length ≤ cs.length := by
  unfold octal
  split
  · exact Nat.le_refl _
  · split
    · exact Nat.le_refl _
    · dsimp only
      split
      · simp
      · split
        · simp
        · split
          · simp only [List.length_cons]
            omega
          · simp

theorem unescape_length {u : Units} (h : unescape cs = .ok (u, rest)) :
    rest.length ≤ cs.length := by
  unfold unescape at h
  split at h
  case h_9 | h_10 =>
    split at h
    · next hc =>
      have hl := code?_length hc
      cases h
      rw [List.length_cons]
      omega
    · cases h
  case h_11 c ds _ _ _ _ _ _ _ _ _ =>
    split at h
    · cases h
      simp
    · split at h
      · next d _ =>
        have hl := octal_length d ds
        cases h
        rw [List.length_cons]
        omega
      · cases h
        simp
  all_goals
    cases h
    all_goals
      simp only [List.length_cons]
      omega

/-- A quoted text takes at least its closing quote. -/
theorem textTail_length {quote : Char} {fuel : Nat} {u : Units}
    (h : textTail quote fuel cs = .ok (u, rest)) : rest.length < cs.length := by
  induction fuel generalizing cs u rest with
  | zero => cases h
  | succ fuel ih =>
    unfold textTail at h
    split at h
    · cases h
    · obtain ⟨⟨v, r⟩, hu, h⟩ := ok_of_bind h
      obtain ⟨⟨us, r'⟩, ht, h⟩ := ok_of_bind h
      have hl := unescape_length hu
      have hi := ih ht
      cases h
      rw [List.length_cons]
      omega
    · split at h
      · cases h
        simp
      · split at h
        · cases h
        · obtain ⟨⟨us, r⟩, ht, h⟩ := ok_of_bind h
          have hi := ih ht
          cases h
          rw [List.length_cons]
          omega

theorem escapedChar?_length {c : Char} (h : escapedChar? cs = some (c, rest)) :
    rest.length + 2 ≤ cs.length := by
  unfold escapedChar? at h
  split at h
  · obtain ⟨⟨v, r⟩, hc, he⟩ := Option.map_eq_some_iff.mp h
    have hl := code?_length hc
    cases he
    simp only [List.length_cons]
    omega
  · cases h

theorem nameTail_length (escaped : Bool) (fuel : Nat) (cs : List Char) :
    (nameTail escaped fuel cs).2.2.length ≤ cs.length := by
  induction fuel generalizing escaped cs with
  | zero => exact Nat.le_refl _
  | succ fuel ih =>
    unfold nameTail
    split
    · next c r he =>
      have hl := escapedChar?_length he
      split
      · exact (ih true r).trans (by omega)
      · exact Nat.le_refl _
    · split
      · exact Nat.le_refl _
      · split
        · exact (ih escaped _).trans (by simp)
        · exact Nat.le_refl _

theorem nameToken_length (c : Char) (escaped : Bool) (cs : List Char) :
    (nameToken c escaped cs).2.length ≤ cs.length := by
  have hl := nameTail_length escaped (cs.length + 1) cs
  unfold nameToken
  dsimp only
  split <;> exact hl

theorem hiddenToken_length {t : Token} (h : hiddenToken cs = .ok (t, rest)) :
    rest.length ≤ cs.length := by
  have hl := nameTail_length false (cs.length + 1) cs
  unfold hiddenToken at h
  dsimp only at h
  split at h
  · cases h
    exact hl
  · cases h

/-- A token takes its first character, at least. -/
theorem tokenAt_length {fuel : Nat} {c : Char} {t : Token}
    (h : tokenAt fuel c cs = .ok (t, rest)) : rest.length ≤ cs.length := by
  have hname : ∀ {d : Char} {escaped : Bool} {ds : List Char}, ds.length ≤ cs.length →
      nameToken d escaped ds = (t, rest) → rest.length ≤ cs.length := by
    intro d escaped ds hd he
    have hl := nameToken_length d escaped ds
    rw [he] at hl
    exact hl.trans hd
  unfold tokenAt at h
  split at h
  · obtain ⟨⟨u, r⟩, ht, he⟩ := ok_of_map h
    cases he
    exact (textTail_length ht).le
  split at h
  · have hl := numberToken_length h
    rw [List.length_cons] at hl
    omega
  split at h
  · exact hname (Nat.le_refl _) (Except.ok.inj h)
  split at h
  · exact hiddenToken_length h
  split at h
  · cases h
    simp
  split at h
  · cases h
  split at h
  · next d r he =>
    have hl := escapedChar?_length he
    rw [List.length_cons] at hl
    split at h
    · exact hname (by omega) (Except.ok.inj h)
    · cases h
      exact Nat.le_refl _
  · cases h
    exact Nat.le_refl _

theorem afterComment_suffix {broken b : Bool} (h : afterComment broken cs = some (b, rest)) :
    rest <:+ cs := by
  fun_induction afterComment broken cs with
  | case1 broken cs =>
    cases h
    exact ⟨['*', '/'], rfl⟩
  | case2 broken c cs _ ih => exact (ih h).trans (List.suffix_cons c cs)
  | case3 => cases h

/-- Space and comments are passed, and the text after them is left as it is. -/
theorem afterSpace_suffix {fuel : Nat} {broken b : Bool}
    (h : afterSpace fuel broken cs = .ok (b, rest)) : rest <:+ cs := by
  fun_induction afterSpace fuel broken cs with
  | case1 =>
    cases h
    exact List.suffix_rfl
  | case2 fuel broken cs ih =>
    exact ((ih h).trans (List.dropWhile_suffix _)).trans ⟨['/', '/'], rfl⟩
  | case3 fuel broken cs inside after hc ih =>
    exact ((ih h).trans (afterComment_suffix hc)).trans ⟨['/', '*'], rfl⟩
  | case4 => cases h
  | case5 fuel broken c cs _ _ _ ih => exact (ih h).trans (List.suffix_cons c cs)
  | case6 =>
    cases h
    exact List.suffix_rfl
  | case7 =>
    cases h
    exact List.suffix_rfl

/-- What is left after space does not start with space. -/
theorem afterSpace_stops {fuel : Nat} {broken b : Bool} {c : Char} (hf : cs.length ≤ fuel)
    (h : afterSpace fuel broken cs = .ok (b, c :: rest)) : isSpace c = false := by
  fun_induction afterSpace fuel broken cs with
  | case1 =>
    cases h
    cases hf
  | case2 fuel broken cs ih =>
    have hd := (List.dropWhile_suffix (fun c => !endsLine c) (l := cs)).length_le
    simp only [List.length_cons] at hf
    exact ih (by omega) h
  | case3 fuel broken cs inside after hc ih =>
    have hl := (afterComment_suffix hc).length_le
    simp only [List.length_cons] at hf
    exact ih (by omega) h
  | case4 => cases h
  | case5 fuel broken d cs _ _ _ ih =>
    rw [List.length_cons] at hf
    exact ih (by omega) h
  | case6 fuel broken d cs _ _ hs =>
    cases h
    exact Bool.eq_false_iff.mpr hs
  | case7 => cases h

/-- Fuel for every character of a text is enough to pass the space at its front. -/
theorem afterSpace_fuel {f g : Nat} {broken : Bool} (hf : cs.length ≤ f) (hg : cs.length ≤ g) :
    afterSpace f broken cs = afterSpace g broken cs := by
  fun_induction afterSpace f broken cs generalizing g with
  | case1 broken cs =>
    obtain rfl := List.eq_nil_of_length_eq_zero (Nat.le_zero.mp hf)
    exact (afterSpace_nil g broken).symm
  | case2 fuel broken cs ih =>
    have hd := (List.dropWhile_suffix (fun c => !endsLine c) (l := cs)).length_le
    rw [List.length_cons, List.length_cons] at hf hg
    obtain ⟨g, rfl⟩ : ∃ k, g = k + 1 := ⟨g - 1, by omega⟩
    exact ih (by omega) (by omega)
  | case3 fuel broken cs inside after hc ih =>
    have hl := (afterComment_suffix hc).length_le
    rw [List.length_cons, List.length_cons] at hf hg
    obtain ⟨g, rfl⟩ : ∃ k, g = k + 1 := ⟨g - 1, by omega⟩
    rw [ih (g := g) (by omega) (by omega)]
    conv => rhs; unfold afterSpace
    simp only [hc]
  | case4 fuel broken cs hc =>
    rw [List.length_cons, List.length_cons] at hg
    obtain ⟨g, rfl⟩ : ∃ k, g = k + 1 := ⟨g - 1, by omega⟩
    conv => rhs; unfold afterSpace
    simp only [hc]
  | case5 fuel broken c cs hline hblock hs ih =>
    rw [List.length_cons] at hf hg
    obtain ⟨g, rfl⟩ : ∃ k, g = k + 1 := ⟨g - 1, by omega⟩
    rw [ih (g := g) (by omega) (by omega)]
    conv => rhs; unfold afterSpace
    simp only [hs, ↓reduceIte]
  | case6 fuel broken c cs hline hblock hs =>
    rw [List.length_cons] at hg
    obtain ⟨g, rfl⟩ : ∃ k, g = k + 1 := ⟨g - 1, by omega⟩
    conv => rhs; unfold afterSpace
    simp only [hs, Bool.false_eq_true, ↓reduceIte]
  | case7 fuel broken => exact (afterSpace_nil g broken).symm

theorem textTail_fuel {quote : Char} {f g : Nat} (hf : cs.length < f) (hg : cs.length < g) :
    textTail quote f cs = textTail quote g cs := by
  induction f generalizing cs g with
  | zero => contradiction
  | succ f ih =>
    obtain ⟨g, rfl⟩ : ∃ k, g = k + 1 := ⟨g - 1, by omega⟩
    unfold textTail
    split
    · rfl
    · next cs =>
      rw [List.length_cons] at hf hg
      cases hu : unescape cs with
      | error m => rfl
      | ok r =>
        have hl := unescape_length hu
        change (textTail quote f r.2 >>= _) = (textTail quote g r.2 >>= _)
        rw [ih (g := g) (by omega) (by omega)]
    · rw [List.length_cons] at hf hg
      rw [ih (g := g) (by omega) (by omega)]

theorem tokenAt_fuel {f g : Nat} (c : Char) (hf : cs.length < f) (hg : cs.length < g) :
    tokenAt f c cs = tokenAt g c cs := by
  unfold tokenAt
  rw [textTail_fuel hf hg]

/-- Texts that are alike once the space at their front is passed have the same tokens, if fuel does
not matter to what follows the first one. -/
theorem lexFrom_of_afterSpace {f g : Nat} {ds : List Char}
    (hs : afterSpace (f + 1) false cs = afterSpace (g + 1) false ds) (hf : ds.length ≤ f)
    (hg : ds.length ≤ g) (hr : ∀ es, es.length < ds.length → lexFrom f es = lexFrom g es) :
    lexFrom (f + 1) cs = lexFrom (g + 1) ds := by
  unfold lexFrom
  rw [hs]
  cases ha : afterSpace (g + 1) false ds with
  | error m => rfl
  | ok r =>
    have hl := (afterSpace_suffix ha).length_le
    obtain ⟨broken, _ | ⟨c, es⟩⟩ := r
    · rfl
    · rw [List.length_cons] at hl
      dsimp only
      rw [tokenAt_fuel (g := g + 1) c (by omega) (by omega)]
      cases ht : tokenAt (g + 1) c es with
      | error m => rfl
      | ok q =>
        have ht := tokenAt_length ht
        dsimp only
        rw [hr q.2 (by omega)]

/-- Fuel for more than every character of a text is enough to read its tokens. -/
theorem lexFrom_fuel {f g : Nat} (hf : cs.length < f) (hg : cs.length < g) :
    lexFrom f cs = lexFrom g cs := by
  induction f generalizing cs g with
  | zero => contradiction
  | succ f ih =>
    obtain ⟨g, rfl⟩ : ∃ k, g = k + 1 := ⟨g - 1, by omega⟩
    exact lexFrom_of_afterSpace (afterSpace_fuel (by omega) (by omega)) (by omega) (by omega)
      fun es he => ih (by omega) (by omega)

/-- The tokens of a text are the same whatever space stands before it. -/
theorem lexes_lex (cs : List Char) : Lexes cs (lex cs) := by
  intro n fuel hf
  obtain ⟨f, rfl⟩ : ∃ k, fuel = k + 1 := ⟨fuel - 1, by omega⟩
  refine lexFrom_of_afterSpace ?_ (by omega) (Nat.le_refl _) fun es he =>
    lexFrom_fuel (by omega) (by omega)
  obtain ⟨k, hk⟩ : ∃ k, f + 1 = k + n := ⟨f + 1 - n, by omega⟩
  rw [hk, afterSpace_spaces, afterSpace_fuel (g := cs.length + 1) (by omega) (by omega)]

end Reckoner.Proofs.Consumption
