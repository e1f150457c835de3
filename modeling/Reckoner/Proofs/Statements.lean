import Reckoner.Proofs.Consumption
import Reckoner.Proofs.Extension
import Reckoner.Snippet.Program

namespace Reckoner.Proofs.Statements
open Snippet Text Names Lexing Literals Extension Consumption Results

/-- The words that stand for a value or an operator. -/
def valueWords : List String := ["true", "false", "null", "typeof"]

/-- A token that an expression may start with. -/
def opens : Token → Bool
  | .number _ => true
  | .text _ => true
  | .name cs => !isKeyword cs || valueWords.contains (String.ofList cs)
  | .mark c => ['(', '[', '\x7b', '+', '-'].contains c
  | _ => false

variable {l : Lexeme} {ls : List Lexeme} {r : Expr × List Lexeme} {fuel : Nat}

theorem opens_of_primary (h : primary fuel (l :: ls) = .ok r) : opens l.token = true := by
  cases fuel with
  | zero => cases h
  | succ fuel =>
    unfold primary at h
    split at h
    · next he =>
      cases he
      rfl
    · next he =>
      cases he
      rfl
    · next cs b rest he =>
      cases he
      have hw : ∀ w : String, w ∈ valueWords → cs = w.toList → opens (.name cs) = true := by
        rintro w hw rfl
        rw [opens, String.ofList_toList, List.contains_iff_mem.mpr hw, Bool.or_true]
      split at h
      · next hc => exact hw "true" (by decide) hc
      split at h
      · next hc => exact hw "false" (by decide) hc
      split at h
      · next hc => exact hw "null" (by decide) hc
      split at h
      · cases h
      · next hk => simp [opens, hk]
    · next he =>
      cases he
      rfl
    · next he =>
      cases he
      rfl
    · next he =>
      cases he
      rfl
    · cases h

theorem opens_of_unaryOp? {t : Token} {op : UnaryOp} (h : t.unaryOp? = some op) :
    opens t = true := by
  unfold Token.unaryOp? at h
  split at h
  · rfl
  · rfl
  · next cs =>
    split at h
    · next hc =>
      subst cs
      decide
    · cases h
  · cases h

theorem opens_of_factor (h : factor fuel (l :: ls) = .ok r) : opens l.token = true := by
  cases fuel with
  | zero => cases h
  | succ fuel =>
    rw [factor_cons] at h
    cases ho : l.token.unaryOp? with
    | some op => exact opens_of_unaryOp? ho
    | none =>
      rw [ho] at h
      obtain ⟨p, hp, -⟩ := ok_of_bind h
      exact opens_of_primary hp

theorem opens_of_expression (h : expression fuel (l :: ls) = .ok r) : opens l.token = true := by
  cases fuel with
  | zero => cases h
  | succ fuel =>
    unfold expression at h
    obtain ⟨p, hp, -⟩ := ok_of_bind h
    cases fuel with
    | zero => cases hp
    | succ fuel =>
      unfold term at hp
      obtain ⟨q, hq, -⟩ := ok_of_bind hp
      exact opens_of_factor hq

section Names

variable {x : List Char}

theorem unaryOp?_name (hk : isKeyword x = false) : Token.unaryOp? (.name x) = none := by
  rw [Token.unaryOp?, if_neg]
  rintro rfl
  revert hk
  decide

theorem primary_name (hk : isKeyword x = false) (fuel : Nat) (b : Bool) (ls : List Lexeme) :
    primary (fuel + 1) (⟨.name x, b⟩ :: ls) = .ok (.name x, ls) := by
  have hw : ∀ w ∈ keywords, x ≠ w.toList := by
    rintro w hm rfl
    rw [isKeyword, String.ofList_toList, List.contains_iff_mem.mpr hm] at hk
    contradiction
  unfold primary
  simp only [hw "true" (by decide), hw "false" (by decide), hw "null" (by decide), hk,
    Bool.false_eq_true, ↓reduceIte]

/-- A name that is no keyword is a whole expression before a colon. -/
theorem expression_label (hk : isKeyword x = false) (b b' : Bool)
    {e : Expr} {rest : List Lexeme}
    (h : expression fuel (⟨.name x, b⟩ :: ⟨.mark ':', b'⟩ :: ls) = .ok (e, rest)) :
    rest = ⟨.mark ':', b'⟩ :: ls := by
  have hf : factor (fuel + 2) (⟨.name x, b⟩ :: ⟨.mark ':', b'⟩ :: ls) =
      .ok (.name x, ⟨.mark ':', b'⟩ :: ls) := by
    rw [factor_cons, unaryOp?_name hk]
    dsimp only
    rw [primary_name hk]
    exact accesses_stops (l := ⟨.mark ':', b'⟩) rfl fuel (.name x) ls
  have ht : term (fuel + 3) (⟨.name x, b⟩ :: ⟨.mark ':', b'⟩ :: ls) =
      .ok (.name x, ⟨.mark ':', b'⟩ :: ls) := by
    unfold term
    rw [hf]
    rfl
  have he : expression (fuel + 4) (⟨.name x, b⟩ :: ⟨.mark ':', b'⟩ :: ls) =
      .ok (.name x, ⟨.mark ':', b'⟩ :: ls) := by
    unfold expression
    rw [ht]
    rfl
  have hm := expression_extends closes_nil (Nat.le_add_right fuel 4) h
  rw [List.append_nil, he, List.append_nil] at hm
  cases hm
  rfl

end Names

/-- A brace ends the expression before it. -/
theorem closes_brace (ls : List Lexeme) : Closes (Wrapping.brace :: ls) :=
  closes_mark (.inr (.inr rfl)) true ls

theorem closing_cons (w : Wrapping) : ∃ ts, w.closing = Wrapping.brace :: ts := by
  cases w <;> exact ⟨_, rfl⟩

theorem closes_closing (w : Wrapping) : Closes w.closing := by
  obtain ⟨ts, hw⟩ := closing_cons w
  rw [hw]
  exact closes_brace ts

theorem endStatement_closing (w : Wrapping) : endStatement w.closing = .ok w.closing := by
  cases w <;> rfl

theorem statements_closing (w : Wrapping) (fuel : Nat) :
    statements w (fuel + 3) w.depth w.closing = .ok [] := by
  cases w <;> rfl

/-- Tokens that are one expression, which starts no block. -/
structure Sole (ls : List Lexeme) (x : Expr) : Prop where
  read : expression (fuelFor ls) ls = .ok (x, [])
  unblocked : ∀ l, ls.head? = some l → l.token ≠ .mark '\x7b'

variable {x : Expr}

/-- A text that is read as an expression is nothing else. -/
theorem sole_of_parseExpr {cs : List Char} (hp : parseExpr cs = .ok x)
    (hb : ∀ l, (lex cs).head? = some l → l.token ≠ .mark '\x7b') : Sole (lex cs) x where
  read := by
    obtain ⟨⟨e, rest⟩, he, hr⟩ := ok_of_bind hp
    dsimp only at hr
    split at hr
    · next hn =>
      rw [List.isEmpty_iff.mp hn] at he
      cases hr
      exact he
    · cases hr
  unblocked := hb

/-- The expression is read before the end of its wrapping as well. -/
theorem Sole.closed (h : Sole ls x) (w : Wrapping) :
    expression (fuelFor (ls ++ w.closing)) (ls ++ w.closing) = .ok (x, w.closing) :=
  expression_extends (closes_closing w)
    (by rw [fuelFor, fuelFor, List.length_append]; omega) h.read

theorem Sole.cons (h : Sole ls x) : ∃ l rest, ls = l :: rest ∧ opens l.token = true := by
  cases ls with
  | nil => cases h.read
  | cons l rest => exact ⟨l, rest, rfl, opens_of_expression h.read⟩

/-- No label stands before the expression. -/
theorem Sole.unlabelled (h : Sole ls x) (w : Wrapping) :
    afterLabels (ls ++ w.closing) = ls ++ w.closing := by
  obtain ⟨ts, hw⟩ := closing_cons w
  have hr := h.read
  unfold afterLabels
  split
  · next n b b' rest he =>
    split
    · exact he.symm
    · next hk =>
      rw [hw] at he
      match ls, he with
      | [_], he => cases he
      | _ :: _ :: ls, he =>
        cases he
        cases expression_label (Bool.eq_false_iff.mpr hk) b b' hr
  · rfl

theorem isMark_of_opens {c : Char} (h : opens l.token = true) (hc : opens (.mark c) = false) :
    l.isMark c = false := by
  rw [Lexeme.isMark, decide_eq_false_iff_not]
  intro he
  rw [he, hc] at h
  contradiction

theorem Sole.statements (h : Sole ls x) (w : Wrapping) (fuel : Nat) :
    statements w (fuel + 1) w.depth (ls ++ w.closing) =
      (statements w fuel w.depth w.closing).map (.expr x :: ·) := by
  have hl := h.unlabelled w
  have he := h.closed w
  obtain ⟨l, rest, rfl, ho⟩ := h.cons
  have hr : l.token ≠ .name "return".toList := by
    intro hr
    rw [hr] at ho
    revert ho
    decide
  have hb : l.isMark '\x7b' = false := by
    rw [Lexeme.isMark, decide_eq_false_iff_not]
    exact h.unblocked l rfl
  rw [List.cons_append] at hl he ⊢
  conv => lhs; unfold Snippet.statements
  simp only [isMark_of_opens (c := ';') ho rfl, isMark_of_opens (c := '\x7d') ho rfl, hb, hr, hl,
    he, endStatement_closing, Bool.false_eq_true, ↓reduceIte, bind, Except.bind]
  cases Snippet.statements w fuel w.depth w.closing <;> rfl

variable {cs : List Char}

theorem Sole.room (h : Sole ls x) (w : Wrapping) : ∃ k, (ls ++ w.closing).length = k + 3 := by
  obtain ⟨l, rest, rfl, -⟩ := h.cons
  have hw : 2 ≤ w.closing.length := by
    cases w <;> simp [Wrapping.closing, Wrapping.afterFunction]
  exact ⟨(l :: rest ++ w.closing).length - 3, by
    rw [List.length_append, List.length_cons]
    omega⟩

/-- An expression is one statement in either wrapping. -/
theorem parse_sole (h : Sole (lex cs) x) (w : Wrapping) : parse w cs = .ok [.expr x] := by
  obtain ⟨k, hk⟩ := h.room w
  rw [parse, h.statements, hk, statements_closing]
  rfl

theorem lex_return (cs : List Char) :
    lex ("return ".toList ++ cs) = ⟨.name "return".toList, false⟩ :: lex cs := by
  have hn : IsName "return".toList := isName_cons rfl rfl
  have hr : Unnamed (' ' :: cs) := by
    intro c hc
    cases hc
    exact ⟨rfl, by decide⟩
  exact (lexes_name hn hr (lexes_lex cs).spaced).lex_eq

/-- A block does not return. -/
theorem parse_return_block (cs : List Char) :
    parse .block ("return ".toList ++ cs) = .error .returnOutside := by
  rw [parse, lex_return]
  rfl

/-- A function returns the expression that follows on the line of the word. -/
theorem parse_return_function (h : Sole (lex cs) x)
    (hb : ∀ l, (lex cs).head? = some l → l.broken = false) :
    parse .function ("return ".toList ++ cs) = .ok [.result (some x)] := by
  obtain ⟨k, hk⟩ := h.room .function
  have he := h.closed .function
  rw [parse, lex_return, List.cons_append, List.length_cons, hk]
  obtain ⟨l, rest, hl, ho⟩ := h.cons
  rw [hl] at he hb ⊢
  have hn : returnsNothing (l :: rest ++ Wrapping.function.closing) = false := by
    rw [List.cons_append, returnsNothing, hb l rfl, isMark_of_opens (c := ';') ho rfl,
      isMark_of_opens (c := '\x7d') ho rfl]
    rfl
  have hs : statements .function (k + 4) 0 Wrapping.function.closing = .ok [] :=
    statements_closing .function (k + 1)
  conv => lhs; unfold Snippet.statements
  simp only [Lexeme.isMark, reduceCtorEq, decide_false, Bool.false_eq_true, ↓reduceIte, hn, he,
    endStatement_closing, Wrapping.depth, bind, Except.bind]
  rw [hs]
  rfl

/-- A return does not go on after the end of its line, and the expression is left for itself. -/
theorem parse_return_broken (h : Sole (lex cs) x)
    (hb : ∀ l, (lex cs).head? = some l → l.broken = true) :
    parse .function ("return ".toList ++ cs) = .ok [.result none, .expr x] := by
  obtain ⟨k, hk⟩ := h.room .function
  have hs := h.statements .function (k + 3)
  rw [statements_closing] at hs
  rw [parse, lex_return, List.cons_append, List.length_cons, hk]
  obtain ⟨l, rest, hl, ho⟩ := h.cons
  rw [hl] at hs hb ⊢
  have hn : returnsNothing (l :: rest ++ Wrapping.function.closing) = true := by
    rw [List.cons_append, returnsNothing, hb l rfl]
    rfl
  have he : endStatement (l :: rest ++ Wrapping.function.closing) =
      .ok (l :: rest ++ Wrapping.function.closing) := by
    rw [List.cons_append, endStatement, isMark_of_opens (c := ';') ho rfl, hb l rfl]
    rfl
  rw [Wrapping.depth] at hs
  conv => lhs; unfold Snippet.statements
  simp only [Lexeme.isMark, reduceCtorEq, decide_false, Bool.false_eq_true, ↓reduceIte, hn, he, hs,
    Wrapping.depth, bind, Except.bind]
  rfl

/-- White space that snippets do not pass starts no expression. -/
theorem tokenAt_blank {c : Char} (hb : isBlank c = true) (hs : isSpace c = false) {rest : List Char}
    {p : Token × List Char} (h : tokenAt fuel c rest = .ok p) : opens p.1 = false := by
  have hc : c.toNat = 28 ∨ c.toNat = 29 ∨ c.toNat = 30 ∨ c.toNat = 31 ∨ c.toNat = 0x85 := by
    simp only [isBlank, isSpace, Bool.or_eq_true, Bool.or_eq_false_iff, Bool.and_eq_true,
      Bool.and_eq_false_iff, decide_eq_true_eq, decide_eq_false_iff_not, beq_iff_eq,
      beq_eq_false_iff_ne] at hb hs
    omega
  have hn : c = Char.ofNat c.toNat := (Char.ofNat_toNat c).symm
  have he : escapedChar? (c :: rest) = none := by
    refine escapedChar?_ne ?_ rest
    rintro rfl
    contradiction
  unfold tokenAt at h
  rw [he, hn] at h
  rcases hc with hc | hc | hc | hc | hc
  case inr.inr.inr.inr =>
    have hi : startsIdentifier (Char.ofNat 0x85) = false := by decide +kernel
    rw [hc] at h
    simp [hi] at h
  all_goals
    rw [hc] at h
    cases h
    rfl

/-- A text that is an expression is not blank. -/
theorem Sole.solid (h : Sole (lex cs) x) : cs.all isBlank = false := by
  obtain ⟨l, ls, hl, ho⟩ := h.cons
  rw [Bool.eq_false_iff]
  intro hb
  have hf : opens l.token = false := by
    unfold lex lexFrom at hl
    cases hs : afterSpace (cs.length + 1) false cs with
    | error m =>
      rw [hs] at hl
      cases hl
      rfl
    | ok r =>
      obtain ⟨b, _ | ⟨c, rest⟩⟩ := r
      · rw [hs] at hl
        cases hl
      · have hc := List.all_eq_true.mp hb c ((afterSpace_suffix hs).subset List.mem_cons_self)
        cases ht : tokenAt (cs.length + 1) c rest with
        | error m =>
          simp only [hs, ht] at hl
          cases hl
          rfl
        | ok p =>
          simp only [hs, ht] at hl
          cases hl
          exact tokenAt_blank hc (afterSpace_stops (Nat.le_succ _) hs) ht
  rw [hf] at ho
  contradiction

/-- The word of a return, and the space after it, are no part of a denied construct. -/
theorem occursIn_return {k : Construct} (hk : k ∈ Construct.all) (cs : List Char) :
    k.occursIn ("return ".toList ++ cs) = k.occursIn cs := by
  have hn : startWith k.pieces ("return ".toList ++ cs) = false := by
    simp only [Construct.all, List.mem_cons, List.not_mem_nil, or_false] at hk
    rcases hk with rfl | rfl | rfl | rfl | rfl | rfl | rfl | rfl | rfl | rfl | rfl <;> rfl
  change ((!false && startWith k.pieces ("return ".toList ++ cs)) || _) = _
  rw [hn]
  rfl

theorem complaints_return (h : Sole (lex cs) x) :
    complaints ("return ".toList ++ cs) = complaints cs := by
  have hb : ("return ".toList ++ cs).all isBlank = false := rfl
  unfold complaints
  rw [hb, h.solid]
  refine congrArg (List.map Complaint.denied) ?_
  exact List.filter_congr fun k hk => occursIn_return hk cs

end Reckoner.Proofs.Statements
