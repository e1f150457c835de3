import Reckoner.Proofs.Literals
import Reckoner.Proofs.Results

namespace Reckoner.Proofs.Extension
open Snippet Text Literals Results

variable {α β : Type} {ts : List Lexeme}

/-- What one reading gives the other one gives as well, and it leaves further tokens. -/
def Extends (ts : List Lexeme) (r r' : Except Malformed (α × List Lexeme)) : Prop :=
  ∀ a rest, r = .ok (a, rest) → r' = .ok (a, rest ++ ts)

theorem extends_error {m : Malformed} {r' : Except Malformed (α × List Lexeme)} :
    Extends ts (.error m) r' := nofun

theorem extends_ok {a : α} {rest : List Lexeme} :
    Extends ts (.ok (a, rest)) (.ok (a, rest ++ ts)) := by
  rintro b r h
  cases h
  rfl

theorem Extends.bind {r r' : Except Malformed (α × List Lexeme)}
    {f f' : α × List Lexeme → Except Malformed (β × List Lexeme)} (hr : Extends ts r r')
    (hf : ∀ a rest, Extends ts (f (a, rest)) (f' (a, rest ++ ts))) :
    Extends ts (r >>= f) (r' >>= f') := by
  intro b rest h
  obtain ⟨⟨a, left⟩, ha, h⟩ := ok_of_bind h
  rw [hr a left ha]
  exact hf a left b rest h

theorem Extends.map {r r' : Except Malformed (α × List Lexeme)} (hr : Extends ts r r')
    (f : α → β) :
    Extends ts (r.map fun (a, ls) => (f a, ls)) (r'.map fun (a, ls) => (f a, ls)) := by
  intro b rest h
  obtain ⟨⟨a, left⟩, ha, h⟩ := ok_of_map h
  cases h
  rw [hr a rest ha]
  rfl

/-- A mark that is expected is there as well when other tokens follow. -/
theorem extends_expectAs (shown c : Char) (ls : List Lexeme)
    {f f' : List Lexeme → Except Malformed (β × List Lexeme)}
    (hf : ∀ rest, Extends ts (f rest) (f' (rest ++ ts))) :
    Extends ts (expectAs shown c ls >>= f) (expectAs shown c (ls ++ ts) >>= f') := by
  cases ls with
  | nil => exact extends_error
  | cons l ls =>
    rw [List.cons_append, expectAs, expectAs]
    split
    · exact hf ls
    · exact extends_error

/-- After an item there is a comma and what it separates, or a mark that is expected. -/
theorem extends_separated (shown c : Char) (ls : List Lexeme)
    {f f' k k' : List Lexeme → Except Malformed (β × List Lexeme)}
    (hf : ∀ rest, Extends ts (f rest) (f' (rest ++ ts)))
    (hk : ∀ rest, Extends ts (k rest) (k' (rest ++ ts))) :
    Extends ts
      (match ls with
        | ⟨.mark ',', _⟩ :: rest => f rest
        | rest => expectAs shown c rest >>= k)
      (match ls ++ ts with
        | ⟨.mark ',', _⟩ :: rest => f' rest
        | rest => expectAs shown c rest >>= k') := by
  cases ls with
  | nil => exact extends_error
  | cons l ls =>
    rw [List.cons_append]
    split
    · next h =>
      cases h
      exact hf ls
    · next hn =>
      split
      · next h =>
        cases h
        exact absurd rfl (hn _ _)
      · exact extends_expectAs shown c (l :: ls) hk

/-- A token is an operator in front of an operand, or its start. -/
theorem factor_cons (fuel : Nat) (l : Lexeme) (ls : List Lexeme) :
    factor (fuel + 1) (l :: ls) =
      match l.token.unaryOp? with
      | some op => (factor fuel ls).map fun (e, ls) => (.unary op e, ls)
      | none => primary fuel (l :: ls) >>= fun (e, ls) => accesses fuel e ls :=
  factor.eq_3 fuel l ls

def goesOn (t : Token) : Bool := t = .mark '.' || t = .mark '[' || t = .mark '('

theorem accesses_stops {l : Lexeme} (hl : goesOn l.token = false) (fuel : Nat) (e : Expr)
    (ls : List Lexeme) : accesses (fuel + 1) e (l :: ls) = .ok (e, l :: ls) := by
  obtain ⟨t, b⟩ := l
  unfold accesses
  split
  · next h =>
    cases h
    contradiction
  · next h =>
    cases h
    contradiction
  · next h =>
    cases h
    contradiction
  · rfl

theorem standsAlone_append (hts : Closes ts) (l : Lexeme) (ls : List Lexeme) :
    standsAlone l (ls ++ ts) = standsAlone l ls := by
  cases ls with
  | cons m ls => rfl
  | nil =>
    have hn : (ts.head?.any fun m => m.isMark ':' || m.isMark '(') = false := by
      cases ts with
      | nil => rfl
      | cons m ts => rcases hts m rfl with h | h | h <;> simp [Lexeme.isMark, h]
    unfold standsAlone
    rw [List.nil_append, hn]
    rfl

/-- The readers of expressions at some fuel, against any greater fuel and more tokens. -/
structure Readers (ts : List Lexeme) (f : Nat) : Prop where
  expression : ∀ {g}, f ≤ g → ∀ ls, Extends ts (expression f ls) (expression g (ls ++ ts))
  looseTail : ∀ {g}, f ≤ g → ∀ a ls, Extends ts (looseTail f a ls) (looseTail g a (ls ++ ts))
  term : ∀ {g}, f ≤ g → ∀ ls, Extends ts (term f ls) (term g (ls ++ ts))
  tightTail : ∀ {g}, f ≤ g → ∀ a ls, Extends ts (tightTail f a ls) (tightTail g a (ls ++ ts))
  factor : ∀ {g}, f ≤ g → ∀ ls, Extends ts (factor f ls) (factor g (ls ++ ts))
  accesses : ∀ {g}, f ≤ g → ∀ e ls, Extends ts (accesses f e ls) (accesses g e (ls ++ ts))
  primary : ∀ {g}, f ≤ g → ∀ ls, Extends ts (primary f ls) (primary g (ls ++ ts))
  items : ∀ {g}, f ≤ g → ∀ close ls, Extends ts (items f close ls) (items g close (ls ++ ts))
  pairs : ∀ {g}, f ≤ g → ∀ hasParent ls,
    Extends ts (pairs f hasParent ls) (pairs g hasParent (ls ++ ts))
  value : ∀ {g}, f ≤ g → ∀ l ls, Extends ts (value f l ls) (value g l (ls ++ ts))

section Step

variable {f g : Nat} (hr : Readers ts f) (hts : Closes ts) (hg : f ≤ g)
include hr hg

theorem expression_step (ls : List Lexeme) :
    Extends ts (expression (f + 1) ls) (expression (g + 1) (ls ++ ts)) := by
  unfold expression
  exact (hr.term hg ls).bind fun e rest => hr.looseTail hg e rest

theorem term_step (ls : List Lexeme) :
    Extends ts (term (f + 1) ls) (term (g + 1) (ls ++ ts)) := by
  unfold term
  exact (hr.factor hg ls).bind fun e rest => hr.tightTail hg e rest

theorem factor_step (ls : List Lexeme) :
    Extends ts (factor (f + 1) ls) (factor (g + 1) (ls ++ ts)) := by
  cases ls with
  | nil => exact extends_error
  | cons l ls =>
    rw [List.cons_append]
    rw [factor_cons, factor_cons]
    cases l.token.unaryOp? with
    | some op => exact (hr.factor hg ls).map _
    | none => exact (hr.primary hg (l :: ls)).bind fun e rest => hr.accesses hg e rest

include hts

theorem looseTail_step (a : Expr) (ls : List Lexeme) :
    Extends ts (looseTail (f + 1) a ls) (looseTail (g + 1) a (ls ++ ts)) := by
  cases ls with
  | nil =>
    rw [List.nil_append, looseTail_closes hts]
    exact extends_ok
  | cons l ls =>
    rw [List.cons_append]
    unfold looseTail
    dsimp only
    cases l.token.looseOp? with
    | none => exact extends_ok
    | some op => exact (hr.term hg ls).bind fun b rest => hr.looseTail hg _ rest

theorem tightTail_step (a : Expr) (ls : List Lexeme) :
    Extends ts (tightTail (f + 1) a ls) (tightTail (g + 1) a (ls ++ ts)) := by
  cases ls with
  | nil =>
    rw [List.nil_append, tightTail_closes hts]
    exact extends_ok
  | cons l ls =>
    rw [List.cons_append]
    unfold tightTail
    dsimp only
    cases l.token.tightOp? with
    | none => exact extends_ok
    | some op => exact (hr.factor hg ls).bind fun b rest => hr.tightTail hg _ rest

theorem accesses_step (e : Expr) (ls : List Lexeme) :
    Extends ts (accesses (f + 1) e ls) (accesses (g + 1) e (ls ++ ts)) := by
  cases ls with
  | nil =>
    rw [List.nil_append, accesses_closes hts]
    exact extends_ok
  | cons l ls =>
    rw [List.cons_append]
    cases hl : goesOn l.token with
    | false =>
      rw [accesses_stops hl, accesses_stops hl]
      exact extends_ok
    | true =>
      obtain ⟨t, b⟩ := l
      simp only [goesOn, Bool.or_eq_true, decide_eq_true_eq] at hl
      rcases hl with (rfl | rfl) | rfl
      · unfold accesses
        cases ls with
        | nil => exact extends_error
        | cons l ls =>
          cases hk : l.token.field? with
          | none =>
            simp only [List.cons_append, hk]
            exact extends_error
          | some key =>
            simp only [List.cons_append, hk]
            exact hr.accesses hg _ ls
      · unfold accesses
        exact (hr.expression hg ls).bind fun key rest =>
          extends_expectAs _ _ rest fun rest => hr.accesses hg _ rest
      · unfold accesses
        exact (hr.items hg ')' ls).bind fun args rest => hr.accesses hg _ rest

theorem value_step (l : Lexeme) (ls : List Lexeme) :
    Extends ts (value (f + 1) l ls) (value (g + 1) l (ls ++ ts)) := by
  unfold value
  rw [standsAlone_append hts]
  split
  · exact extends_ok
  · exact extends_expectAs _ _ ls fun rest => hr.expression hg rest

omit hts

theorem primary_step (ls : List Lexeme) :
    Extends ts (primary (f + 1) ls) (primary (g + 1) (ls ++ ts)) := by
  unfold primary
  split
  · exact extends_ok
  · exact extends_ok
  · next cs b ls =>
    dsimp only [List.cons_append]
    split
    · exact extends_ok
    split
    · exact extends_ok
    split
    · exact extends_ok
    split
    · exact extends_error
    · exact extends_ok
  · next ls =>
    exact (hr.expression hg ls).bind fun e rest => extends_expectAs _ _ rest fun rest => extends_ok
  · next ls => exact (hr.items hg ']' ls).map _
  · next ls => exact (hr.pairs hg false ls).map _
  · exact extends_error

theorem items_step (close : Char) (ls : List Lexeme) :
    Extends ts (items (f + 1) close ls) (items (g + 1) close (ls ++ ts)) := by
  cases ls with
  | nil => exact extends_error
  | cons l ls =>
    unfold items
    dsimp only [List.cons_append]
    split
    · exact extends_ok
    split
    · exact (hr.items hg close ls).bind fun es rest => extends_ok
    · refine (hr.expression hg (l :: ls)).bind fun e rest => ?_
      exact extends_separated _ _ rest
        (fun rest => (hr.items hg close rest).bind fun es rest => extends_ok)
        fun rest => extends_ok

theorem pairs_step (hasParent : Bool) (ls : List Lexeme) :
    Extends ts (pairs (f + 1) hasParent ls) (pairs (g + 1) hasParent (ls ++ ts)) := by
  cases ls with
  | nil => exact extends_error
  | cons l ls =>
    unfold pairs
    dsimp only [List.cons_append]
    split
    · exact extends_ok
    cases l.token.key? with
    | none => exact extends_error
    | some key =>
      refine (hr.value hg l ls).bind fun e rest => ?_
      dsimp only
      split
      · exact extends_error
      exact extends_separated _ _ rest
        (fun rest => (hr.pairs hg _ rest).bind fun ms rest => extends_ok)
        fun rest => extends_ok

end Step

/-- Every reader gives with more fuel, and with closing tokens behind, what it gave without. -/
theorem readers (hts : Closes ts) (f : Nat) : Readers ts f := by
  induction f with
  | zero => constructor <;> intros <;> exact extends_error
  | succ f ih =>
    constructor
    all_goals
      intro g hg
      obtain ⟨k, rfl⟩ : ∃ k, g = k + 1 := ⟨g - 1, by omega⟩
      have hk : f ≤ k := Nat.le_of_succ_le_succ hg
    · exact expression_step ih hk
    · exact looseTail_step ih hts hk
    · exact term_step ih hk
    · exact tightTail_step ih hts hk
    · exact factor_step ih hk
    · exact accesses_step ih hts hk
    · exact primary_step ih hk
    · exact items_step ih hk
    · exact pairs_step ih hk
    · exact value_step ih hts hk

/-- An expression is read with more fuel as well, and when closing tokens follow it. -/
theorem expression_extends (hts : Closes ts) {f g : Nat} (hg : f ≤ g) {ls rest : List Lexeme}
    {e : Expr} (h : expression f ls = .ok (e, rest)) :
    expression g (ls ++ ts) = .ok (e, rest ++ ts) :=
  (readers hts f).expression hg ls e rest h

end Reckoner.Proofs.Extension
