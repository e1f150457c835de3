import Reckoner.Proofs.Lexing

namespace Reckoner.Proofs.Literals
open Snippet Text Names Spellings Lexing Quoting

/-- Tokens that end the expression before them: none, or a mark that closes or separates items. -/
def Closes (ls : List Lexeme) : Prop :=
  ∀ l, ls.head? = some l → l.token = .mark ',' ∨ l.token = .mark ']' ∨ l.token = .mark '\x7d'

theorem closes_mark {c : Char} (hc : c = ',' ∨ c = ']' ∨ c = '\x7d') (broken : Bool)
    (ls : List Lexeme) : Closes (⟨.mark c, broken⟩ :: ls) := by
  intro l hl
  cases hl
  rcases hc with rfl | rfl | rfl <;> simp

theorem closes_nil : Closes [] := by
  intro l hl
  cases hl

theorem looseTail_closes {ls : List Lexeme} (hc : Closes ls) (fuel : Nat) (e : Expr) :
    looseTail (fuel + 1) e ls = .ok (e, ls) := by
  unfold looseTail
  cases ls with
  | nil => rfl
  | cons l ls =>
    rcases hc l rfl with h | h | h <;> simp [h, Token.looseOp?]

theorem tightTail_closes {ls : List Lexeme} (hc : Closes ls) (fuel : Nat) (e : Expr) :
    tightTail (fuel + 1) e ls = .ok (e, ls) := by
  unfold tightTail
  cases ls with
  | nil => rfl
  | cons l ls =>
    rcases hc l rfl with h | h | h <;> simp [h, Token.tightOp?]

theorem accesses_closes {ls : List Lexeme} (hc : Closes ls) (fuel : Nat) (e : Expr) :
    accesses (fuel + 1) e ls = .ok (e, ls) := by
  unfold accesses
  cases ls with
  | nil => rfl
  | cons l ls =>
    obtain ⟨t, b⟩ := l
    rcases hc _ rfl with h | h | h <;> cases h <;> rfl

/-- A factor that closing tokens follow is a whole expression. -/
theorem expression_of_factor {fuel : Nat} {ls rest : List Lexeme} {e : Expr} (hc : Closes rest)
    (hf : factor (fuel + 1) ls = .ok (e, rest)) : expression (fuel + 3) ls = .ok (e, rest) := by
  have ht : term (fuel + 2) ls = .ok (e, rest) := by
    unfold term
    rw [hf]
    exact tightTail_closes hc fuel e
  unfold expression
  rw [ht]
  exact looseTail_closes hc (fuel + 1) e

/-- A token that is no operator in front of an operand. -/
def Operand (l : Lexeme) : Prop := l.token.unaryOp? = none

theorem factor_of_primary {fuel : Nat} {l : Lexeme} {ls rest : List Lexeme} {e : Expr}
    (hl : Operand l) (hc : Closes rest) (hp : primary (fuel + 1) (l :: ls) = .ok (e, rest)) :
    factor (fuel + 2) (l :: ls) = .ok (e, rest) := by
  obtain ⟨t, b⟩ := l
  unfold factor
  split
  · next h => cases h
  · next h =>
    cases h
    rw [Operand] at hl
    simp only [hl]
    rw [hp]
    exact accesses_closes hc fuel e

theorem factor_minus {fuel : Nat} {b : Bool} {ls rest : List Lexeme} {e : Expr}
    (hf : factor fuel ls = .ok (e, rest)) :
    factor (fuel + 1) (⟨.mark '-', b⟩ :: ls) = .ok (.unary .minus e, rest) := by
  unfold factor
  simp [Token.unaryOp?, hf, Except.map]

/-- A literal with its tokens and the expression that these are. -/
structure Reading where
  text : List Char
  tokens : List Lexeme
  expr : Expr

/-- A token that starts an element of an array. -/
def OpensItem (l : Lexeme) : Prop := l.isMark ']' = false ∧ l.isMark ',' = false

/-- A text that is read as tokens, whatever stands apart from it. -/
def LexesTo (cs : List Char) (ts : List Lexeme) : Prop :=
  ∀ rest ls, Apart rest → Lexes rest ls → Lexes (cs ++ rest) (ts ++ ls)

/-- The text is read as the tokens, and these as the expression, wherever the literal stands. -/
structure Reading.Holds (r : Reading) : Prop where
  lexed : LexesTo r.text r.tokens
  opens : ∃ l ts, r.tokens = l :: ts ∧ OpensItem l
  parsed : ∀ fuel ls, Closes ls → 8 * r.tokens.length ≤ fuel →
    expression fuel (r.tokens ++ ls) = .ok (r.expr, ls)
  visible : Visible r.text

/-- A literal that is one token. -/
theorem holds_operand {cs : List Char} {t : Token} {e : Expr} (hl : LexesTo cs [⟨t, false⟩])
    (hv : Visible cs) (ho : Operand ⟨t, false⟩) (hm : OpensItem ⟨t, false⟩)
    (hp : ∀ fuel ls, primary (fuel + 1) (⟨t, false⟩ :: ls) = .ok (e, ls)) :
    Reading.Holds ⟨cs, [⟨t, false⟩], e⟩ where
  lexed := hl
  opens := ⟨_, _, rfl, hm⟩
  parsed := by
    intro fuel ls hc hf
    obtain ⟨k, rfl⟩ : ∃ k, fuel = k + 4 := ⟨fuel - 4, by simp at hf; omega⟩
    exact expression_of_factor hc (factor_of_primary ho hc (hp k ls))
  visible := hv

/-- A minus before a literal that is one token. -/
theorem holds_minus {cs : List Char} {t : Token} {e : Expr} (hl : LexesTo cs [⟨t, false⟩])
    (hv : Visible cs) (hn : ∃ d ds, cs = d :: ds ∧ d ≠ '-') (ho : Operand ⟨t, false⟩)
    (hp : ∀ fuel ls, primary (fuel + 1) (⟨t, false⟩ :: ls) = .ok (e, ls)) :
    Reading.Holds ⟨'-' :: cs, [mark '-', ⟨t, false⟩], .unary .minus e⟩ where
  lexed := by
    intro rest ls hr h
    refine lexes_minus ?_ (hl rest ls hr h)
    obtain ⟨d, ds, rfl, hd⟩ := hn
    simpa using hd
  opens := ⟨_, _, rfl, rfl, rfl⟩
  parsed := by
    intro fuel ls hc hf
    obtain ⟨k, rfl⟩ : ∃ k, fuel = k + 5 := ⟨fuel - 5, by simp at hf; omega⟩
    exact expression_of_factor hc (factor_minus (factor_of_primary ho hc (hp k ls)))
  visible := visible_cons (by decide) hv

def moreText (ps : List (List Char × List Lexeme)) : List Char :=
  ps.flatMap fun p => ',' :: ' ' :: p.1

def moreTokens (ts : List (List Lexeme)) : List Lexeme := ts.flatMap fun t => mark ',' :: t

theorem apart_mark {c : Char} (hc : c = ',' ∨ c = ']' ∨ c = '\x7d') (rest : List Char) :
    Apart (c :: rest) := by
  intro d hd
  cases hd
  rcases hc with rfl | rfl | rfl <;> simp

theorem apart_more (ps : List (List Char × List Lexeme)) {c : Char} (hc : c = ']' ∨ c = '\x7d')
    (rest : List Char) : Apart (moreText ps ++ c :: rest) := by
  cases ps with
  | nil => exact apart_mark (.inr hc) rest
  | cons p ps => exact apart_mark (.inl rfl) _

theorem lexes_more {ps : List (List Char × List Lexeme)} (hp : ∀ p ∈ ps, LexesTo p.1 p.2) {c : Char}
    (hc : c = ']' ∨ c = '\x7d') {rest : List Char} {ls : List Lexeme} (h : Lexes rest ls) :
    Lexes (moreText ps ++ c :: rest) (moreTokens (ps.map Prod.snd) ++ mark c :: ls) := by
  induction ps with
  | nil => exact lexes_mark (by rcases hc with rfl | rfl <;> decide) h
  | cons p ps ih =>
    have hs := ih fun q hq => hp q (List.mem_cons_of_mem _ hq)
    have h1 := hp p List.mem_cons_self _ _ (apart_more ps hc rest) hs
    have h2 := lexes_mark (c := ',') (by decide) h1.spaced
    simpa [moreText, moreTokens] using h2

/-- The tokens of items between brackets. -/
def bracketedTokens (left right : Char) : List (List Lexeme) → List Lexeme
  | [] => [mark left, mark right]
  | t :: ts => mark left :: (t ++ moreTokens ts ++ [mark right])

/-- Items between brackets are read one after the other. -/
theorem lexesTo_bracketed {left right : Char}
    (hb : (left = '[' ∧ right = ']') ∨ (left = '\x7b' ∧ right = '\x7d'))
    {ps : List (List Char × List Lexeme)} (hp : ∀ p ∈ ps, LexesTo p.1 p.2) (depth : Nat) :
    LexesTo (Json.bracketed .literal depth left right (ps.map Prod.fst))
      (bracketedTokens left right (ps.map Prod.snd)) := by
  intro rest ls _ h
  have hl : left ∈ marks := by rcases hb with ⟨rfl, -⟩ | ⟨rfl, -⟩ <;> decide
  have hr : right ∈ marks := by rcases hb with ⟨-, rfl⟩ | ⟨-, rfl⟩ <;> decide
  have hc : right = ']' ∨ right = '\x7d' := hb.imp And.right And.right
  cases ps with
  | nil => exact lexes_mark hl (lexes_mark hr h)
  | cons p ps =>
    have hs := lexes_more (fun q hq => hp q (List.mem_cons_of_mem _ hq)) hc h
    have h1 := lexes_mark hl (hp p List.mem_cons_self _ _ (apart_more ps hc rest) hs)
    have ht : Json.bracketed .literal depth left right ((p :: ps).map Prod.fst) ++ rest =
        left :: (p.1 ++ (moreText ps ++ right :: rest)) := by
      simp [Json.bracketed, moreText, Json.Style.newline, Json.Style.comma, Json.Style.literal,
        List.flatMap_map]
    rw [ht]
    simpa [bracketedTokens] using h1

theorem moreTokens_cons (t : List Lexeme) (ts : List (List Lexeme)) :
    moreTokens (t :: ts) = mark ',' :: (t ++ moreTokens ts) := rfl

theorem closes_more (ts : List (List Lexeme)) {c : Char} (hc : c = ']' ∨ c = '\x7d')
    (ls : List Lexeme) : Closes (moreTokens ts ++ mark c :: ls) := by
  cases ts with
  | nil => exact closes_mark (.inr hc) false ls
  | cons t ts => exact closes_mark (.inl rfl) false _

theorem items_last {l : Lexeme} (hl : OpensItem l) {fuel : Nat} {ls rest : List Lexeme} {e : Expr}
    (he : expression fuel (l :: ls) = .ok (e, mark ']' :: rest)) :
    items (fuel + 1) ']' (l :: ls) = .ok ([e], rest) := by
  unfold items
  simp only [hl.1, hl.2, he, Bool.false_eq_true, ↓reduceIte, Bool.false_and]
  rfl

theorem items_more {l : Lexeme} (hl : OpensItem l) {fuel : Nat} {ls rest ls' : List Lexeme}
    {e : Expr} {es : List Expr} (he : expression fuel (l :: ls) = .ok (e, mark ',' :: rest))
    (hs : items fuel ']' rest = .ok (es, ls')) :
    items (fuel + 1) ']' (l :: ls) = .ok (e :: es, ls') := by
  unfold items
  simp only [hl.1, hl.2, he, hs, mark, Bool.false_eq_true, ↓reduceIte, Bool.false_and, bind,
    Except.bind]
  rfl

/-- Elements are parsed one after the other up to the closing bracket. -/
theorem items_parsed {r : Reading} {rs : List Reading} (hr : ∀ x ∈ r :: rs, x.Holds)
    {fuel : Nat} {ls : List Lexeme}
    (hf : 8 * (r.tokens ++ moreTokens (rs.map Reading.tokens)).length < fuel) :
    items fuel ']' (r.tokens ++ (moreTokens (rs.map Reading.tokens) ++ mark ']' :: ls)) =
      .ok ((r :: rs).map Reading.expr, ls) := by
  induction rs generalizing r fuel with
  | nil =>
    have h := hr r List.mem_cons_self
    rw [List.length_append] at hf
    obtain ⟨fuel, rfl⟩ : ∃ k, fuel = k + 1 := ⟨fuel - 1, by omega⟩
    have hp := h.parsed fuel _ (closes_more [] (.inl rfl) ls) (by omega)
    obtain ⟨l, ts, ht, ho⟩ := h.opens
    rw [ht] at hp
    rw [List.map_nil, ht]
    exact items_last ho hp
  | cons s rs ih =>
    have h := hr r List.mem_cons_self
    rw [List.map_cons, moreTokens_cons, List.length_append, List.length_cons] at hf
    obtain ⟨fuel, rfl⟩ : ∃ k, fuel = k + 1 := ⟨fuel - 1, by omega⟩
    have hs := ih (fun x hx => hr x (List.mem_cons_of_mem _ hx)) (show _ < fuel by omega)
    have hp := h.parsed fuel _ (closes_more ((s :: rs).map Reading.tokens) (.inl rfl) ls)
      (by omega)
    obtain ⟨l, ts, ht, ho⟩ := h.opens
    rw [List.map_cons, moreTokens_cons, List.cons_append, List.append_assoc] at hp ⊢
    rw [ht] at hp ⊢
    exact items_more ho hp hs

def arrayReading (depth : Nat) (rs : List Reading) : Reading where
  text := Json.bracketed .literal depth '[' ']' (rs.map Reading.text)
  tokens := bracketedTokens '[' ']' (rs.map Reading.tokens)
  expr := .array (rs.map Reading.expr)

theorem operand_bracket {c : Char} (hc : c = '[' ∨ c = '\x7b') : Operand (mark c) := by
  rcases hc with rfl | rfl <;> rfl

theorem primary_array {rs : List Reading} (hr : ∀ r ∈ rs, r.Holds) {fuel : Nat}
    {ls : List Lexeme}
    (hf : 8 * (bracketedTokens '[' ']' (rs.map Reading.tokens)).length < fuel + 8) :
    primary (fuel + 1) (bracketedTokens '[' ']' (rs.map Reading.tokens) ++ ls) =
      .ok (.array (rs.map Reading.expr), ls) := by
  have hp : ∀ {ts : List Lexeme} {es : List Expr}, items fuel ']' ts = .ok (es, ls) →
      primary (fuel + 1) (mark '[' :: ts) = .ok (.array es, ls) := by
    intro ts es h
    unfold primary
    change (items fuel ']' ts).map _ = _
    rw [h]
    rfl
  cases rs with
  | nil =>
    apply hp
    obtain ⟨k, rfl⟩ : ∃ k, fuel = k + 1 := ⟨fuel - 1, by simp [bracketedTokens] at hf; omega⟩
    unfold items
    rfl
  | cons r rs =>
    simp only [bracketedTokens, List.map_cons, List.cons_append, List.append_assoc,
      List.length_cons, List.length_append] at hf ⊢
    apply hp
    exact items_parsed hr (by rw [List.length_append]; omega)

theorem bracketedTokens_opens (left right : Char) (ts : List (List Lexeme)) :
    ∃ us, bracketedTokens left right ts = mark left :: us := by
  cases ts with
  | nil => exact ⟨_, rfl⟩
  | cons t ts => exact ⟨_, rfl⟩

/-- What is in brackets is an expression once it is a primary one. -/
theorem holds_bracketed {left right : Char} (hl : left = '[' ∨ left = '\x7b')
    {cs : List Char} {ts : List (List Lexeme)} {e : Expr}
    (hs : LexesTo cs (bracketedTokens left right ts)) (hv : Visible cs)
    (hp : ∀ fuel ls, 8 * (bracketedTokens left right ts).length < fuel + 8 →
      primary (fuel + 1) (bracketedTokens left right ts ++ ls) = .ok (e, ls)) :
    Reading.Holds ⟨cs, bracketedTokens left right ts, e⟩ where
  lexed := hs
  opens := by
    obtain ⟨us, hu⟩ := bracketedTokens_opens left right ts
    exact ⟨_, us, hu, by rcases hl with rfl | rfl <;> exact ⟨rfl, rfl⟩⟩
  parsed := by
    intro fuel ls hc hf
    obtain ⟨us, hu⟩ := bracketedTokens_opens left right ts
    dsimp only at hf ⊢
    have hlen : (bracketedTokens left right ts).length = us.length + 1 := by
      rw [hu, List.length_cons]
    obtain ⟨k, rfl⟩ : ∃ k, fuel = k + 4 := ⟨fuel - 4, by omega⟩
    have hk := hp k ls (by omega)
    rw [hu] at hk ⊢
    exact expression_of_factor hc (factor_of_primary (operand_bracket hl) hc hk)
  visible := hv

theorem bracketed_visible {left right : Char} (hl : 32 ≤ left.toNat) (hr : 32 ≤ right.toNat)
    (depth : Nat) {ps : List (List Char)} (hp : ∀ p ∈ ps, Visible p) :
    Visible (Json.bracketed .literal depth left right ps) := by
  cases ps with
  | nil => exact visible_cons hl (visible_cons hr (by simp [Visible]))
  | cons p ps =>
    have hn : ∀ d, Visible (Json.Style.literal.newline d) := by
      simp [Visible, Json.Style.newline, Json.Style.literal]
    have hm : Visible (ps.flatMap (Json.Style.literal.comma (depth + 1) ++ ·)) := by
      intro c hc
      obtain ⟨q, hq, hc⟩ := List.mem_flatMap.mp hc
      have hs : Visible (Json.Style.literal.comma (depth + 1)) :=
        visible_cons (by decide) (visible_cons (by decide) (by simp [Visible]))
      exact visible_append hs (hp q (List.mem_cons_of_mem _ hq)) c hc
    have hend : Visible [right] := visible_cons hr (by simp [Visible])
    exact visible_cons hl (visible_append (visible_append (visible_append
      (visible_append (hn _) (hp p List.mem_cons_self)) hm) (hn _)) hend)

theorem array_holds (depth : Nat) {rs : List Reading} (hr : ∀ r ∈ rs, r.Holds) :
    (arrayReading depth rs).Holds := by
  refine holds_bracketed (.inl rfl) ?_ ?_ fun fuel ls => primary_array hr
  · have hp : ∀ p ∈ rs.map fun r => (r.text, r.tokens), LexesTo p.1 p.2 := by
      simpa using fun r h => (hr r h).lexed
    simpa [Function.comp_def] using lexesTo_bracketed (.inl ⟨rfl, rfl⟩) hp depth
  · refine bracketed_visible (by decide) (by decide) depth ?_
    simpa using fun r h => (hr r h).visible

structure Member where
  key : List Char
  reading : Reading

def Member.text (m : Member) : List Char := Json.string false m.key ++ ':' :: ' ' :: m.reading.text

def Member.tokens (m : Member) : List Lexeme :=
  ⟨.text (Units.ofChars m.key), false⟩ :: mark ':' :: m.reading.tokens

def Member.expr (m : Member) : Units × Expr := (Units.ofChars m.key, m.reading.expr)

theorem member_lexed {m : Member} (hm : m.reading.Holds) : LexesTo m.text m.tokens := by
  intro rest ls hr h
  have hv := lexes_mark (c := ':') (by decide) (hm.lexed rest ls hr h).spaced
  have hk := lexes_text m.key hv
  simpa [Member.text, Member.tokens] using hk

theorem member_visible {m : Member} (hm : m.reading.Holds) : Visible m.text :=
  visible_append (string_visible m.key)
    (visible_cons (by decide) (visible_cons (by decide) hm.visible))

theorem value_parsed {m : Member} (hm : m.reading.Holds) {fuel : Nat} {ls : List Lexeme}
    (hc : Closes ls) (hf : 8 * m.reading.tokens.length ≤ fuel) :
    value (fuel + 1) ⟨.text (Units.ofChars m.key), false⟩ (mark ':' :: (m.reading.tokens ++ ls)) =
      .ok (m.reading.expr, ls) := by
  unfold value
  exact hm.parsed fuel ls hc hf

/-- Only one member of an object may be its parent. -/
def OneParent (ks : List Units) : Prop := ks.Pairwise fun j k => j = parentKey → k ≠ parentKey

theorem pairs_last {m : Member} {fuel : Nat} {ls rest : List Lexeme} {hasParent : Bool}
    (hp : Units.ofChars m.key = parentKey → hasParent = false)
    (hv : value fuel ⟨.text (Units.ofChars m.key), false⟩ ls =
      .ok (m.reading.expr, mark '\x7d' :: rest)) :
    pairs (fuel + 1) hasParent (⟨.text (Units.ofChars m.key), false⟩ :: ls) =
      .ok ([m.expr], rest) := by
  have hn : (decide (Units.ofChars m.key = parentKey) && hasParent) = false := by
    simpa [Bool.and_eq_false_iff] using fun h => hp h
  unfold pairs
  simp only [Lexeme.isMark, Token.key?, reduceCtorEq, decide_false, Bool.false_eq_true, ↓reduceIte]
  simp only [hv, bind, Except.bind, hn, Bool.false_eq_true, ↓reduceIte]
  rfl

theorem pairs_more {m : Member} {fuel : Nat} {ls rest ls' : List Lexeme} {hasParent : Bool}
    {ms : List (Units × Expr)}
    (hp : Units.ofChars m.key = parentKey → hasParent = false)
    (hv : value fuel ⟨.text (Units.ofChars m.key), false⟩ ls =
      .ok (m.reading.expr, mark ',' :: rest))
    (hs : pairs fuel (hasParent || Units.ofChars m.key = parentKey) rest = .ok (ms, ls')) :
    pairs (fuel + 1) hasParent (⟨.text (Units.ofChars m.key), false⟩ :: ls) =
      .ok (m.expr :: ms, ls') := by
  have hn : (decide (Units.ofChars m.key = parentKey) && hasParent) = false := by
    simpa [Bool.and_eq_false_iff] using fun h => hp h
  unfold pairs
  simp only [Lexeme.isMark, Token.key?, reduceCtorEq, decide_false, Bool.false_eq_true, ↓reduceIte]
  simp only [hv, bind, Except.bind, hn, Bool.false_eq_true, ↓reduceIte]
  change (pairs fuel (hasParent || Units.ofChars m.key = parentKey) rest >>= _) = _
  rw [hs]
  rfl

/-- Members are parsed one after the other up to the closing brace. -/
theorem pairs_parsed {m : Member} {ms : List Member} (hm : ∀ x ∈ m :: ms, x.reading.Holds)
    {hasParent : Bool} (hk : OneParent ((m :: ms).map fun x => Units.ofChars x.key))
    (hp : ∀ x ∈ m :: ms, Units.ofChars x.key = parentKey → hasParent = false)
    {fuel : Nat} {ls : List Lexeme}
    (hf : 8 * (m.tokens ++ moreTokens (ms.map Member.tokens)).length < fuel) :
    pairs fuel hasParent (m.tokens ++ (moreTokens (ms.map Member.tokens) ++ mark '\x7d' :: ls)) =
      .ok ((m :: ms).map Member.expr, ls) := by
  induction ms generalizing m fuel hasParent with
  | nil =>
    have h := hm m List.mem_cons_self
    rw [List.length_append, Member.tokens, List.length_cons, List.length_cons] at hf
    obtain ⟨fuel, rfl⟩ : ∃ k, fuel = k + 1 + 1 := ⟨fuel - 2, by omega⟩
    exact pairs_last (hp m List.mem_cons_self)
      (value_parsed h (closes_more [] (.inr rfl) ls) (by omega))
  | cons n ms ih =>
    have h := hm m List.mem_cons_self
    rw [List.map_cons, moreTokens_cons, List.length_append, List.length_cons, Member.tokens,
      List.length_cons, List.length_cons] at hf
    obtain ⟨fuel, rfl⟩ : ∃ k, fuel = k + 1 + 1 := ⟨fuel - 2, by omega⟩
    rw [OneParent, List.map_cons, List.pairwise_cons] at hk
    have hv := value_parsed h (closes_more ((n :: ms).map Member.tokens) (.inr rfl) ls)
      (show _ ≤ fuel by omega)
    rw [List.map_cons, moreTokens_cons, List.cons_append, List.append_assoc] at hv ⊢
    refine pairs_more (hp m List.mem_cons_self) hv ?_
    refine ih (fun x hx => hm x (List.mem_cons_of_mem _ hx)) hk.2 ?_ (by omega)
    intro x hx he
    have hne : Units.ofChars m.key ≠ parentKey := fun ha =>
      hk.1 _ (List.mem_map_of_mem hx) ha he
    rw [hp x (List.mem_cons_of_mem _ hx) he]
    simpa using hne

def objectReading (depth : Nat) (ms : List Member) : Reading where
  text := Json.bracketed .literal depth '\x7b' '\x7d' (ms.map Member.text)
  tokens := bracketedTokens '\x7b' '\x7d' (ms.map Member.tokens)
  expr := .object (ms.map Member.expr)

theorem primary_object {ms : List Member} (hm : ∀ m ∈ ms, m.reading.Holds)
    (hk : OneParent (ms.map fun m => Units.ofChars m.key)) {fuel : Nat} {ls : List Lexeme}
    (hf : 8 * (bracketedTokens '\x7b' '\x7d' (ms.map Member.tokens)).length < fuel + 8) :
    primary (fuel + 1) (bracketedTokens '\x7b' '\x7d' (ms.map Member.tokens) ++ ls) =
      .ok (.object (ms.map Member.expr), ls) := by
  have hp : ∀ {ts : List Lexeme} {es : List (Units × Expr)}, pairs fuel false ts = .ok (es, ls) →
      primary (fuel + 1) (mark '\x7b' :: ts) = .ok (.object es, ls) := by
    intro ts es h
    unfold primary
    change (pairs fuel false ts).map _ = _
    rw [h]
    rfl
  cases ms with
  | nil =>
    apply hp
    obtain ⟨k, rfl⟩ : ∃ k, fuel = k + 1 := ⟨fuel - 1, by simp [bracketedTokens] at hf; omega⟩
    unfold pairs
    rfl
  | cons m ms =>
    simp only [bracketedTokens, List.map_cons, List.cons_append, List.append_assoc,
      List.length_cons, List.length_append] at hf ⊢
    apply hp
    exact pairs_parsed hm hk (fun _ _ _ => rfl) (by rw [List.length_append]; omega)

theorem object_holds (depth : Nat) {ms : List Member} (hm : ∀ m ∈ ms, m.reading.Holds)
    (hk : OneParent (ms.map fun m => Units.ofChars m.key)) : (objectReading depth ms).Holds := by
  refine holds_bracketed (.inr rfl) ?_ ?_ fun fuel ls => primary_object hm hk
  · have hp : ∀ p ∈ ms.map fun m => (m.text, m.tokens), LexesTo p.1 p.2 := by
      simpa using fun m h => member_lexed (hm m h)
    simpa [Function.comp_def] using lexesTo_bracketed (.inr ⟨rfl, rfl⟩) hp depth
  · refine bracketed_visible (by decide) (by decide) depth ?_
    simpa using fun m h => member_visible (hm m h)

end Reckoner.Proofs.Literals
