import Reckoner.Proofs.Constants

namespace Reckoner.Proofs.Languages
open Snippet Text Names Denotations Constants

mutual

def namesIn : Expr → List (List Char)
  | .name cs => [cs]
  | .array es => namesAmong es
  | .object ms => namesOfMembers ms
  | .member e _ => namesIn e
  | .index e k => namesIn e ++ namesIn k
  | .call f args => namesIn f ++ namesAmong args
  | .unary _ e => namesIn e
  | .binary _ a b => namesIn a ++ namesIn b
  | _ => []

def namesAmong : List Expr → List (List Char)
  | [] => []
  | e :: es => namesIn e ++ namesAmong es

def namesOfMembers : List (Units × Expr) → List (List Char)
  | [] => []
  | (_, e) :: ms => namesIn e ++ namesOfMembers ms

end

def statementNames : Statement → List (List Char)
  | .expr e => namesIn e
  | .result none => []
  | .result (some e) => namesIn e

/-- The name of the function that evaluates a text. -/
def evaluatorName : List Char := "eval".toList

def argumentsName : List Char := "arguments".toList

/-- Results that are the same error, or worlds that are alike. -/
inductive Matched {α : Type} (Alike : α → α → Prop) : Except String α → Except String α → Prop where
  | error (m : String) : Matched Alike (.error m) (.error m)
  | ok {s s' : α} (h : Alike s s') : Matched Alike (.ok s) (.ok s')

namespace Matched

variable {α : Type} {R : α → α → Prop} {r r' r'' : Except String α}

theorem symm (hs : ∀ {a b}, R a b → R b a) (h : Matched R r r') : Matched R r' r := by
  cases h with
  | error m => exact .error m
  | ok h => exact .ok (hs h)

theorem trans (ht : ∀ {a b c}, R a b → R b c → R a c) (h : Matched R r r')
    (h' : Matched R r' r'') : Matched R r r'' := by
  cases h with
  | error m =>
    cases h'
    exact .error m
  | ok h =>
    cases h' with
    | ok h' => exact .ok (ht h h')

end Matched

/-- A language whose expressions read constants at their names only. Worlds are alike for some names
when nothing that is written with these can tell them apart. -/
structure Lexical (L : Language) (Alike : List (List Char) → L.World → L.World → Prop) : Prop where
  symm {ns : List (List Char)} {s s' : L.World} : Alike ns s s' → Alike ns s' s
  trans {ns : List (List Char)} {s s' s'' : L.World} :
    Alike ns s s' → Alike ns s' s'' → Alike ns s s''
  /-- Constants of other names might as well not be declared. -/
  dropped {ns : List (List Char)} {ds : List (List Char × Expr)} : Literals ds →
    Matched (Alike ns) (L.enter ds) (L.enter (ds.filter fun d => ns.contains d.1))
  /-- Literals have no effect on each other. -/
  reordered {ns : List (List Char)} {ds ds' : List (List Char × Expr)} : Literals ds →
    ds.Perm ds' → Matched (Alike ns) (L.enter ds) (L.enter ds')
  /-- An expression cannot tell worlds apart that are alike for its names, unless it evaluates a
  text, in which further names may stand. -/
  evaluated {ns : List (List Char)} {s s' : L.World} (w : Wrapping) {e : Expr} : Alike ns s s' →
    (∀ n ∈ namesIn e, n ∈ ns) → evaluatorName ∉ namesIn e →
    Matched (Alike ns) (L.evaluate w e s) (L.evaluate w e s')
  blanked {ns : List (List Char)} {s s' : L.World} : Alike ns s s' →
    Alike ns (L.blank s) (L.blank s')
  given {ns : List (List Char)} {s s' : L.World} : Alike ns s s' → L.give s = L.give s'

/-- A language whose expressions mean the same in a function as in a block, as long as they do not
ask for its arguments. -/
def Uniform (L : Language) : Prop :=
  ∀ e s, argumentsName ∉ namesIn e → evaluatorName ∉ namesIn e →
    L.evaluate .function e s = L.evaluate .block e s

/-- Scopes that hold the same under some names. -/
def Agree (ns : List (List Char)) (sc sc' : Scope) : Prop := ∀ n ∈ ns, sc.get? n = sc'.get? n

variable {ms ns : List (List Char)} {sc sc' : Scope}

theorem Agree.left (h : Agree (ms ++ ns) sc sc') : Agree ms sc sc' := by
  intro n hn
  exact h n (List.mem_append_left _ hn)

theorem Agree.right (h : Agree (ms ++ ns) sc sc') : Agree ns sc sc' := by
  intro n hn
  exact h n (List.mem_append_right _ hn)

theorem resolve?_agree {n : List Char} (h : Agree [n] sc sc') : resolve? sc n = resolve? sc' n := by
  simp only [resolve?, h n List.mem_cons_self]

/-- A call that does not name the evaluator hands over no declared names. -/
theorem textScope_of_unnamed {e : Expr} (h : evaluatorName ∉ namesIn e) (sc : Scope) :
    textScope sc e = [] := by
  cases e with
  | name cs =>
    simp only [namesIn, List.mem_singleton] at h
    exact if_neg (Ne.symm h)
  | _ => rfl

mutual

/-- An expression reads its scope only at its names, unless it evaluates a text. -/
theorem eval_agree (e : Expr) (h : Agree (namesIn e) sc sc') (hv : evaluatorName ∉ namesIn e) :
    eval sc e = eval sc' e := by
  cases e with
  | name cs =>
    simp only [namesIn] at h
    simp only [eval, resolve, resolve?_agree h]
  | array es =>
    simp only [namesIn] at h hv
    simp only [eval, evalAll_agree es h hv]
  | object ms =>
    simp only [namesIn] at h hv
    simp only [eval, evalMembers_agree ms h hv]
  | member e key =>
    simp only [namesIn] at h hv
    simp only [eval, eval_agree e h hv]
  | index e k =>
    simp only [namesIn] at h
    simp only [namesIn, List.mem_append, not_or] at hv
    simp only [eval, eval_agree e h.left hv.1, eval_agree k h.right hv.2]
  | call f args =>
    simp only [namesIn] at h
    simp only [namesIn, List.mem_append, not_or] at hv
    simp only [eval, eval_agree f h.left hv.1, evalAll_agree args h.right hv.2,
      textScope_of_unnamed hv.1]
  | unary op e =>
    simp only [namesIn] at h hv
    have he := eval_agree e h hv
    -- The type of a name is asked for without reading the name, so this has a rule of its own.
    by_cases ht : op = .typeOf ∧ ∃ cs, e = .name cs
    · obtain ⟨ho, cs, hc⟩ := ht
      subst op e
      simp only [namesIn] at h
      simp only [eval, resolve?_agree h]
    · have hn : ∀ cs, op = .typeOf → e = .name cs → False := fun cs ho hc => ht ⟨ho, cs, hc⟩
      rw [eval, eval, he]
      · exact hn
      · exact hn
  | binary op a b =>
    simp only [namesIn] at h
    simp only [namesIn, List.mem_append, not_or] at hv
    simp only [eval, eval_agree a h.left hv.1, eval_agree b h.right hv.2]
  | _ => simp only [eval]

theorem evalAll_agree (es : List Expr) (h : Agree (namesAmong es) sc sc')
    (hv : evaluatorName ∉ namesAmong es) : evalAll sc es = evalAll sc' es := by
  cases es with
  | nil => simp only [evalAll]
  | cons e es =>
    simp only [namesAmong] at h
    simp only [namesAmong, List.mem_append, not_or] at hv
    simp only [evalAll, eval_agree e h.left hv.1, evalAll_agree es h.right hv.2]

theorem evalMembers_agree (ms : List (Units × Expr)) (h : Agree (namesOfMembers ms) sc sc')
    (hv : evaluatorName ∉ namesOfMembers ms) : evalMembers sc ms = evalMembers sc' ms := by
  cases ms with
  | nil => simp only [evalMembers]
  | cons m ms =>
    obtain ⟨k, e⟩ := m
    simp only [namesOfMembers] at h
    simp only [namesOfMembers, List.mem_append, not_or] at hv
    simp only [evalMembers, eval_agree e h.left hv.1, evalMembers_agree ms h.right hv.2]

end

/-- A call that names the evaluator runs its text in the scope of the call. -/
theorem eval_direct {u : Units} {ss : List Statement} (hn : sc.get? evaluatorName = none)
    (hp : parseText (Units.toChars u) = .ok ss) :
    eval sc (.call (.name evaluatorName) [.text u]) =
      @evalText ⟨runText 63⟩ sc .undefined ss := by
  have hr : resolve sc evaluatorName = .ok (.native .evaluator) := by
    rw [resolve, resolve?, hn]
    rfl
  have hs : textScope sc (.name evaluatorName) = sc := by simp [textScope, evaluatorName]
  have ht : runText nesting sc (Units.toChars u) = @evalText ⟨runText 63⟩ sc .undefined ss := by
    rw [nesting, runText, hp]
  rw [eval, eval, hr, evalAll, evalAll, eval, hs]
  exact ht

/-- The arguments of a function stand in front of what is declared, and change no other name. -/
theorem scope_agree (w : Wrapping) (h : Agree ns sc sc') : Agree ns (w.scope sc) (w.scope sc') := by
  intro n hn
  cases w with
  | block => exact h n hn
  | function => simp only [Wrapping.scope, Scope.get?, h n hn]

/-- Worlds with the same value, and constants that agree. -/
def SameWorld (ns : List (List Char)) (s s' : Scope × Guest) : Prop :=
  Agree ns s.1 s'.1 ∧ s.2 = s'.2

/-- The language of the expressions reads constants at their names. -/
theorem standard_lexical : Lexical .standard SameWorld where
  symm := fun h => ⟨fun n hn => (h.1 n hn).symm, h.2.symm⟩
  trans := fun h h' => ⟨fun n hn => (h.1 n hn).trans (h'.1 n hn), h.2.trans h'.2⟩
  dropped := by
    intro ns ds h
    simp only [enter_literals h, enter_literals (h.filter _)]
    refine .ok ⟨?_, rfl⟩
    intro n hn
    apply get?_valued_congr h.distinct (h.filter _).distinct
    intro e
    simp [List.mem_filter, hn]
  reordered := by
    intro ns ds ds' h hp
    simp only [enter_literals h, enter_literals (h.perm hp)]
    refine .ok ⟨?_, rfl⟩
    intro n hn
    apply get?_valued_congr h.distinct (h.perm hp).distinct
    intro e
    exact hp.mem_iff
  evaluated := by
    intro ns s s' w e h hn hv
    have hs : Agree (namesIn e) (w.scope s.1) (w.scope s'.1) := by
      apply scope_agree
      intro n hm
      exact h.1 n (hn n hm)
    simp only [Language.standard, eval_agree e hs hv]
    cases eval (w.scope s'.1) e with
    | error t => exact .error _
    | ok v => exact .ok ⟨h.1, rfl⟩
  blanked := fun h => ⟨h.1, rfl⟩
  given := fun h => congrArg Given.ofGuest h.2

theorem standard_uniform : Uniform .standard := by
  intro e s ha hv
  have hs : Agree (namesIn e) (Wrapping.function.scope s.1) (Wrapping.block.scope s.1) := by
    intro n hn
    have hne : argumentsName ≠ n := fun he => ha (he ▸ hn)
    exact if_neg hne
  simp only [Language.standard, eval_agree e hs hv]

end Reckoner.Proofs.Languages
