import Reckoner.Proofs.BareSnippets
import Reckoner.Proofs.Languages
import Reckoner.Proofs.Likeness

namespace Reckoner.Proofs.Completion
open Session Snippet Text Acceptance BareSnippets Evaluations Execution Languages Likeness Lexing
open Results Scopes Statements Timely

/-- A token that is a mark is the character that it was read at. -/
theorem mark_of_tokenAt {fuel : Nat} {c d : Char} {rest rest' : List Char}
    (h : tokenAt fuel c rest = .ok (.mark d, rest')) : d = c := by
  have hname : ∀ {a : Char} {escaped : Bool} {ds : List Char},
      nameToken a escaped ds ≠ (.mark d, rest') := by
    intro a escaped ds he
    unfold nameToken at he
    dsimp only at he
    split at he <;> cases he
  unfold tokenAt at h
  split at h
  · obtain ⟨p, -, hp⟩ := ok_of_map h
    cases hp
  split at h
  · unfold numberToken at h
    split at h
    · cases h
    · split at h <;> cases h
  split at h
  · exact absurd (Except.ok.inj h) hname
  split at h
  · unfold hiddenToken at h
    dsimp only at h
    split at h <;> cases h
  split at h
  · cases h
  split at h
  · cases h
  split at h
  · split at h
    · exact absurd (Except.ok.inj h) hname
    · cases h
      rfl
  · cases h
    rfl

/-- A snippet that is an expression on the line that it starts on, and does not start like a
block. -/
structure Inline (code : String) (x : Expr) : Prop where
  parsed : parseExpr code.toList = .ok x
  unblocked : ∀ l, (lex code.toList).head? = some l → l.token ≠ .mark '\x7b'
  unbroken : ∀ l, (lex code.toList).head? = some l → l.broken = false

variable {L : Language} {x : Expr} {code : String} {es : Entries}

/-- An expression that starts with no space, no slash and no brace is on its line. -/
theorem inline_of_front {c : Char} {rest : List Char} (hp : parseExpr code.toList = .ok x)
    (hc : code.toList = c :: rest) (hs : Solid c) (hb : c ≠ '\x7b') : Inline code x := by
  have hl : ∀ l, (lex code.toList).head? = some l → l.token ≠ .mark '\x7b' ∧ l.broken = false := by
    intro l hl
    rw [hc] at hl
    unfold lex lexFrom at hl
    rw [afterSpace_solid hs] at hl
    cases ht : tokenAt ((c :: rest).length + 1) c rest with
    | error m =>
      simp only [ht] at hl
      cases hl
      exact ⟨Token.noConfusion, rfl⟩
    | ok p =>
      obtain ⟨t, rest'⟩ := p
      simp only [ht] at hl
      cases hl
      refine ⟨?_, rfl⟩
      rintro rfl
      exact hb (mark_of_tokenAt ht).symm
  exact ⟨hp, fun l h => (hl l h).1, fun l h => (hl l h).2⟩

theorem Inline.sole (h : Inline code x) : Sole (lex code.toList) x :=
  sole_of_parseExpr h.parsed h.unblocked

theorem Inline.parse (h : Inline code x) (w : Wrapping) :
    parse w code.toList = .ok [.expr x] := parse_sole h.sole w

theorem Inline.parse_return (h : Inline code x) :
    Snippet.parse .function ("return " ++ code).toList = .ok [.result (some x)] := by
  rw [String.toList_append]
  exact parse_return_function h.sole h.unbroken

section Answers

variable (hL : Uniform L) (ha : argumentsName ∉ namesIn x) (hv : evaluatorName ∉ namesIn x)
include hL ha hv

/-- A function that returns an expression comes to what a block of it comes to. -/
theorem run_return (ds : List (List Char × Expr)) :
    L.run .function ds [.result (some x)] = L.run .block ds [.expr x] := by
  cases hd : L.enter ds with
  | error m => simp only [Language.run, hd]
  | ok s => rw [Language.run_result hd, Language.run_expr hd, hL x s ha hv]

theorem answer_return (h : Inline code x) (es : Entries) :
    L.answer (.ofFields ("return " ++ code) es .function) =
      L.answer (.ofFields code es .block) := by
  simp only [Language.answer, Program.read, Program.ofFields, h.parse_return, h.parse]
  cases readDeclarations [] (declarationsOf es) with
  | error m => rfl
  | ok ds => exact run_return hL ha hv ds

end Answers

/-- The block of a return is refused. -/
theorem read_return_block {ds : List (List Char × Expr)}
    (hd : readDeclarations [] (declarationsOf es) = .ok ds) (code : String) :
    (Program.ofFields ("return " ++ code) es .block).read = .error .returnOutside := by
  have hp : Snippet.parse .block ("return " ++ code).toList = .error .returnOutside := by
    rw [String.toList_append]
    exact parse_return_block _
  simp only [Program.read, Program.ofFields, hd, hp, Except.map]

theorem whole_return (code : String) (es : Entries) (w w' : Wrapping) :
    '\x00' ∈ (Program.ofFields ("return " ++ code) es w).text ↔
      '\x00' ∈ (Program.ofFields code es w').text := by
  have hn : '\x00' ∉ "return ".toList := by decide
  rw [text_whole_iff, text_whole_iff, String.toList_append, List.mem_append]
  exact or_congr Iff.rfl ⟨fun hm => hm.resolve_left hn, .inr⟩

theorem outside_refuses :
    RefusesReturn (.raised (.thrown (Thrown.malformed .returnOutside).message)) :=
  (wantsFunction_iff _).mp (by decide +kernel)

section Replies

variable (ht : '\x00' ∉ (Program.ofFields code es .block).text)
include ht

/-- A return is evaluated as a function, in an interpreter that has run nothing. -/
theorem reply_return {ds : List (List Char × Expr)}
    (hd : readDeclarations [] (declarationsOf es) = .ok ds) (n : Nat) :
    (evaluate (.speaking L) n ("return " ++ code) es).1 =
      .ofAnswer (L.answer (.ofFields ("return " ++ code) es .function)) := by
  have hr := read_return_block hd code
  have hs := starts_of_malformed hr
  have hb : Reply.ofProgram L [] (.ofFields ("return " ++ code) es .block) =
      .raised (.thrown (Thrown.malformed .returnOutside).message) := by
    rw [ofProgram_answer (mt (whole_return code es .block .block).mp ht) (by simp),
      Language.answer, hr]
    rfl
  rw [speaking_reply, hb, (wantsFunction_iff _).mpr outside_refuses, cond_true]
  refine ofProgram_answer (mt (whole_return code es .function .block).mp ht) ?_
  rw [List.any_cons, hs, List.any_nil, Bool.or_false, Bool.and_false]

omit ht in
/-- A snippet that is not refused as a return is evaluated once. -/
theorem reply_once (hq : ¬ RefusesReturn (.ofProgram L [] (.ofFields code es .block))) (n : Nat) :
    (evaluate (.speaking L) n code es).1 = .ofProgram L [] (.ofFields code es .block) := by
  rw [speaking_reply, Bool.eq_false_iff.mpr (mt (wantsFunction_iff _).mp hq), cond_false]

/-- An expression that is refused as a return when it was run cannot be run again. -/
theorem reply_again {ds : List (List Char × Expr)} (h : Inline code x)
    (hd : readDeclarations [] (declarationsOf es) = .ok ds)
    (hq : RefusesReturn (.ofProgram L [] (.ofFields code es .block))) (n : Nat) :
    (evaluate (.speaking L) n code es).1 =
      .raised (.thrown (Thrown.redeclared Helper.avg.name.toList).message) := by
  have ht' : '\x00' ∉ (Program.ofFields code es .function).text := by
    rwa [text_whole_iff, ← text_whole_iff code es .block]
  rw [speaking_reply, (wantsFunction_iff _).mpr hq, cond_true]
  have hr : ∀ w, (Program.ofFields code es w).read = .ok (ds, [.expr x]) := by
    intro w
    simp only [Program.read, Program.ofFields, hd, h.parse, Except.map]
  refine ofProgram_redeclared ht' ?_
  rw [List.any_cons, starts_of_read ht (hr .block), starts_of_read ht' (hr .function)]
  rfl

end Replies

/-- No error that a snippet raises with its data sounds like the refusal of a return. -/
def Quiet (L : Language) (code : String) (data : Value) : Prop :=
  ∀ es, check (.str code) data = .ok (code, es) →
    ¬ RefusesReturn (.ofProgram L [] (.ofFields code es .block))

/-- The interpreter replies to an expression as it does to its return. -/
theorem sameReply_return (hL : Uniform L) (ha : argumentsName ∉ namesIn x)
    (hv : evaluatorName ∉ namesIn x) (h : Inline code x)
    (hq : ¬ RefusesReturn (.ofProgram L [] (.ofFields code es .block))) :
    SameReply L ("return " ++ code) es code es := by
  intro n m
  rw [reply_once hq]
  by_cases ht : '\x00' ∈ (Program.ofFields code es .block).text
  · -- Whatever the form, the program has a null character.
    have hb := (whole_return code es .block .block).mpr ht
    have hf := (whole_return code es .function .block).mpr ht
    rw [speaking_reply, ofProgram_null ht, ofProgram_null hb, ofProgram_null hf, Bool.cond_self]
  · have hb := mt (whole_return code es .block .block).mp ht
    rw [ofProgram_answer ht (by simp)]
    cases hd : readDeclarations [] (declarationsOf es) with
    | ok ds => rw [reply_return ht hd, answer_return hL ha hv h]
    | error m =>
      -- No program is evaluated when its declarations are refused.
      have hr : ∀ s w, (Program.ofFields s es w).read = .error m := by
        intro s w
        simp only [Program.read, Program.ofFields, hd]
      have hsame : Reply.ofProgram L [] (.ofFields ("return " ++ code) es .block) =
          .ofProgram L [] (.ofFields code es .block) := by
        rw [ofProgram_answer hb (by simp), ofProgram_answer ht (by simp), Language.answer,
          Language.answer, hr, hr]
      rw [reply_once (by rwa [hsame]), hsame, ofProgram_answer ht (by simp)]

/-- Texts about which there are the same complaints are checked alike. -/
theorem check_congr {s t : String} (h : complaints s.toList = complaints t.toList) (data : Value) :
    check (.str s) data = (check (.str t) data).map fun p => (s, p.2) := by
  unfold check
  dsimp only
  rw [h]
  cases complaints t.toList with
  | cons c cs => rfl
  | nil =>
    cases data with
    | dict es => cases hn : (es.map Prod.fst).filter isHelperName <;> simp [hn, Except.map]
    | _ => rfl

theorem alike_return (hL : Uniform L) (ha : argumentsName ∉ namesIn x)
    (hv : evaluatorName ∉ namesIn x) (h : Inline code x) {data : Value} (hq : Quiet L code data) :
    Alike L (.str ("return " ++ code)) data (.str code) data := by
  have hc : complaints ("return " ++ code).toList = complaints code.toList := by
    rw [String.toList_append]
    exact complaints_return h.sole
  have hm := check_congr hc data
  cases hk : check (.str code) data with
  | error m =>
    rw [hk] at hm
    exact .rejected m hm hk
  | ok p =>
    obtain ⟨s, es⟩ := p
    obtain ⟨hs, -⟩ := (check_ok_iff _ _ _ _).mp hk
    cases hs
    rw [hk] at hm
    exact .accepted _ _ _ _ hm hk (sameReply_return hL ha hv h (hq es hk))

def mean : Expr := .call (.name "avg".toList) [.array [.number (.ofInt 1), .number (.ofInt 2)]]

/-- An expression that does not come to the same when it is returned. -/
def Differs (code : String) : Prop :=
  (∃ x, parseExpr code.toList = .ok x) ∧
    ∃ o o', (execute .default .interpreter stillHost (.str ("return " ++ code)) .none).outcome =
        .ok o ∧
      (execute .default .interpreter stillHost (.str code) .none).outcome = .ok o' ∧
      (o.value ≠ o'.value ∨ o.error? ≠ o'.error?)

section Differences

variable {g g' : Guest} (hn : '\x00' ∉ code.toList) (hx : parseExpr code.toList = .ok x)
  (hc : complaints code.toList = []) (hc' : complaints ("return " ++ code).toList = [])
include hn hx hc hc'

/-- The values of a function and a block that are not the same when they are handed over. -/
theorem differs_of_values {v v' : Value}
    (hf : Language.standard.answer (.ofFields ("return " ++ code) [] .function) =
      .ok (.ofGuest g))
    (hb : Language.standard.answer (.ofFields code [] .block) = .ok (.ofGuest g'))
    (hv : (Reply.ofGiven (.ofGuest g)).result = .ok v)
    (hv' : (Reply.ofGiven (.ofGuest g')).result = .ok v') (hne : v ≠ v') : Differs code := by
  have hret : ∀ n, (evaluate .interpreter n ("return " ++ code) []).1 =
      .ofGiven (.ofGuest g) := by
    intro n
    rw [Engine.interpreter, reply_return (bare_whole hn .block) rfl, hf]
    rfl
  obtain ⟨t, ht⟩ := bare_value hc' hret hv
  obtain ⟨t', ht'⟩ := bare_value hc (bare_reply hn hb) hv'
  exact ⟨⟨x, hx⟩, _, _, ht, ht', .inl hne⟩

/-- An expression that is one text in a function and another in a block. -/
theorem differs_of_texts (hi : Inline code x) {s u : String}
    (hv : eval (Wrapping.function.scope []) x = .ok (.ofString s))
    (hv' : eval [] x = .ok (.ofString u))
    (hne : Given.cutText (Units.ofString s) ≠ Given.cutText (Units.ofString u)) :
    Differs code := by
  have hf := bare_function hi.parse_return
  have hb := bare_block (hi.parse .block)
  rw [hv] at hf
  rw [hv'] at hb
  exact differs_of_values hn hx hc hc' hf hb rfl rfl (mt Value.str.inj hne)

end Differences

/-- A line that ends before an expression ends its return as well. -/
theorem broken_differs : Differs "/*\n*/true" := by
  have hl : lex "/*\n*/true".toList = [⟨.name "true".toList, true⟩] := by decide +kernel
  have hx : parseExpr "/*\n*/true".toList = .ok (.bool true) := by
    rw [parseExpr, hl]
    rfl
  have hs := sole_of_parseExpr hx (by rw [hl]; rintro l ⟨⟩; exact Token.noConfusion)
  have hp : Snippet.parse .function ("return " ++ "/*\n*/true").toList =
      .ok [.result none, .expr (.bool true)] := by
    rw [String.toList_append]
    exact parse_return_broken hs (by rw [hl]; rintro l ⟨⟩; rfl)
  have hb := bare_block (parse_sole hs .block)
  rw [eval] at hb
  exact differs_of_values (by decide +kernel) hx (by decide +kernel) (by decide +kernel)
    (g := .undefined) ((bare_answer hp).trans rfl) hb rfl rfl Value.noConfusion

/-- A brace opens a block as the first token of a statement, and an object after a return. -/
theorem block_differs : Differs "/**/\x7b\x7d" := by
  have hl : lex "/**/\x7b\x7d".toList = [⟨.mark '\x7b', false⟩, ⟨.mark '\x7d', false⟩] := by
    decide +kernel
  have hx : parseExpr "/**/\x7b\x7d".toList = .ok (.object []) := by
    rw [parseExpr, hl]
    rfl
  have hp : Snippet.parse .block "/**/\x7b\x7d".toList = .ok [] := by
    rw [Snippet.parse, hl]
    rfl
  have hp' : Snippet.parse .function ("return " ++ "/**/\x7b\x7d").toList =
      .ok [.result (some (.object []))] := by
    rw [String.toList_append, Snippet.parse, lex_return, hl]
    rfl
  have hf := bare_function hp'
  rw [eval, evalMembers] at hf
  have hb : Language.standard.answer (.ofFields "/**/\x7b\x7d" [] .block) =
      .ok (.ofGuest .undefined) := (bare_answer hp).trans rfl
  have hv : (Reply.ofGiven (.ofGuest (objectOf []))).result = .ok (.dict []) := rfl
  exact differs_of_values (by decide +kernel) hx (by decide +kernel) (by decide +kernel) hf hb hv
    rfl Value.noConfusion

/-- A function has arguments, and a block has none. -/
theorem arguments_differ : Differs "typeof arguments" := by
  have hl : lex "typeof arguments".toList =
      [⟨.name "typeof".toList, false⟩, ⟨.name argumentsName, false⟩] := by
    decide +kernel
  have hx : parseExpr "typeof arguments".toList = .ok (.unary .typeOf (.name argumentsName)) := by
    rw [parseExpr, hl]
    rfl
  have hi := inline_of_front hx rfl ⟨rfl, by decide⟩ (by decide)
  refine differs_of_texts (by decide +kernel) hx (by decide +kernel) (by decide +kernel) hi
    (s := "object") (u := "undefined") ?_ ?_ (by decide +kernel)
  · rw [eval]
    rfl
  · rw [eval]
    rfl

/-- A text that is evaluated sees the arguments as well. -/
theorem evaluated_arguments_differ : Differs "(eval)('typeof arguments')" := by
  have hl : lex "(eval)('typeof arguments')".toList =
      [⟨.mark '(', false⟩, ⟨.name evaluatorName, false⟩, ⟨.mark ')', false⟩, ⟨.mark '(', false⟩,
        ⟨.text (Units.ofString "typeof arguments"), false⟩, ⟨.mark ')', false⟩] := by
    decide +kernel
  have hx : parseExpr "(eval)('typeof arguments')".toList =
      .ok (.call (.name evaluatorName) [.text (Units.ofString "typeof arguments")]) := by
    rw [parseExpr, hl]
    rfl
  have hi := inline_of_front hx rfl ⟨rfl, by decide⟩ (by decide)
  have hlt : lex "typeof arguments".toList =
      [⟨.name "typeof".toList, false⟩, ⟨.name argumentsName, false⟩] := by
    decide +kernel
  have ht : parseText (Units.toChars (Units.ofString "typeof arguments")) =
      .ok [.expr (.unary .typeOf (.name argumentsName))] := by
    rw [show Units.toChars (Units.ofString "typeof arguments") = "typeof arguments".toList by
      decide +kernel, parseText, hlt]
    rfl
  refine differs_of_texts (by decide +kernel) hx (by decide +kernel) (by decide +kernel) hi
    (s := "object") (u := "undefined") ?_ ?_ (by decide +kernel)
  · rw [eval_direct rfl ht]
    simp only [evalText, eval]
    rfl
  · rw [eval_direct rfl ht]
    simp only [evalText, eval]
    rfl

/-- An error with the words of a refused return makes an interpreter start a second program. -/
theorem words_differ : Differs "null['return not in a function']" := by
  have hl : lex "null['return not in a function']".toList =
      [⟨.name "null".toList, false⟩, ⟨.mark '[', false⟩,
        ⟨.text (Units.ofString "return not in a function"), false⟩, ⟨.mark ']', false⟩] := by
    decide +kernel
  have hx : parseExpr "null['return not in a function']".toList =
      .ok (.index .null (.text (Units.ofString "return not in a function"))) := by
    rw [parseExpr, hl]
    rfl
  have hi := inline_of_front hx rfl ⟨rfl, by decide⟩ (by decide)
  have hw : ∀ w, '\x00' ∉ (Program.ofFields "null['return not in a function']" [] w).text :=
    bare_whole (by decide +kernel)
  have hthrown : ∀ sc, eval sc (.index .null (.text (Units.ofString "return not in a function"))) =
      .error (.noMembers (Units.ofString "return not in a function") true) := by
    intro sc
    rw [eval, eval, eval]
    rfl
  have hret : ∀ n, (evaluate .interpreter n ("return " ++ "null['return not in a function']")
      []).1 = .raised (.thrown
        (Thrown.noMembers (Units.ofString "return not in a function") true).message) := by
    intro n
    rw [Engine.interpreter, reply_return (hw .block) rfl, bare_function hi.parse_return, hthrown]
    rfl
  have hq : RefusesReturn (.ofProgram .standard []
      (.ofFields "null['return not in a function']" [] .block)) := by
    rw [ofProgram_answer (hw .block) (by simp), bare_block (hi.parse .block), hthrown]
    exact (wantsFunction_iff _).mp (by decide +kernel)
  obtain ⟨t, ht⟩ := bare_thrown (by decide +kernel) hret
    (d := "TypeError: cannot read property 'return not in a function' of null") (by decide +kernel)
  obtain ⟨t', ht'⟩ := bare_thrown (by decide +kernel) (reply_again (hw .block) hi rfl hq)
    (d := "SyntaxError: redeclaration of 'avg'") (by decide +kernel)
  refine ⟨⟨_, hx⟩, _, _, ht, ht', .inr ?_⟩
  exact mt Option.some.inj (by decide +kernel)

end Reckoner.Proofs.Completion
