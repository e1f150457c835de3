import Reckoner.Proofs.Languages
import Reckoner.Proofs.Likeness
import Reckoner.Proofs.NameSnippets

namespace Reckoner.Proofs.Relevance
open Session Snippet Text Names Execution Constants Denotations Languages Scopes NameSnippets
open Timely Likeness Statements

/-- Whether a name stands in a snippet, as it is read in one of its wrappings. -/
def Mentions (code : String) (n : List Char) : Prop :=
  ∃ w ss, parse w code.toList = .ok ss ∧ n ∈ ss.flatMap statementNames

section Runs

variable {L : Language} {Alike : List (List Char) → L.World → L.World → Prop}
  (hL : Lexical L Alike)
include hL

/-- Statements cannot tell worlds apart that are alike for their names. -/
theorem statements_matched {w : Wrapping} {ns : List (List Char)} {ss : List Statement}
    (hn : ∀ n ∈ ss.flatMap statementNames, n ∈ ns)
    (hv : evaluatorName ∉ ss.flatMap statementNames) {s s' : L.World} (h : Alike ns s s') :
    Matched (Alike ns) (L.statements w ss s) (L.statements w ss s') := by
  induction ss generalizing s s' with
  | nil =>
    cases w with
    | block => exact .ok h
    | function => exact .ok (hL.blanked h)
  | cons st ss ih =>
    rw [List.flatMap_cons, List.mem_append, not_or] at hv
    rw [List.flatMap_cons, List.forall_mem_append] at hn
    cases st with
    | expr e =>
      have hm := hL.evaluated w h hn.1 hv.1
      rw [Language.statements, Language.statements]
      revert hm
      generalize L.evaluate w e s = r
      generalize L.evaluate w e s' = r'
      intro hm
      cases hm with
      | error m => exact .error m
      | ok h => exact ih hn.2 hv.2 h
    | result e =>
      cases e with
      | none => exact .ok (hL.blanked h)
      | some e => exact hL.evaluated w h hn.1 hv.1

/-- And so they come to the same. -/
theorem run_same {w : Wrapping} {ds ds' : List (List Char × Expr)} {ss : List Statement}
    (hv : evaluatorName ∉ ss.flatMap statementNames)
    (h : Matched (Alike (ss.flatMap statementNames)) (L.enter ds) (L.enter ds')) :
    L.run w ds ss = L.run w ds' ss := by
  unfold Language.run
  revert h
  generalize L.enter ds = r
  generalize L.enter ds' = r'
  intro h
  cases h with
  | error m => rfl
  | ok h =>
    have hm := statements_matched hL (w := w) (fun n hn => hn) hv h
    dsimp only
    revert hm
    generalize L.statements w ss _ = q
    generalize L.statements w ss _ = q'
    intro hm
    cases hm with
    | error m => rfl
    | ok h => exact congrArg Except.ok (hL.given h)

/-- Declarations that are the same for some names make worlds that are alike for these. -/
theorem enter_matched {ns : List (List Char)} {ds ds' : List (List Char × Expr)}
    (hd : Literals ds) (hd' : Literals ds')
    (h : (ds.filter fun d => ns.contains d.1).Perm (ds'.filter fun d => ns.contains d.1)) :
    Matched (Alike ns) (L.enter ds) (L.enter ds') := by
  have hkept : Matched (Alike ns) (L.enter (ds.filter fun d => ns.contains d.1))
      (L.enter (ds'.filter fun d => ns.contains d.1)) := hL.reordered (hd.filter _) h
  have hdropped : Matched (Alike ns) (L.enter (ds'.filter fun d => ns.contains d.1))
      (L.enter ds') := Matched.symm hL.symm (hL.dropped hd')
  have hfirst : Matched (Alike ns) (L.enter ds) (L.enter (ds'.filter fun d => ns.contains d.1)) :=
    Matched.trans hL.trans (hL.dropped hd) hkept
  exact Matched.trans hL.trans hfirst hdropped

end Runs

/-- Payloads with the same fields under the names that a snippet mentions. -/
def SameMentioned (code : String) (es fs : Entries) : Prop :=
  ∀ n, Mentions code n → es.field? (String.ofList n) = fs.field? (String.ofList n)

variable {L : Language} {Alike : List (List Char) → L.World → L.World → Prop} {code : String}
  {es fs : Entries}

/-- Fields that are the same under some names declare the same constants of these. -/
theorem constants_perm (he : Payload es) (hf : Payload fs) {ns : List (List Char)}
    (h : ∀ n ∈ ns, es.field? (String.ofList n) = fs.field? (String.ofList n)) :
    ((constantsOf es).filter fun d => ns.contains d.1).Perm
      ((constantsOf fs).filter fun d => ns.contains d.1) := by
  have hn := (he.literals.filter fun d => ns.contains d.1).distinct.of_map
  have hn' := (hf.literals.filter fun d => ns.contains d.1).distinct.of_map
  refine (List.perm_ext_iff_of_nodup hn hn').mpr ?_
  rintro ⟨n, x⟩
  rw [List.mem_filter, List.mem_filter, he.mem_constantsOf, hf.mem_constantsOf]
  refine and_congr_left fun hm => ?_
  rw [h n (List.contains_iff_mem.mp hm)]

section Payloads

variable (hL : Lexical L Alike) (he : Payload es) (hf : Payload fs) (h : SameMentioned code es fs)
  (hv : ¬ Mentions code evaluatorName)
include hL he hf h hv

theorem answer_same (w : Wrapping) :
    L.answer (.ofFields code es w) = L.answer (.ofFields code fs w) := by
  rw [Language.answer, Language.answer, he.read, hf.read]
  cases hp : parse w code.toList with
  | error m => rfl
  | ok ss =>
    refine run_same hL (fun hm => hv ⟨w, ss, hp, hm⟩) ?_
    refine enter_matched hL he.literals hf.literals (constants_perm he hf fun n hn => ?_)
    exact h n ⟨w, ss, hp, hn⟩

omit hL h hv in
/-- Two such programs are started or not by their snippet alone. -/
theorem starts_same (code : String) (w : Wrapping) :
    starts (.ofFields code es w) = starts (.ofFields code fs w) := by
  have ht : (Program.ofFields code es w).text.contains '\x00' =
      (Program.ofFields code fs w).text.contains '\x00' := by
    rw [Bool.eq_iff_iff, List.contains_iff_mem, List.contains_iff_mem, he.whole_iff, hf.whole_iff]
  rw [starts, starts, ht, he.read, hf.read]
  cases parse w code.toList <;> rfl

theorem ofProgram_same (w : Wrapping) {before before' : List Program}
    (hb : before.any starts = before'.any starts) :
    Reply.ofProgram L before (.ofFields code es w) =
      Reply.ofProgram L before' (.ofFields code fs w) := by
  by_cases ht : '\x00' ∈ code.toList
  · rw [ofProgram_null ((he.whole_iff code w).mpr ht),
      ofProgram_null ((hf.whole_iff code w).mpr ht)]
  have hte := mt (he.whole_iff code w).mp ht
  have htf := mt (hf.whole_iff code w).mp ht
  have hs := starts_same he hf code w
  cases hx : starts (.ofFields code es w) && before.any starts with
  | true =>
    rw [ofProgram_redeclared hte hx, ofProgram_redeclared htf (by rw [← hs, ← hb, hx])]
  | false =>
    rw [ofProgram_answer hte hx, ofProgram_answer htf (by rw [← hs, ← hb, hx]),
      answer_same hL he hf h hv]

theorem sameReply : SameReply L code es code fs := by
  intro n m
  have hs := starts_same he hf code .block
  rw [speaking_reply, speaking_reply, ofProgram_same hL he hf h hv .block rfl,
    ofProgram_same hL he hf h hv .function]
  rw [List.any_cons, List.any_cons, hs]

end Payloads

theorem check_payload (h : Payload es) (code : String) :
    check (.str code) (.dict es) =
      match complaints code.toList with
      | [] => .ok (code, es)
      | cs => .error (", ".intercalate (cs.map Complaint.message)) := by
  have hn : (es.map Prod.fst).filter isHelperName = [] := by
    rw [List.filter_eq_nil_iff]
    intro k hk
    obtain ⟨e, he, rfl⟩ := List.mem_map.mp hk
    simp [h.helperless e he]
  cases hc : complaints code.toList with
  | nil => simp only [check, hc, hn]
  | cons c cs => simp only [check, hc]

theorem alike (hL : Lexical L Alike) (he : Payload es) (hf : Payload fs)
    (h : SameMentioned code es fs) (hv : ¬ Mentions code evaluatorName) :
    Likeness.Alike L (.str code) (.dict es) (.str code) (.dict fs) := by
  have hce := check_payload he code
  have hcf := check_payload hf code
  cases hc : complaints code.toList with
  | cons c cs =>
    rw [hc] at hce hcf
    exact .rejected _ hce hcf
  | nil =>
    rw [hc] at hce hcf
    exact .accepted _ _ _ _ hce hcf (sameReply hL he hf h hv)

def evaluation : Expr := .call (.name evaluatorName) [.text (Units.ofString "y")]

theorem evaluation_lexed : lex "(eval)('y')".toList =
    [⟨.mark '(', false⟩, ⟨.name evaluatorName, false⟩, ⟨.mark ')', false⟩, ⟨.mark '(', false⟩,
      ⟨.text (Units.ofString "y"), false⟩, ⟨.mark ')', false⟩] := by
  decide +kernel

theorem evaluation_parsed (w : Wrapping) :
    parse w "(eval)('y')".toList = .ok [.expr evaluation] := by
  have hx : parseExpr "(eval)('y')".toList = .ok evaluation := by
    rw [parseExpr, evaluation_lexed]
    rfl
  refine parse_sole (sole_of_parseExpr hx ?_) w
  rw [evaluation_lexed]
  rintro l ⟨⟩
  simp

/-- The text is evaluated in the scope of the fields. -/
theorem evaluation_answer {es : Entries} (h : Payload es)
    (hn : (scopeOf es).get? evaluatorName = none) :
    Language.standard.answer (.ofFields "(eval)('y')" es .block) =
      match resolve (scopeOf es) "y".toList with
      | .error t => .error t.message
      | .ok g => .ok (.ofGuest g) := by
  have hy : parseText (Units.toChars (Units.ofString "y")) = .ok [.expr (.name "y".toList)] := by
    rfl
  have he : eval (scopeOf es) evaluation = resolve (scopeOf es) "y".toList := by
    rw [evaluation, eval_direct hn hy]
    simp only [evalText, eval]
    cases resolve (scopeOf es) "y".toList <;> rfl
  rw [Language.answer, h.read, evaluation_parsed]
  refine (Language.run_expr h.entered evaluation).trans ?_
  simp only [Language.standard, Wrapping.scope, he]
  cases resolve (scopeOf es) "y".toList <;> rfl

theorem evaluation_reply {es : Entries} (h : Payload es)
    (hn : (scopeOf es).get? evaluatorName = none) {answer : Except String Given}
    (ha : (match resolve (scopeOf es) "y".toList with
      | .error t => .error t.message
      | .ok g => .ok (.ofGuest g)) = answer)
    (hq : wantsFunction (.ofAnswer answer) = false) (n : Nat) :
    (evaluate .interpreter n "(eval)('y')" es).1 = .ofAnswer answer := by
  have ht : '\x00' ∉ (Program.ofFields "(eval)('y')" es .block).text :=
    mt (h.whole_iff _ .block).mp (by decide +kernel)
  have hb : Reply.ofProgram .standard [] (.ofFields "(eval)('y')" es .block) =
      .ofAnswer answer := by
    rw [ofProgram_answer ht (by simp), evaluation_answer h hn, ha]
  rw [Engine.interpreter, speaking_reply, hb, hq, cond_false]

end Reckoner.Proofs.Relevance
