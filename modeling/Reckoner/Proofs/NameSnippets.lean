import Reckoner.Proofs.Scopes
import Reckoner.Proofs.Statements

namespace Reckoner.Proofs.NameSnippets
open Snippet Text Names Lexing Literals Scopes Statements

variable {x : List Char}

theorem sole_name (hk : isKeyword x = false) : Sole [⟨.name x, false⟩] (.name x) where
  read := expression_of_factor closes_nil
    (factor_of_primary (unaryOp?_name hk) closes_nil (primary_name hk 12 false []))
  unblocked := by
    rintro l ⟨⟩
    nofun

theorem lex_name (hn : IsName x) : lex x = [⟨.name x, false⟩] := by
  have h : Lexes (x ++ []) [⟨.name x, false⟩] :=
    lexes_name hn (fun c hc => by cases hc) lexes_nil
  rw [List.append_nil] at h
  exact h.lex_eq

/-- A name that is no keyword is a whole snippet. -/
theorem parse_name (hn : IsName x) (hk : isKeyword x = false) (w : Wrapping) :
    parse w x = .ok [.expr (.name x)] := by
  refine parse_sole ?_ w
  rw [lex_name hn]
  exact sole_name hk

variable {es : Entries}

/-- A name comes to what its field declares, or to what it means without declarations. -/
theorem answer_name (h : Payload es) (hn : IsName x) (hk : isKeyword x = false) :
    Language.standard.answer (.ofFields (String.ofList x) es .block) =
      match (held? es x).or (builtin? x) with
      | some g => .ok (.ofGuest g)
      | none => .error (Thrown.undefinedName x).message := by
  have hr : resolve (scopeOf es) x =
      match (held? es x).or (builtin? x) with
      | some g => .ok g
      | none => .error (.undefinedName x) := by
    rw [resolve, resolve?, get?_scopeOf h.distinct h.full]
    cases held? es x with
    | some g => rfl
    | none => cases builtin? x <;> rfl
  rw [Language.answer, h.read, String.toList_ofList, parse_name hn hk]
  refine (Language.run_expr h.entered (.name x)).trans ?_
  simp only [Language.standard, Wrapping.scope, eval, hr]
  cases (held? es x).or (builtin? x) <;> rfl

end Reckoner.Proofs.NameSnippets
