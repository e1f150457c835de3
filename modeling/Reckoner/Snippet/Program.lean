import Reckoner.Snippet.Denylist
import Reckoner.Snippet.Prelude
import Reckoner.Snippet.Wrapping

namespace Reckoner.Snippet

/-- A snippet and what is declared in front of it. -/
structure Program where
  declarations : List Declaration
  code : String
  wrapping : Wrapping
  deriving DecidableEq, Repr

namespace Program

def body (p : Program) : List Char :=
  let inner := p.wrapping.around p.code
  let inner :=
    if p.declarations.isEmpty then inner
    else lines (p.declarations.map Declaration.text) ++ '\n' :: inner
  "\x7b\n".toList ++ inner ++ "\n\x7d".toList

def text (p : Program) : List Char := Prelude.text ++ p.body

def ofFields (code : String) (es : Entries) (w : Wrapping) : Program :=
  ⟨declarationsOf es, code, w⟩

def compose (code : String) (data : Value) (w : Wrapping) : Except Failure Program :=
  (fields data).map fun es => ofFields code es w

end Program

def clashText (names : List Value) : String :=
  ", ".intercalate (names.map fun n => "'" ++ String.ofList n.text ++ "'")

/-- A snippet and its fields, or why they are rejected before anything runs. -/
def check (code data : Value) : Except String (String × Entries) :=
  match code with
  | .none => .error Complaint.empty.message
  | .str s =>
    match complaints s.toList with
    | [] =>
      match data with
      | .none => .ok (s, [])
      | .dict es =>
        match (es.map Prod.fst).filter isHelperName with
        | [] => .ok (s, es)
        | names => .error s!"data field {clashText names} is reserved for a helper function"
      | _ => .error "data must be an object"
    | cs => .error (", ".intercalate (cs.map Complaint.message))
  | _ => .error "code must be a string"

end Reckoner.Snippet
