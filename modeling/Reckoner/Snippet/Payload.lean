import Reckoner.Json.Writer
import Reckoner.Value.Members

namespace Reckoner.Snippet

/-- The words that no field may be named by. -/
def reservedWords : List String :=
  ["break", "case", "catch", "class", "const", "continue", "debugger", "default", "delete", "do",
   "else", "enum", "export", "extends", "false", "finally", "for", "function", "if", "import",
   "in", "instanceof", "new", "null", "return", "super", "switch", "this", "throw", "true", "try",
   "typeof", "var", "void", "while", "with", "yield", "let", "static", "implements", "interface",
   "package", "private", "protected", "public", "await", "arguments", "eval", "undefined", "NaN",
   "Infinity"]

def isNameStart (c : Char) : Bool := c.isAlpha || c == '_' || c == '$'

def isNamePart (c : Char) : Bool := isNameStart c || c.isDigit

/-- An identifier, after which one line feed may stand. -/
def isIdentifier : List Char → Bool
  | [] => false
  | c :: cs =>
    isNameStart c &&
      (let rest := cs.dropWhile isNamePart
       rest == [] || rest == ['\n'])

def isHelperName : Value → Bool
  | .str s => (Helper.ofName? s).isSome
  | _ => false

theorem isHelperName_iff (v : Value) : isHelperName v = true ↔ ∃ h : Helper, v = .str h.name := by
  constructor
  · intro hv
    cases v with
    | str s =>
      obtain ⟨h, hh⟩ := Option.isSome_iff_exists.mp hv
      exact ⟨h, by rw [Helper.name_of_ofName? hh]⟩
    | _ => simp [isHelperName] at hv
  · rintro ⟨h, rfl⟩
    simp [isHelperName, Helper.ofName?_name]

def bindable? : Value → Option String
  | .str s => if isIdentifier s.toList && !reservedWords.contains s then some s else none
  | _ => none

def literal? (v : Value) : Option (List Char) := (Json.write .literal v).toOption

/-- A constant and the literal it is declared with. -/
structure Declaration where
  name : String
  literal : List Char
  deriving DecidableEq, Repr

def Declaration.text (d : Declaration) : List Char :=
  "const ".toList ++ d.name.toList ++ " = ".toList ++ d.literal ++ [';']

def declaration? (field : Value × Value) : Option Declaration :=
  if isHelperName field.1 then none
  else
    match bindable? field.1 with
    | none => none
    | some name => (literal? field.2).map (⟨name, ·⟩)

def declarationsOf (es : Entries) : List Declaration := es.filterMap declaration?

def lines (ls : List (List Char)) : List Char := ['\n'].intercalate ls

/-- The fields of a payload; an empty value has none. -/
def fields (data : Value) : Except Failure Entries :=
  if data.truthy then data.entries "items" else .ok []

def reserved (data : Value) : Except Failure (List Value) :=
  if data.truthy then data.iterate.map (·.filter isHelperName) else .ok []

end Reckoner.Snippet
