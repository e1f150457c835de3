import Reckoner.Failure
import Reckoner.Text.Word

namespace Reckoner.Snippet

open Text

inductive Piece where
  /-- These letters in this case. -/
  | exact (cs : List Char)
  /-- These letters in any case. -/
  | anyCase (cs : List Char)
  /-- Any run of white space. -/
  | blanks
  /-- At least one white space character, and all that follow it. -/
  | someBlanks
  /-- No word character comes next. -/
  | wordEnd
  deriving DecidableEq, Repr

/-- Equality of letters whatever their case; dotless and dotted letters `i` are the same letter. -/
def sameLetter (a b : Char) : Bool :=
  a.toLower = b.toLower || (a.toLower = 'i' && (b = '\u0130' || b = '\u0131'))

/-- A text after letters of any case at its front. -/
def dropAnyCase : List Char → List Char → Option (List Char)
  | [], cs => some cs
  | _ :: _, [] => none
  | a :: as, c :: cs => if sameLetter a c then dropAnyCase as cs else none

def dropExact : List Char → List Char → Option (List Char)
  | [], cs => some cs
  | _ :: _, [] => none
  | a :: as, c :: cs => if a = c then dropExact as cs else none

def Piece.drop? : Piece → List Char → Option (List Char)
  | exact as, cs => dropExact as cs
  | anyCase as, cs => dropAnyCase as cs
  | blanks, cs => some (cs.dropWhile isBlank)
  | someBlanks, cs => if cs.head?.any isBlank then some (cs.dropWhile isBlank) else none
  | wordEnd, cs => if cs.head?.any isWord then none else some cs

/-- Whether the pieces stand one after the other at the front of a text. -/
def startWith : List Piece → List Char → Bool
  | [], _ => true
  | p :: ps, cs =>
    match p.drop? cs with
    | none => false
    | some rest => startWith ps rest

/-- A construct that snippets may not hold. -/
structure Construct where
  name : String
  pieces : List Piece
  deriving DecidableEq, Repr

namespace Construct

/-- A name in any case, white space and an opening parenthesis. -/
def calling (name : String) : Construct :=
  ⟨name ++ "(", [.anyCase name.toList, .blanks, .exact ['(']]⟩

/-- A whole word in its own case. -/
def word (name : String) : Construct := ⟨name, [.exact name.toList, .wordEnd]⟩

def newFunction : Construct :=
  ⟨"new Function(",
    [.anyCase "new".toList, .someBlanks, .anyCase "Function".toList, .blanks, .exact ['(']]⟩

def importing : Construct := ⟨"import", [.anyCase "import".toList, .someBlanks]⟩

def all : List Construct :=
  [calling "eval", newFunction, word "process", calling "require", importing, word "global",
   word "window", word "document", calling "fetch", word "XMLHttpRequest", word "WebSocket"]

/-- Whether a construct stands somewhere in a text; the flag tells of a word character before. -/
def occursAfter (k : Construct) : Bool → List Char → Bool
  | _, [] => false
  | inWord, c :: cs =>
    (!inWord && startWith k.pieces (c :: cs)) || k.occursAfter (isWord c) cs

def occursIn (k : Construct) (cs : List Char) : Bool := k.occursAfter false cs

end Construct

inductive Complaint where
  | empty
  | denied (k : Construct)
  deriving DecidableEq, Repr

def Complaint.message : Complaint → String
  | .empty => "Code cannot be empty"
  | .denied k => "Dangerous pattern detected: " ++ k.name

/-- What is wrong with a snippet; one without complaints is accepted. -/
def complaints (cs : List Char) : List Complaint :=
  if cs.all isBlank then [.empty]
  else (Construct.all.filter fun k => k.occursIn cs).map .denied

def isBlankByte (b : UInt8) : Bool := (9 ≤ b.toNat && b.toNat ≤ 13) || b.toNat == 32

def review (code : Value) : Except Failure (List Complaint) :=
  if code.truthy then
    match code with
    | .str s => .ok (complaints s.toList)
    | .bytes bs => if bs.all isBlankByte then .ok [.empty] else .error .patternOnBytes
    | v => .error (.noMember v.kind "strip")
  else .ok [.empty]

/-- What a review comes to: whether the snippet may run, and what is wrong with it. -/
structure Verdict where
  valid : Bool
  complaints : List Complaint
  deriving DecidableEq, Repr

/-- A snippet may run when nothing is wrong with it. -/
def verdict (code : Value) : Except Failure Verdict :=
  (review code).map fun cs => ⟨cs.isEmpty, cs⟩

end Reckoner.Snippet
