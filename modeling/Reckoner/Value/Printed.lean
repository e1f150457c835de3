import Reckoner.Number.Layout
import Reckoner.Number.Numeral
import Reckoner.Text.Quoted
import Reckoner.Value.Basic

namespace Reckoner.Value

def commaSeparated (ps : List (List Char)) : List Char := [',', ' '].intercalate ps

mutual

def shown : Value → List Char
  | .none => "None".toList
  | .bool b => if b then "True".toList else "False".toList
  | .int n => intText n
  | .float x => x.text .answer
  | .str s => Text.quoted s.toList
  | .bytes bs => Text.quotedBytes bs
  | .list xs => '[' :: (commaSeparated (shownAll xs) ++ [']'])
  | .tuple [x] => '(' :: (shown x ++ [',', ')'])
  | .tuple xs => '(' :: (commaSeparated (shownAll xs) ++ [')'])
  | .dict es => '\x7b' :: (commaSeparated (shownEntries es) ++ ['\x7d'])
  | .missing => "<object object>".toList
  | .helper h => "<function ".toList ++ h.name.toList ++ ['>']
  | .function => "<function>".toList
  | .set => "\x7b1\x7d".toList
  | .cyclic => "[[...]]".toList

def shownAll : List Value → List (List Char)
  | [] => []
  | x :: xs => shown x :: shownAll xs

def shownEntries : List (Value × Value) → List (List Char)
  | [] => []
  | (k, v) :: es => (shown k ++ ':' :: ' ' :: shown v) :: shownEntries es

end

/-- The text of a value: a text is itself, anything else its quoted text. -/
def text : Value → List Char
  | .str s => s.toList
  | v => shown v

mutual

/-- Whether a text can be written: no integer in it has more digits than an integer may have. -/
def hasText : Value → Bool
  | .int n => (decimalDigits n.natAbs).length ≤ Numeral.digitLimit
  | .list xs => haveTexts xs
  | .tuple xs => haveTexts xs
  | .dict es => entriesHaveTexts es
  | _ => true

def haveTexts : List Value → Bool
  | [] => true
  | x :: xs => hasText x && haveTexts xs

def entriesHaveTexts : List (Value × Value) → Bool
  | [] => true
  | (k, v) :: es => hasText k && hasText v && entriesHaveTexts es

end

theorem haveTexts_iff (vs : List Value) : haveTexts vs = true ↔ ∀ v ∈ vs, hasText v = true := by
  induction vs with
  | nil => simp [haveTexts]
  | cons v vs ih => simp [haveTexts, ih]

theorem entriesHaveTexts_iff (es : List (Value × Value)) :
    entriesHaveTexts es = true ↔ ∀ e ∈ es, hasText e.1 = true ∧ hasText e.2 = true := by
  induction es with
  | nil => simp [entriesHaveTexts]
  | cons e es ih => simp [entriesHaveTexts, ih, and_assoc]

end Reckoner.Value
