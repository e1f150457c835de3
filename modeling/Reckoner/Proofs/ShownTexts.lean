import Reckoner.Fault
import Reckoner.Proofs.Layouts

namespace Reckoner.Proofs.ShownTexts
open Text Spellings Layouts

/-- A text of characters that quotation leaves as they are. -/
def Printable (cs : List Char) : Prop := ∀ c ∈ cs, isPrintable c = true

variable {c : Char} {cs ds : List Char}

@[simp] theorem printable_nil : Printable [] := nofun

@[simp] theorem printable_cons :
    Printable (c :: cs) ↔ isPrintable c = true ∧ Printable cs := List.forall_mem_cons

@[simp] theorem printable_append :
    Printable (cs ++ ds) ↔ Printable cs ∧ Printable ds := List.forall_mem_append

instance : DecidablePred Printable := List.decidableBAll fun c => isPrintable c = true

theorem printable_of_ascii (hl : 32 ≤ c.toNat) (hh : c.toNat < 127) : isPrintable c = true := by
  simp [isPrintable, hl, hh, show c.toNat < 128 by omega]

theorem printable_of_isDigit (h : c.isDigit = true) : isPrintable c = true := by
  rw [Char.isDigit, Bool.and_eq_true, decide_eq_true_eq, decide_eq_true_eq] at h
  exact printable_of_ascii (Nat.le_trans (by decide) h.1) (Nat.lt_of_le_of_lt h.2 (by decide))

theorem intText_printable (n : Int) : Printable (intText n) := by
  intro c hc
  rcases Digits.intText_chars n c hc with hd | rfl
  · exact printable_of_isDigit hd
  · rfl

theorem spelling_printable {s : Spelling} (hs : s.Regular) : Printable s.text := by
  intro c hc
  rcases hs.text_chars c hc with hd | hm
  · exact printable_of_isDigit hd
  · have hmarks : Printable ['.', 'e', '-', '+'] := by decide
    exact hmarks c hm

theorem float_printable (x : Binary64) : Printable (x.text .answer) := by
  cases x with
  | nan => decide
  | inf negative => cases negative <;> decide
  | fin negative m =>
    rw [text_fin answer_faithful, printable_append]
    refine ⟨?_, spelling_printable (magnitudeSpelling_regular answer_faithful m.isLt)⟩
    rw [signText]
    split <;> decide

theorem hexText_printable (width n : Nat) : Printable (hexText width n) := by
  have hchar : ∀ d < 16, isPrintable (hexChar d) = true := by decide
  induction width generalizing n with
  | zero => exact printable_nil
  | succ width ih =>
    rw [hexText, printable_append, printable_cons]
    exact ⟨ih _, hchar _ (Nat.mod_lt _ (by omega)), printable_nil⟩

theorem escape_printable (hc : isPrintable c = true) (width n : Nat) :
    Printable ('\\' :: c :: hexText width n) :=
  printable_cons.mpr ⟨rfl, printable_cons.mpr ⟨hc, hexText_printable width n⟩⟩

/-- Escaped characters are printable, and no others are left as they are. -/
theorem quotedChar_printable {quote : Char} (hq : isPrintable quote = true) (c : Char) :
    Printable (quotedChar quote c) := by
  unfold quotedChar
  dsimp only
  split_ifs with _ _ _ _ _ hp
  · decide
  · exact printable_cons.mpr ⟨rfl, printable_cons.mpr ⟨hq, printable_nil⟩⟩
  · decide
  · decide
  · decide
  · exact printable_cons.mpr ⟨hp, printable_nil⟩
  · exact escape_printable rfl _ _
  · exact escape_printable rfl _ _
  · exact escape_printable rfl _ _

theorem quoteFor_printable (cs : List Char) : isPrintable (quoteFor cs) = true := by
  unfold quoteFor
  split <;> rfl

theorem flatMap_printable {α : Type} {f : α → List Char} (hf : ∀ x, Printable (f x)) (xs : List α) :
    Printable (xs.flatMap f) := by
  intro c hc
  obtain ⟨x, -, hx⟩ := List.mem_flatMap.mp hc
  exact hf x c hx

theorem quoted_printable (cs : List Char) : Printable (quoted cs) := by
  have hq := quoteFor_printable cs
  simp [quoted, hq, flatMap_printable (quotedChar_printable hq)]

theorem quotedByte_printable {quote : Char} (hq : isPrintable quote = true) (b : UInt8) :
    Printable (quotedByte quote b) := by
  unfold quotedByte
  dsimp only
  split
  · exact quotedChar_printable hq _
  · exact escape_printable rfl _ _

theorem quotedBytes_printable (bs : List UInt8) : Printable (quotedBytes bs) := by
  have hq := quoteFor_printable (bs.map fun b => Char.ofNat b.toNat)
  have hb : isPrintable 'b' = true := rfl
  simp [quotedBytes, hb, hq, flatMap_printable (quotedByte_printable hq)]

theorem commaSeparated_printable {ps : List (List Char)} (hp : ∀ p ∈ ps, Printable p) :
    Printable (Value.commaSeparated ps) := by
  induction ps with
  | nil => exact printable_nil
  | cons p ps ih =>
    obtain ⟨hfirst, hrest⟩ := List.forall_mem_cons.mp hp
    cases ps with
    | nil => simpa [Value.commaSeparated] using hfirst
    | cons q qs =>
      rw [Value.commaSeparated, List.intercalate_cons_of_ne_nil (by simp)]
      exact printable_append.mpr ⟨printable_append.mpr ⟨hfirst, by decide⟩, ih hrest⟩

/-- Pieces between brackets. -/
theorem enclosed_printable {left right : Char} (hl : isPrintable left = true)
    (hr : isPrintable right = true) {ps : List (List Char)} (hp : ∀ p ∈ ps, Printable p) :
    Printable (left :: (Value.commaSeparated ps ++ [right])) := by
  simp [hl, hr, commaSeparated_printable hp]

theorem single_printable (hv : Printable cs) : Printable ('(' :: (cs ++ [',', ')'])) :=
  printable_cons.mpr ⟨rfl, printable_append.mpr ⟨hv, by decide⟩⟩

theorem entry_printable (hk : Printable cs) (hv : Printable ds) :
    Printable (cs ++ ':' :: ' ' :: ds) :=
  printable_append.mpr ⟨hk, printable_cons.mpr ⟨rfl, printable_cons.mpr ⟨rfl, hv⟩⟩⟩

mutual

theorem shown_printable : (v : Value) → Printable v.shown
  | .none => by decide
  | .bool b => by cases b <;> decide
  | .int n => intText_printable n
  | .float x => float_printable x
  | .str s => quoted_printable s.toList
  | .bytes bs => quotedBytes_printable bs
  | .list vs => enclosed_printable rfl rfl (shownAll_printable vs)
  | .tuple [] => by decide
  | .tuple [v] => single_printable (shown_printable v)
  | .tuple (v :: w :: vs) => enclosed_printable rfl rfl (shownAll_printable (v :: w :: vs))
  | .dict es => enclosed_printable rfl rfl (shownEntries_printable es)
  | .missing => by decide
  | .helper h => by cases h <;> decide
  | .function => by decide
  | .set => by decide
  | .cyclic => by decide

theorem shownAll_printable : (vs : List Value) → ∀ cs ∈ Value.shownAll vs, Printable cs
  | [] => nofun
  | v :: vs => List.forall_mem_cons.mpr ⟨shown_printable v, shownAll_printable vs⟩

theorem shownEntries_printable :
    (es : List (Value × Value)) → ∀ cs ∈ Value.shownEntries es, Printable cs
  | [] => nofun
  | (k, v) :: es => List.forall_mem_cons.mpr
    ⟨entry_printable (shown_printable k) (shown_printable v), shownEntries_printable es⟩

end

end Reckoner.Proofs.ShownTexts
