import Reckoner.Proofs.Descriptions
import Reckoner.Proofs.JsonValues
import Reckoner.Proofs.ShownTexts

namespace Reckoner.Proofs.FirstLines
open Text Trimming Descriptions JsonValues ShownTexts

variable {c : Char} {cs : List Char}

def OneLine (cs : List Char) : Prop := ∀ c ∈ cs, isLineEnd c = false

instance : DecidablePred OneLine := List.decidableBAll fun c => isLineEnd c = false

/-- Line ends are controls, or separators among the characters that are listed as unprintable. -/
theorem unprintable_of_lineEnd (h : isLineEnd c = true) : isPrintable c = false := by
  simp only [isLineEnd, Bool.or_eq_true, Bool.and_eq_true, decide_eq_true_eq, beq_iff_eq] at h
  obtain hn | hn | hn | hn :
      c.toNat < 32 ∨ c.toNat = 0x85 ∨ c.toNat = 0x2028 ∨ c.toNat = 0x2029 := by omega
  · simp [isPrintable, hn, show c.toNat < 128 by omega]
  all_goals
    rw [isPrintable, hn]
    decide +kernel

theorem oneLine_of_printable (h : Printable cs) : OneLine cs := by
  intro c hc
  cases hl : isLineEnd c with
  | false => rfl
  | true =>
    have hp := unprintable_of_lineEnd hl
    rw [h c hc] at hp
    cases hp

theorem firstLine_oneLine (cs : List Char) : OneLine (firstLine cs) := by
  intro c hc
  simpa using List.mem_takeWhile_imp hc

/-- What follows the first line of a text, after the white space in front. -/
inductive Ends (line : List Char) : List Char → Prop where
  /-- A line end that has more than white space behind it. -/
  | broken {c : Char} {rest : List Char} (hc : isLineEnd c = true)
    (hr : ∃ d ∈ rest, isBlank d = false) : Ends line (c :: rest)
  /-- Only white space, which the line does not end in. -/
  | last {after : List Char} (ha : ∀ c ∈ after, isBlank c = true)
    (hl : ∀ c, line.getLast? = some c → isBlank c = false) : Ends line after

/-- The first line of a trimmed text ends before its first line end, or with the trimmed text. -/
theorem firstLine_ends (cs : List Char) :
    ∃ after, trimStart isBlank cs = firstLine (strip cs) ++ after ∧
      Ends (firstLine (strip cs)) after := by
  obtain ⟨trail, hs, ht⟩ := trimStart_append isBlank cs
  have hsplit : firstLine (strip cs) ++ (strip cs).dropWhile (fun c => !isLineEnd c) = strip cs :=
    List.takeWhile_append_dropWhile
  have hlast : ∀ c, (strip cs).getLast? = some c → isBlank c = false := fun c => trim_getLast?
  rw [hs, show trim isBlank cs = strip cs from rfl]
  cases hd : (strip cs).dropWhile (fun c => !isLineEnd c) with
  | nil =>
    rw [hd, List.append_nil] at hsplit
    rw [hsplit]
    exact ⟨trail, rfl, .last ht hlast⟩
  | cons c rest =>
    have hc : isLineEnd c = true := by simpa using trimStart_head hd
    rw [hd] at hsplit
    refine ⟨c :: (rest ++ trail), ?_, .broken hc ?_⟩
    · rw [← List.cons_append, ← List.append_assoc, hsplit]
    · -- The trimmed text does not end in a line end, since that would be white space.
      cases hr : rest.getLast? with
      | none =>
        rw [List.getLast?_eq_none_iff.mp hr] at hsplit
        have hb := hlast c (by rw [← hsplit, List.getLast?_concat])
        rw [blank_of_lineEnd hc] at hb
        cases hb
      | some d =>
        have hm := List.mem_of_getLast? hr
        refine ⟨d, List.mem_append_left _ hm, hlast d ?_⟩
        rw [← hsplit, List.getLast?_append, List.getLast?_cons, hr]
        rfl

/-- A line that stands for a message, or for what is shown where the message is blank. -/
structure Tells (message shown line : List Char) : Prop where
  inhabited : line ≠ []
  unbroken : OneLine line
  /-- A message with something in it is told from there on, up to where its first line ends. Line
  ends in the white space behind the message are trimmed with it. -/
  told : (∃ c ∈ message, isBlank c = false) →
    ∃ after, trimStart isBlank message = line ++ after ∧ Ends line after
  quoted : (∀ c ∈ message, isBlank c = true) → line = shown

/-- A fault of a kind with a name of one line is shown on one line. -/
theorem shown_oneLine {f : Fault} (hn : OneLine f.kind.name.toList) : OneLine f.shown := by
  have hs : Printable ('(' :: (Value.commaSeparated (Value.shownAll f.args) ++ [')'])) :=
    enclosed_printable rfl rfl (shownAll_printable f.args)
  exact List.forall_mem_append.mpr ⟨hn, oneLine_of_printable hs⟩

theorem quoted_tells {m q : List Char} (hb : strip m = []) (hne : q ≠ []) (ho : OneLine q) :
    Tells m q q where
  inhabited := hne
  unbroken := ho
  told := by
    rintro ⟨c, hc, hv⟩
    rw [trim_eq_nil_iff.mp hb c hc] at hv
    cases hv
  quoted := fun _ => rfl

theorem firstLine_tells {m : List Char} (q : List Char) (hb : strip m ≠ []) :
    Tells m q (firstLine (strip m)) where
  inhabited := firstLine_strip hb
  unbroken := firstLine_oneLine _
  told := fun _ => firstLine_ends m
  quoted := fun h => absurd (trim_eq_nil_iff.mpr h) hb

theorem describe_tells {q : List Char} (m : List Char) (hne : q ≠ []) (ho : OneLine q) :
    Tells m q (Fault.describe m q) := by
  unfold Fault.describe
  by_cases hb : strip m = []
  · simp only [hb, List.isEmpty_nil, if_true]
    exact quoted_tells hb hne ho
  · simp only [List.isEmpty_iff, hb, if_false]
    exact firstLine_tells q hb

/-- White space before a line end stays, and what follows the line end is not told. -/
example :
    Fault.describe " \tTypeError: not a function \n    at <input>:40\n".toList [] =
      "TypeError: not a function ".toList := by decide +kernel

theorem mem_of_told {kind : FaultKind} {args : List Value} {v : Value}
    (hv : v ∈ Fault.told kind args) : v ∈ args := by
  unfold Fault.told at hv
  split at hv <;> grind

/-- A fault of a kind with a name of one line, raised with values that have JSON texts, can be
described; and whatever its message is, its own or a usual one, the description tells of it in one
line. -/
theorem fault_described {f : Fault} (hn : OneLine f.kind.name.toList)
    (ha : ∀ v ∈ f.args, JsonValue true v) :
    f.isDescribable = true ∧
    ∀ message, Tells message f.shown (Fault.describe message f.shown) := by
  have hargs : Value.haveTexts f.args = true :=
    (Value.haveTexts_iff f.args).mpr fun v hv => json_hasText (ha v hv)
  have htold : Value.haveTexts (Fault.told f.kind f.args) = true :=
    (Value.haveTexts_iff _).mpr fun v hv => json_hasText (ha v (mem_of_told hv))
  have hshown : f.shown ≠ [] := by simp [Fault.shown]
  refine ⟨?_, fun message => describe_tells message hshown (shown_oneLine hn)⟩
  simp [Fault.isDescribable, Fault.hasText, hargs, htold]

def blankFault : Fault := ⟨.runtime, [.str "\u2028\r\n "], none⟩

/-- A blank message is quoted, its line ends escaped. -/
theorem blank_described :
    OneLine blankFault.kind.name.toList ∧ (∀ v ∈ blankFault.args, JsonValue true v) ∧
    (blankFault.isDescribable = true ∧
      ∀ message, Tells message blankFault.shown (Fault.describe message blankFault.shown)) ∧
    blankFault.description = "RuntimeError('\\u2028\\r\\n ')".toList := by
  have hn : OneLine blankFault.kind.name.toList := by decide
  have ha : ∀ v ∈ blankFault.args, JsonValue true v := by
    intro v hv
    rw [List.mem_singleton.mp hv]
    exact .str _
  exact ⟨hn, ha, fault_described hn ha, by decide +kernel⟩

end Reckoner.Proofs.FirstLines
