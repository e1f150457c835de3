import Mathlib.Data.List.DropRight
import Mathlib.Data.List.TakeWhile
import Reckoner.Text.Blank

namespace Reckoner.Proofs.Trimming
open Text

variable {p q : Char → Bool} {cs : List Char} {c : Char}

theorem mem_dropWhile (h : c ∈ cs) : p c = true ∨ c ∈ cs.dropWhile p := by
  rw [← List.takeWhile_append_dropWhile (p := p) (l := cs)] at h
  exact (List.mem_append.mp h).imp_left List.mem_takeWhile_imp

theorem mem_trim (h : c ∈ cs) : p c = true ∨ c ∈ trim p cs := by
  rcases mem_dropWhile (p := p) h with hp | hm
  · exact .inl hp
  · rw [← List.mem_reverse] at hm
    exact (mem_dropWhile hm).imp_right List.mem_reverse.mpr

theorem mem_of_mem_trim (h : c ∈ trim p cs) : c ∈ cs := by
  have hr := (List.dropWhile_sublist p).subset (List.mem_reverse.mp h)
  exact (List.dropWhile_sublist p).subset (List.mem_reverse.mp hr)

theorem dropWhile_congr (h : ∀ c ∈ cs, p c = q c) : cs.dropWhile p = cs.dropWhile q := by
  induction cs with
  | nil => rfl
  | cons c cs ih =>
    have ht := ih fun d hd => h d (List.mem_cons_of_mem _ hd)
    rw [List.dropWhile_cons, List.dropWhile_cons, h c List.mem_cons_self, ht]

/-- Classes that agree on the characters of a text trim it alike. -/
theorem trim_congr (h : ∀ c ∈ cs, p c = q c) : trim p cs = trim q cs := by
  have hs : trimStart p cs = trimStart q cs := dropWhile_congr h
  have he : ∀ c ∈ (trimStart q cs).reverse, p c = q c := fun c hc =>
    h c ((List.dropWhile_sublist q).subset (List.mem_reverse.mp hc))
  rw [trim, trim, hs, trimEnd, trimEnd, dropWhile_congr he]

theorem trimStart_head {rest : List Char} (h : trimStart p cs = c :: rest) : p c = false := by
  have hp := List.head?_dropWhile_not p cs
  rw [show cs.dropWhile p = c :: rest from h] at hp
  simpa using hp

/-- Trimming the end of a text leaves a first character that is not trimmed. -/
theorem trimEnd_cons (hc : p c = false) (cs : List Char) :
    ∃ rest, trimEnd p (c :: cs) = c :: rest := by
  have hd : ∃ ds, ((c :: cs).reverse).dropWhile p = ds ++ [c] := by
    simp only [List.reverse_cons, List.dropWhile_append]
    split
    · exact ⟨[], by simp [hc]⟩
    · exact ⟨_, rfl⟩
  obtain ⟨ds, hd⟩ := hd
  exact ⟨ds.reverse, by rw [trimEnd, hd, List.reverse_append, List.reverse_singleton]; rfl⟩

/-- A trimmed text is empty or starts with a character that is not trimmed. -/
theorem trim_cases (p : Char → Bool) (cs : List Char) :
    trim p cs = [] ∨ ∃ c rest, trim p cs = c :: rest ∧ p c = false := by
  cases ht : trimStart p cs with
  | nil => exact .inl (by simp [trim, ht, trimEnd])
  | cons c ds =>
    have hc := trimStart_head ht
    obtain ⟨rest, hr⟩ := trimEnd_cons hc ds
    exact .inr ⟨c, rest, by rw [trim, ht, hr], hc⟩

/-- Nothing is left of a text that has no other characters than those that are trimmed. -/
theorem trim_eq_nil_iff : trim p cs = [] ↔ ∀ c ∈ cs, p c = true := by
  constructor
  · intro h c hc
    have hm := mem_trim (p := p) hc
    rw [h] at hm
    exact hm.resolve_right List.not_mem_nil
  · intro h
    rcases trim_cases p cs with he | ⟨c, rest, he, hc⟩
    · exact he
    · have hm : c ∈ cs := mem_of_mem_trim (he ▸ List.mem_cons_self)
      rw [h c hm] at hc
      cases hc

theorem trimStart_of_head (h : ∀ c, cs.head? = some c → p c = false) : trimStart p cs = cs := by
  cases cs with
  | nil => rfl
  | cons c cs => rw [trimStart, List.dropWhile_cons, h c rfl, if_neg Bool.false_ne_true]

/-- A text whose ends are not trimmed stays as it is. -/
theorem trim_of_ends (hs : ∀ c, cs.head? = some c → p c = false)
    (he : ∀ c, cs.reverse.head? = some c → p c = false) : trim p cs = cs := by
  have h := trimStart_of_head he
  rw [trimStart] at h
  rw [trim, trimStart_of_head hs, trimEnd, h, List.reverse_reverse]

theorem trim_none (h : ∀ c ∈ cs, p c = false) : trim p cs = cs :=
  trim_of_ends (fun c hc => h c (List.mem_of_head? hc))
    fun c hc => h c (List.mem_reverse.mp (List.mem_of_head? hc))

/-- A trimmed text does not end in a character that is trimmed. -/
theorem trim_getLast? (h : (trim p cs).getLast? = some c) : p c = false := by
  rw [trim, trimEnd, List.getLast?_reverse] at h
  cases hd : (trimStart p cs).reverse.dropWhile p with
  | nil =>
    rw [hd] at h
    cases h
  | cons d ds =>
    rw [hd] at h
    cases h
    exact trimStart_head hd

/-- What trimming takes off the end of a text. -/
theorem trimStart_append (p : Char → Bool) (cs : List Char) :
    ∃ trail, trimStart p cs = trim p cs ++ trail ∧ ∀ c ∈ trail, p c = true :=
  ⟨(trimStart p cs).rtakeWhile p, List.rdropWhile_append_rtakeWhile.symm,
    fun _ => List.mem_rtakeWhile_imp⟩

/-- A trimmed text keeps its characters when a part of the class is trimmed. -/
theorem trim_trim (hpq : ∀ c, q c = false → p c = false) : trim p (trim q cs) = trim q cs := by
  have hend : ∀ c, (trim q cs).reverse.head? = some c → p c = false := by
    intro c hc
    rw [List.head?_reverse] at hc
    exact hpq c (trim_getLast? hc)
  have hstart : ∀ c, (trim q cs).head? = some c → p c = false := by
    intro c hc
    rcases trim_cases q cs with he | ⟨d, rest, he, hd⟩
    · rw [he] at hc
      cases hc
    · rw [he] at hc
      cases hc
      exact hpq _ hd
  exact trim_of_ends hstart hend

end Reckoner.Proofs.Trimming
