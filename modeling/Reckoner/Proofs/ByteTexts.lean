import Mathlib.Data.List.TakeWhile
import Mathlib.Tactic.Common
import Reckoner.Text.Utf8

namespace Reckoner.Proofs.ByteTexts
open Text Utf8

/-- A well-formed sequence and its code point. -/
inductive Sequence : UInt8 → List UInt8 → Nat → Prop where
  | one (a : UInt8) (ha : a.toNat < 0x80) : Sequence a [] a.toNat
  | two (a b : UInt8) (ha : 0xC2 ≤ a.toNat) (hb : a.toNat < 0xE0) (h2 : follows a b = true) :
      Sequence a [b] ((a.toNat - 0xC0) * 64 + (b.toNat - 0x80))
  | three (a b c : UInt8) (ha : 0xE0 ≤ a.toNat) (hb : a.toNat < 0xF0) (h2 : follows a b = true)
      (h3 : isContinuation c = true) :
      Sequence a [b, c] (((a.toNat - 0xE0) * 64 + (b.toNat - 0x80)) * 64 + (c.toNat - 0x80))
  | four (a b c d : UInt8) (ha : 0xF0 ≤ a.toNat) (hb : a.toNat < 0xF5) (h2 : follows a b = true)
      (h3 : isContinuation c = true) (h4 : isContinuation d = true) :
      Sequence a [b, c, d] ((((a.toNat - 0xF0) * 64 + (b.toNat - 0x80)) * 64 +
        (c.toNat - 0x80)) * 64 + (d.toNat - 0x80))

theorem toNat_eq_iff {a : UInt8} {n : Nat} (hn : n < 256) : a = UInt8.ofNat n ↔ a.toNat = n := by
  rw [← UInt8.toNat_inj, UInt8.toNat_ofNat_of_lt' hn]

/-- The second bytes that a first byte leaves, by number. -/
theorem follows_iff (a b : UInt8) : follows a b = true ↔
    0x80 ≤ b.toNat ∧ b.toNat ≤ 0xBF ∧ (a.toNat = 0xE0 → 0xA0 ≤ b.toNat) ∧
      (a.toNat = 0xF0 → 0x90 ≤ b.toNat) ∧ (a.toNat = 0xED → b.toNat ≤ 0x9F) ∧
      (a.toNat = 0xF4 → b.toNat ≤ 0x8F) := by
  have h : ∀ n, n < 256 → (a = UInt8.ofNat n ↔ a.toNat = n) := fun n hn => toNat_eq_iff hn
  have h1 : a = 0xE0 ↔ a.toNat = 0xE0 := h 0xE0 (by omega)
  have h2 : a = 0xF0 ↔ a.toNat = 0xF0 := h 0xF0 (by omega)
  have h3 : a = 0xED ↔ a.toNat = 0xED := h 0xED (by omega)
  have h4 : a = 0xF4 ↔ a.toNat = 0xF4 := h 0xF4 (by omega)
  simp only [follows, h1, h2, h3, h4, Bool.and_eq_true, decide_eq_true_eq]
  split_ifs <;> omega

theorem isContinuation_iff (b : UInt8) :
    isContinuation b = true ↔ 0x80 ≤ b.toNat ∧ b.toNat ≤ 0xBF := by
  simp [isContinuation]

/-- A sequence goes on for as many bytes as are needed when the next one may follow the first and
the others are continuations. -/
theorem continued_eq_iff (a b : UInt8) (bs : List UInt8) (k : Nat) :
    continued a (b :: bs) (k + 1) = k + 1 ↔
      follows a b = true ∧ k ≤ bs.length ∧ ∀ c ∈ bs.take k, isContinuation c = true := by
  have hl := (List.takeWhile_sublist isContinuation (l := bs.take k)).length_le
  have ht := List.length_take_le k bs
  cases hf : follows a b with
  | false => simp [continued, hf]
  | true =>
    simp only [continued, hf, ↓reduceIte, true_and]
    constructor
    · intro h
      have he : ((bs.take k).takeWhile isContinuation).length = (bs.take k).length := by omega
      have hs := (List.takeWhile_sublist isContinuation).eq_of_length he
      refine ⟨by rw [List.length_take] at he; omega, ?_⟩
      exact List.takeWhile_eq_self_iff.mp hs
    · rintro ⟨hk, hc⟩
      rw [List.takeWhile_eq_self_iff.mpr hc, List.length_take]
      omega

theorem width?_iff (a : UInt8) (n : Nat) : width? a = some (n + 1) ↔
    (n = 0 ∧ a.toNat < 0x80) ∨ (n = 1 ∧ 0xC2 ≤ a.toNat ∧ a.toNat < 0xE0) ∨
      (n = 2 ∧ 0xE0 ≤ a.toNat ∧ a.toNat < 0xF0) ∨ (n = 3 ∧ 0xF0 ≤ a.toNat ∧ a.toNat < 0xF5) := by
  simp only [width?]
  split_ifs <;> simp <;> omega

theorem next_ok_iff {position : Nat} {a : UInt8} {rest : List UInt8} {c : Char} {n : Nat} :
    next position a rest = .ok (c, n) ↔ width? a = some (n + 1) ∧ continued a rest n = n ∧
      c = Char.ofNat (codePoint a (rest.take n)) := by
  have hw : ∀ w, width? a = some w → w ≠ 0 := by
    rintro w h rfl
    simp only [width?] at h
    split_ifs at h <;> simp at h
  unfold next
  cases h : width? a with
  | none => simp
  | some w =>
    have h0 := hw w h
    simp only [Option.some.injEq]
    split
    · next hg =>
      rw [hg, Except.ok.injEq, Prod.mk.injEq]
      constructor
      · rintro ⟨rfl, rfl⟩
        exact ⟨by omega, hg, rfl⟩
      · rintro ⟨rfl, -, rfl⟩
        exact ⟨rfl, by omega⟩
    · next hg =>
      constructor
      · intro he
        split at he <;> cases he
      · rintro ⟨rfl, he, -⟩
        exact absurd he hg

theorem Sequence.codePoint_eq {a : UInt8} {bs : List UInt8} {m : Nat} (h : Sequence a bs m) :
    codePoint a bs = m := by
  cases h <;> rfl

/-- A sequence is as long as its first byte announces, and the bytes after it go on. -/
theorem Sequence.continued {a : UInt8} {bs : List UInt8} {m : Nat} (h : Sequence a bs m)
    (rest : List UInt8) :
    width? a = some (bs.length + 1) ∧ continued a (bs ++ rest) bs.length = bs.length := by
  rw [width?_iff]
  cases h with
  | one ha => exact ⟨.inl ⟨rfl, ha⟩, rfl⟩
  | two b ha hb h2 =>
    refine ⟨.inr (.inl ⟨rfl, ha, hb⟩), ?_⟩
    exact (continued_eq_iff a b rest 0).mpr ⟨h2, Nat.zero_le _, by simp⟩
  | three b c ha hb h2 h3 =>
    refine ⟨.inr (.inr (.inl ⟨rfl, ha, hb⟩)), ?_⟩
    exact (continued_eq_iff a b (c :: rest) 1).mpr ⟨h2, by simp, by simpa using h3⟩
  | four b c d ha hb h2 h3 h4 =>
    refine ⟨.inr (.inr (.inr ⟨rfl, ha, hb⟩)), ?_⟩
    exact (continued_eq_iff a b (c :: d :: rest) 2).mpr ⟨h2, by simp, by simpa using ⟨h3, h4⟩⟩

/-- Where enough bytes go on, a sequence stands at the front. -/
theorem sequence_of_continued {a : UInt8} {rest : List UInt8} {n : Nat}
    (hw : width? a = some (n + 1)) (hc : Utf8.continued a rest n = n) :
    n ≤ rest.length ∧ ∃ m, Sequence a (rest.take n) m := by
  have hcons : ∀ k, n = k + 1 → ∃ b bs, rest = b :: bs ∧ follows a b = true ∧ k ≤ bs.length ∧
      ∀ c ∈ bs.take k, isContinuation c = true := by
    rintro k rfl
    cases rest with
    | nil => simp [Utf8.continued] at hc
    | cons b bs => exact ⟨b, bs, rfl, (continued_eq_iff a b bs k).mp hc⟩
  rcases (width?_iff a n).mp hw with ⟨rfl, ha⟩ | ⟨rfl, ha, hb⟩ | ⟨rfl, ha, hb⟩ | ⟨rfl, ha, hb⟩
  · exact ⟨Nat.zero_le _, _, .one a ha⟩
  · obtain ⟨b, bs, rfl, h2, -⟩ := hcons 0 rfl
    exact ⟨by simp, _, .two a b ha hb h2⟩
  · obtain ⟨b, bs, rfl, h2, hl, h3⟩ := hcons 1 rfl
    obtain ⟨c, bs, rfl⟩ := List.exists_cons_of_length_pos hl
    exact ⟨by simp, _, .three a b c ha hb h2 (h3 c (by simp))⟩
  · obtain ⟨b, bs, rfl, h2, hl, h3⟩ := hcons 2 rfl
    obtain ⟨c, bs, rfl⟩ := List.exists_cons_of_length_pos (show 0 < bs.length by omega)
    rw [List.length_cons] at hl
    obtain ⟨d, bs, rfl⟩ := List.exists_cons_of_length_pos (show 0 < bs.length by omega)
    exact ⟨by simp, _, .four a b c d ha hb h2 (h3 c (by simp)) (h3 d (by simp))⟩

theorem toNat_ofNat {m : Nat} (h : m < 0xD800 ∨ (0xDFFF < m ∧ m < 0x110000)) :
    (Char.ofNat m).toNat = m := by
  have hv : m.isValidChar := h
  rw [Char.ofNat, dif_pos hv]
  rfl

/-- The encoding of a character by its code point. -/
theorem utf8EncodeChar_eq {c : Char} {m : Nat} (hm : c.toNat = m) :
    String.utf8EncodeChar c =
      if m ≤ 0x7F then [.ofNat m]
      else if m ≤ 0x7FF then [.ofNat (m / 64 % 32 + 0xC0), .ofNat (m % 64 + 0x80)]
      else if m ≤ 0xFFFF then
        [.ofNat (m / 4096 % 16 + 0xE0), .ofNat (m / 64 % 64 + 0x80), .ofNat (m % 64 + 0x80)]
      else [.ofNat (m / 262144 % 8 + 0xF0), .ofNat (m / 4096 % 64 + 0x80),
        .ofNat (m / 64 % 64 + 0x80), .ofNat (m % 64 + 0x80)] := by
  subst m
  rfl

/-- A well-formed sequence is the encoding of its character. -/
theorem Sequence.encodes {a : UInt8} {bs : List UInt8} {m : Nat} (h : Sequence a bs m) :
    a :: bs = String.utf8EncodeChar (Char.ofNat m) := by
  cases h with
  | one ha =>
    rw [utf8EncodeChar_eq (toNat_ofNat (.inl (by omega))), if_pos (by omega),
      UInt8.ofNat_toNat]
  | two b ha hb h2 =>
    rw [follows_iff] at h2
    rw [utf8EncodeChar_eq (toNat_ofNat (.inl (by omega))), if_neg (by omega), if_pos (by omega)]
    simp only [List.cons.injEq, and_true]
    refine ⟨(toNat_eq_iff (by omega)).mpr (by omega), (toNat_eq_iff (by omega)).mpr (by omega)⟩
  | three b c ha hb h2 h3 =>
    rw [follows_iff] at h2
    rw [isContinuation_iff] at h3
    rw [utf8EncodeChar_eq (toNat_ofNat (by omega)), if_neg (by omega), if_neg (by omega),
      if_pos (by omega)]
    simp only [List.cons.injEq, and_true]
    refine ⟨(toNat_eq_iff (by omega)).mpr (by omega), (toNat_eq_iff (by omega)).mpr (by omega),
      (toNat_eq_iff (by omega)).mpr (by omega)⟩
  | four b c d ha hb h2 h3 h4 =>
    rw [follows_iff] at h2
    rw [isContinuation_iff] at h3 h4
    rw [utf8EncodeChar_eq (toNat_ofNat (by omega)), if_neg (by omega), if_neg (by omega),
      if_neg (by omega)]
    simp only [List.cons.injEq, and_true]
    refine ⟨(toNat_eq_iff (by omega)).mpr (by omega), (toNat_eq_iff (by omega)).mpr (by omega),
      (toNat_eq_iff (by omega)).mpr (by omega), (toNat_eq_iff (by omega)).mpr (by omega)⟩

theorem toNat_ofNat_byte {n : Nat} (hn : n < 256) : (UInt8.ofNat n).toNat = n :=
  UInt8.toNat_ofNat_of_lt' hn

/-- The encoding of a character is a well-formed sequence. -/
theorem sequence_encode (c : Char) :
    ∃ a bs, String.utf8EncodeChar c = a :: bs ∧ Sequence a bs c.toNat := by
  have hv : c.toNat < 0xD800 ∨ (0xDFFF < c.toNat ∧ c.toNat < 0x110000) := c.valid
  rw [utf8EncodeChar_eq rfl]
  generalize c.toNat = m at hv
  split_ifs with h1 h2 h3
  · refine ⟨_, _, rfl, ?_⟩
    have hs := Sequence.one (.ofNat m) (by rw [toNat_ofNat_byte] <;> omega)
    rwa [toNat_ofNat_byte (by omega)] at hs
  · refine ⟨_, _, rfl, ?_⟩
    have ha := toNat_ofNat_byte (show m / 64 % 32 + 0xC0 < 256 by omega)
    have hb := toNat_ofNat_byte (show m % 64 + 0x80 < 256 by omega)
    have hs := Sequence.two (.ofNat (m / 64 % 32 + 0xC0)) (.ofNat (m % 64 + 0x80))
      (by omega) (by omega) (by rw [follows_iff]; omega)
    have he : (m / 64 % 32 + 0xC0 - 0xC0) * 64 + (m % 64 + 0x80 - 0x80) = m := by omega
    rwa [ha, hb, he] at hs
  · refine ⟨_, _, rfl, ?_⟩
    have ha := toNat_ofNat_byte (show m / 4096 % 16 + 0xE0 < 256 by omega)
    have hb := toNat_ofNat_byte (show m / 64 % 64 + 0x80 < 256 by omega)
    have hc := toNat_ofNat_byte (show m % 64 + 0x80 < 256 by omega)
    have hs := Sequence.three (.ofNat (m / 4096 % 16 + 0xE0)) (.ofNat (m / 64 % 64 + 0x80))
      (.ofNat (m % 64 + 0x80)) (by omega) (by omega) (by rw [follows_iff]; omega)
      (by rw [isContinuation_iff]; omega)
    have he : ((m / 4096 % 16 + 0xE0 - 0xE0) * 64 + (m / 64 % 64 + 0x80 - 0x80)) * 64 +
        (m % 64 + 0x80 - 0x80) = m := by omega
    rwa [ha, hb, hc, he] at hs
  · refine ⟨_, _, rfl, ?_⟩
    have ha := toNat_ofNat_byte (show m / 262144 % 8 + 0xF0 < 256 by omega)
    have hb := toNat_ofNat_byte (show m / 4096 % 64 + 0x80 < 256 by omega)
    have hc := toNat_ofNat_byte (show m / 64 % 64 + 0x80 < 256 by omega)
    have hd := toNat_ofNat_byte (show m % 64 + 0x80 < 256 by omega)
    have hs := Sequence.four (.ofNat (m / 262144 % 8 + 0xF0)) (.ofNat (m / 4096 % 64 + 0x80))
      (.ofNat (m / 64 % 64 + 0x80)) (.ofNat (m % 64 + 0x80)) (by omega) (by omega)
      (by rw [follows_iff]; omega) (by rw [isContinuation_iff]; omega)
      (by rw [isContinuation_iff]; omega)
    have he : (((m / 262144 % 8 + 0xF0 - 0xF0) * 64 + (m / 4096 % 64 + 0x80 - 0x80)) * 64 +
        (m / 64 % 64 + 0x80 - 0x80)) * 64 + (m % 64 + 0x80 - 0x80) = m := by omega
    rwa [ha, hb, hc, hd, he] at hs

theorem decodeFrom_encode (position : Nat) (cs : List Char) :
    decodeFrom position (cs.flatMap String.utf8EncodeChar) = .ok cs := by
  induction cs generalizing position with
  | nil => rw [List.flatMap_nil, decodeFrom]
  | cons c cs ih =>
    obtain ⟨a, bs, he, hs⟩ := sequence_encode c
    obtain ⟨hw, hc⟩ := hs.continued (cs.flatMap String.utf8EncodeChar)
    have hn : next position a (bs ++ cs.flatMap String.utf8EncodeChar) = .ok (c, bs.length) := by
      rw [next_ok_iff]
      refine ⟨hw, hc, ?_⟩
      rw [List.take_left, hs.codePoint_eq, Char.ofNat_toNat]
    rw [List.flatMap_cons, he, List.cons_append, decodeFrom, hn]
    dsimp only
    rw [List.drop_left, ih]
    rfl

theorem encode_of_decodeFrom {position : Nat} {bs : List UInt8} {cs : List Char}
    (h : decodeFrom position bs = .ok cs) : bs = cs.flatMap String.utf8EncodeChar := by
  induction position, bs using decodeFrom.induct generalizing cs with
  | case1 position =>
    rw [decodeFrom] at h
    cases h
    rfl
  | case2 position b bs e he =>
    rw [decodeFrom, he] at h
    cases h
  | case3 position b bs c n hn ih =>
    rw [decodeFrom, hn] at h
    dsimp only at h
    cases hd : decodeFrom (position + n + 1) (bs.drop n) with
    | error e =>
      rw [hd] at h
      cases h
    | ok ds =>
      rw [hd] at h
      cases h
      obtain ⟨hw, hc, rfl⟩ := next_ok_iff.mp hn
      obtain ⟨hl, m, hs⟩ := sequence_of_continued hw hc
      rw [List.flatMap_cons, ← ih hd, hs.codePoint_eq, ← hs.encodes, List.cons_append,
        List.take_append_drop]

/-- Bytes are read as a text exactly when they are its encoding. -/
theorem decode_ok_iff {bs : List UInt8} {cs : List Char} :
    decode bs = .ok cs ↔ bs = cs.flatMap String.utf8EncodeChar := by
  constructor
  · exact encode_of_decodeFrom
  · rintro rfl
    exact decodeFrom_encode 0 cs

end Reckoner.Proofs.ByteTexts
