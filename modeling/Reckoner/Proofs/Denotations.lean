import Reckoner.Proofs.Crossing
import Reckoner.Proofs.Layouts
import Reckoner.Proofs.Literals

namespace Reckoner.Proofs.Denotations
open Snippet Text Names Spellings Lexing Layouts Quoting Crossing Literals

/-- A scope that leaves the names of the special numbers alone. -/
structure Unshadowed (sc : Scope) : Prop where
  nan : sc.get? "NaN".toList = none
  infinity : sc.get? "Infinity".toList = none

/-- A number as it is written without a sign. -/
inductive Unsigned : Expr → Prop where
  | digits (x : Binary64) : Unsigned (.number x)
  | nan : Unsigned (.name "NaN".toList)
  | infinity : Unsigned (.name "Infinity".toList)

/-- What the literals of values are read as; no names stand in them but those of the special
numbers. -/
inductive Literal : Expr → Prop where
  | null : Literal .null
  | bool (b : Bool) : Literal (.bool b)
  | text (u : Units) : Literal (.text u)
  | positive {e : Expr} (h : Unsigned e) : Literal e
  | negative {e : Expr} (h : Unsigned e) : Literal (.unary .minus e)
  | array {es : List Expr} (elements : ∀ e ∈ es, Literal e) : Literal (.array es)
  | object {ms : List (Units × Expr)} (members : ∀ m ∈ ms, Literal m.2) : Literal (.object ms)

def Denotes (cs : List Char) (g : Guest) : Prop :=
  ∃ r : Reading, r.text = cs ∧ r.Holds ∧ Literal r.expr ∧
    ∀ sc, Unshadowed sc → eval sc r.expr = .ok g

theorem name_visible {cs : List Char} (hn : IsName cs) : Visible cs := by
  intro c hc
  have hp := hn.part hc
  rw [isNamePart, Bool.or_eq_true] at hp
  rcases hp with hs | hd
  · rcases nameStart_cases hs with ha | rfl | rfl
    · have := alpha_bounds ha
      omega
    · decide
    · decide
  · have := digit_bounds hd
    omega

theorem Denotes.visible {cs : List Char} {g : Guest} (h : Denotes cs g) : Visible cs := by
  obtain ⟨r, rfl, hr, -⟩ := h
  exact hr.visible

/-- What a literal denotes is the value of the expression that it is parsed as. -/
theorem Denotes.parsed {cs : List Char} {g : Guest} (h : Denotes cs g) :
    ∃ e, parseExpr cs = .ok e ∧ Literal e ∧ ∀ sc, Unshadowed sc → eval sc e = .ok g := by
  obtain ⟨r, rfl, hr, he⟩ := h
  refine ⟨r.expr, ?_, he⟩
  have hl : Lexes r.text r.tokens := by
    simpa using hr.lexed [] [] (fun c hc => by cases hc) lexes_nil
  have hp := hr.parsed (fuelFor r.tokens) [] closes_nil (by rw [fuelFor]; omega)
  rw [List.append_nil] at hp
  rw [parseExpr, hl.lex_eq, hp]
  rfl

/-- A name that stands for itself or for a word. -/
theorem name_denotes {cs : List Char} (hn : IsName cs) {e : Expr} {g : Guest}
    (ho : Token.unaryOp? (.name cs) = none)
    (hp : ∀ fuel ls, primary (fuel + 1) (⟨.name cs, false⟩ :: ls) = .ok (e, ls))
    (hl : Literal e) (he : ∀ sc, Unshadowed sc → eval sc e = .ok g) : Denotes cs g := by
  refine ⟨⟨cs, [⟨.name cs, false⟩], e⟩, rfl, ?_, hl, he⟩
  refine holds_operand ?_ (name_visible hn) ho ⟨rfl, rfl⟩ hp
  intro rest ls hr h
  exact lexes_name hn (Apart.not_named hr) h

theorem null_denotes : Denotes "null".toList .null := by
  refine name_denotes (e := .null) (isName_cons rfl rfl) rfl ?_ .null ?_
  · intro fuel ls
    rfl
  · intro sc _
    rw [eval]

theorem bool_denotes (b : Bool) :
    Denotes (if b then "true".toList else "false".toList) (.bool b) := by
  cases b with
  | true =>
    refine name_denotes (e := .bool true) (isName_cons rfl rfl) rfl ?_ (.bool true) ?_
    · intro fuel ls
      rfl
    · intro sc _
      rw [eval]
  | false =>
    refine name_denotes (e := .bool false) (isName_cons rfl rfl) rfl ?_ (.bool false) ?_
    · intro fuel ls
      rfl
    · intro sc _
      rw [eval]

theorem text_denotes (cs : List Char) :
    Denotes (Json.string false cs) (.text (Units.ofChars cs)) := by
  refine ⟨⟨_, [⟨.text (Units.ofChars cs), false⟩], .text (Units.ofChars cs)⟩, rfl, ?_, .text _,
    ?_⟩
  · refine holds_operand ?_ (string_visible cs) rfl ⟨rfl, rfl⟩ ?_
    · intro rest ls _ h
      exact lexes_text cs h
    · intro fuel ls
      rfl
  · intro sc _
    rw [eval]

theorem spelling_visible {s : Spelling} (hs : s.Regular) : Visible s.text := by
  intro c hc
  rcases hs.text_chars c hc with hd | hm
  · have := digit_bounds hd
    omega
  · have hmarks : ['.', 'e', '-', '+'].all (fun d => 32 ≤ d.toNat) = true := by decide
    exact of_decide_eq_true (List.all_eq_true.mp hmarks c hm)

/-- A number with a minus or without is held as it is written. -/
theorem number_denotes {s : Spelling} (hs : s.Regular) (negative : Bool) :
    Denotes ((if negative then ['-'] else []) ++ s.text)
      (.number (if negative then (Held.settle s.number).neg else .settle s.number)) := by
  have hl : LexesTo s.text [⟨.number s.number, false⟩] := fun rest ls hr h => lexes_number hs hr h
  have hp : ∀ fuel ls, primary (fuel + 1) (⟨.number s.number, false⟩ :: ls) =
      .ok (.number s.number, ls) := fun _ _ => rfl
  cases negative with
  | false =>
    refine ⟨_, rfl, holds_operand hl (spelling_visible hs) rfl ⟨rfl, rfl⟩ hp,
      .positive (.digits _), ?_⟩
    intro sc _
    rw [eval]
    rfl
  | true =>
    have hn : ∃ c cs, s.text = c :: cs ∧ c ≠ '-' := by
      obtain ⟨d, hd, cs, ht⟩ := spelling_head hs
      refine ⟨_, cs, ht, ?_⟩
      interval_cases d <;> decide
    refine ⟨_, rfl, holds_minus hl (spelling_visible hs) hn rfl hp, .negative (.digits _), ?_⟩
    intro sc _
    rw [eval, eval]
    · rfl
    · intro cs h
      cases h

theorem nan_denotes : Denotes "NaN".toList (.number (literalNumber .nan)) := by
  refine name_denotes (e := .name "NaN".toList) (isName_cons rfl rfl) rfl ?_ (.positive .nan) ?_
  · intro fuel ls
    rfl
  · intro sc hu
    rw [eval, resolve, resolve?, hu.nan]
    rfl

theorem infinity_denotes (negative : Bool) :
    Denotes ((if negative then ['-'] else []) ++ "Infinity".toList)
      (.number (literalNumber (.inf negative))) := by
  have hn : IsName "Infinity".toList := isName_cons rfl rfl
  have hp : ∀ fuel ls, primary (fuel + 1) (⟨.name "Infinity".toList, false⟩ :: ls) =
      .ok (.name "Infinity".toList, ls) := fun _ _ => rfl
  have he : ∀ sc, Unshadowed sc →
      eval sc (.name "Infinity".toList) = .ok (.number (.float (.inf false))) := by
    intro sc hu
    rw [eval, resolve, resolve?, hu.infinity]
    rfl
  cases negative with
  | false => exact name_denotes hn rfl hp (.positive .infinity) he
  | true =>
    have hl : LexesTo "Infinity".toList [⟨.name "Infinity".toList, false⟩] :=
      fun rest ls hr h => lexes_name hn (Apart.not_named hr) h
    have ho : Operand ⟨.name "Infinity".toList, false⟩ := rfl
    refine ⟨_, rfl, holds_minus hl (name_visible hn) ⟨'I', _, rfl, by decide⟩ ho hp,
      .negative .infinity, ?_⟩
    intro sc hu
    rw [eval, he sc hu]
    · rfl
    · intro cs h
      cases h

theorem signText_literal (negative : Bool) (m : Nat) :
    signText .literal negative m = if negative then ['-'] else [] := by
  cases negative with
  | false => rfl
  | true => rw [signText, show Layout.literal.signsZero = true from rfl, Bool.or_true]; rfl

/-- The literal of a floating point number denotes it. -/
theorem float_denotes (x : Binary64) : Denotes (x.text .literal) (.number (literalNumber x)) := by
  cases x with
  | nan => exact nan_denotes
  | inf s => exact infinity_denotes s
  | fin s m =>
    have hd := number_denotes (magnitudeSpelling_regular literal_faithful m.isLt) s
    rw [literal_number m.isLt] at hd
    have hn : (Binary64.fin s m).neg = .fin (!s) m := rfl
    rw [text_fin literal_faithful, signText_literal, literalNumber, isNegative, hn]
    cases s with
    | false => simpa using hd
    | true => simpa using hd

/-- As long as the digits write a number below `10 ^ 19`, all of them are collected. -/
theorem collect_all {n : Nat} {ds : List Nat}
    (h : n * 10 ^ ds.length + Numeral.natOf ds < 10 ^ 19) :
    collect 10 n 0 ds = (n * 10 ^ ds.length + Numeral.natOf ds, 0) := by
  induction ds generalizing n with
  | nil => simp [collect, Numeral.natOf]
  | cons d ds ih =>
    have hd : Numeral.natOf (d :: ds) = d * 10 ^ ds.length + Numeral.natOf ds :=
      (natOf_append [d] ds).trans (by simp [Numeral.natOf])
    have he : n * 10 ^ (d :: ds).length + Numeral.natOf (d :: ds) =
        (n * 10 + d) * 10 ^ ds.length + Numeral.natOf ds := by
      rw [hd, List.length_cons, pow_succ]
      ring
    rw [he] at h ⊢
    have hn : n ≤ collectLimit 10 := by
      have hp : 0 < 10 ^ ds.length := by positivity
      have hm : n * 10 ≤ (n * 10 + d) * 10 ^ ds.length := by nlinarith
      have hl : 10 ^ 18 ≤ collectLimit 10 := by decide +kernel
      omega
    rw [collect, if_pos hn, ih h]

theorem wholeNumber_natural {ds : List Nat} (h : Numeral.natOf ds < 10 ^ 19) :
    wholeNumber 10 ds = .ofInt (Numeral.natOf ds : Nat) := by
  have hc : collect 10 0 0 ds = (0 * 10 ^ ds.length + Numeral.natOf ds, 0) :=
    collect_all (by omega)
  rw [Nat.zero_mul, Nat.zero_add] at hc
  unfold wholeNumber
  simp only [hc]

theorem naturalSpelling_number {n : Nat} (hn : n < 2 ^ 53) :
    (naturalSpelling n).number = .ofInt n := by
  have hd : Numeral.natOf (decimalDigits n) < 10 ^ 19 := by
    rw [natOf_decimalDigits]
    omega
  have hw := wholeNumber_natural hd
  rwa [natOf_decimalDigits] at hw

theorem isNegative_ofInt (n : Int) : isNegative (.ofInt n) = decide (n < 0) := by
  unfold Binary64.ofInt Binary64.ofGrid Binary64.ofMag
  split <;> rfl

theorem neg_ofInt {n : Int} (hn : n < 0) : (Binary64.ofInt n).neg = .ofInt n.natAbs := by
  have h1 : decide (n < 0) = true := by simpa using hn
  have h2 : decide ((n.natAbs : Int) < 0) = false := by simp
  unfold Binary64.ofInt
  rw [h1, h2, Int.natAbs_natCast]
  unfold Binary64.ofGrid Binary64.ofMag
  split <;> rfl

/-- The literal of an integer denotes a number, and the integer itself if it is exact. -/
theorem int_denotes (n : Int) : ∃ x, Denotes (intText n) (.number x) ∧
    (n.natAbs < 2 ^ 53 → x = literalNumber (.ofInt n)) := by
  have hd := number_denotes (naturalSpelling_regular n.natAbs) (decide (n < 0))
  have ht := intText_eq n
  refine ⟨_, by simpa [ht] using hd, ?_⟩
  intro hn
  rw [naturalSpelling_number hn, literalNumber, isNegative_ofInt]
  by_cases hs : n < 0
  · simp [hs, neg_ofInt hs]
  · have hp : (n.natAbs : Int) = n := by omega
    simp [hs, hp]

/-- A value that may cross into a snippet and back: finite, exact, with texts as keys and without
null characters in texts. -/
inductive Crossable : Value → Prop where
  | none : Crossable .none
  | bool (b : Bool) : Crossable (.bool b)
  | int (n : Int) (exact : n.natAbs < 2 ^ 53) : Crossable (.int n)
  | float (x : Binary64) (finite : x.isFinite = true) : Crossable (.float x)
  | str (s : String) (whole : '\x00' ∉ s.toList) : Crossable (.str s)
  | list (vs : List Value) (elements : ∀ v ∈ vs, Crossable v) : Crossable (.list vs)
  | dict (ms : List (String × Value)) (distinct : (ms.map Prod.fst).Nodup)
      (values : ∀ m ∈ ms, Crossable m.2) : Crossable (.dict (textKeyed ms))

def isContainer : Value → Bool
  | .list _ => true
  | .tuple _ => true
  | .dict _ => true
  | _ => false

/-- A value in which the keys of every dictionary are distinct, as they are in all of them. -/
inductive WellKeyed : Value → Prop where
  | atom (v : Value) (h : isContainer v = false) : WellKeyed v
  | list (vs : List Value) (elements : ∀ v ∈ vs, WellKeyed v) : WellKeyed (.list vs)
  | tuple (vs : List Value) (elements : ∀ v ∈ vs, WellKeyed v) : WellKeyed (.tuple vs)
  | dict (es : Entries) (distinct : KeysDistinct es) (values : ∀ e ∈ es, WellKeyed e.2) :
      WellKeyed (.dict es)

/-- A literal of a value denotes something, and what a snippet sees of a value that may cross. -/
def Denoted (v : Value) (cs : List Char) : Prop :=
  ∃ g, Denotes cs g ∧ (Crossable v → g = ofValue v)

/-- The literals of a value denote what they should, whatever its depth. -/
def Readable (v : Value) : Prop :=
  ∀ depth cs, Json.writeAt .literal depth v = .ok cs → Denoted v cs

theorem atom_readable {v : Value} (h : isContainer v = false) : Readable v := by
  intro depth cs hw
  cases v with
  | none =>
    cases hw
    exact ⟨_, null_denotes, fun _ => by rw [ofValue]⟩
  | bool b =>
    cases hw
    exact ⟨_, bool_denotes b, fun _ => by rw [ofValue]⟩
  | int n =>
    cases hw
    obtain ⟨x, hd, hx⟩ := int_denotes n
    refine ⟨_, hd, fun hc => ?_⟩
    cases hc with
    | int _ hn => rw [ofValue, hx hn]
  | float x =>
    rw [Json.writeAt, Json.Style.refuses_of_specials rfl] at hw
    cases hw
    exact ⟨_, float_denotes x, fun _ => by rw [ofValue]⟩
  | str s =>
    cases hw
    exact ⟨_, text_denotes s.toList, fun _ => by rw [ofValue]; rfl⟩
  | _ => contradiction

theorem writeAll_cons {st : Json.Style} {depth : Nat} {v : Value} {vs : List Value}
    {ps : List (List Char)} (h : Json.writeAll st depth (v :: vs) = .ok ps) :
    ∃ p qs, Json.writeAt st depth v = .ok p ∧ Json.writeAll st depth vs = .ok qs ∧
      ps = p :: qs := by
  rw [Json.writeAll] at h
  cases hp : Json.writeAt st depth v with
  | error f => simp [hp, bind, Except.bind] at h
  | ok p =>
    cases hq : Json.writeAll st depth vs with
    | error f => simp [hp, hq, bind, Except.bind] at h
    | ok qs =>
      rw [hp, hq] at h
      cases h
      exact ⟨p, qs, rfl, rfl, rfl⟩

theorem writeEntries_cons {st : Json.Style} {depth : Nat} {k v : Value} {es : Entries}
    {ps : List (List Char)} (h : Json.writeEntries st depth ((k, v) :: es) = .ok ps) :
    ∃ name p qs, Json.keyName k = .ok name ∧ Json.writeAt st depth v = .ok p ∧
      Json.writeEntries st depth es = .ok qs ∧
      ps = (Json.string st.ascii name ++ st.colon ++ p) :: qs := by
  rw [Json.writeEntries] at h
  cases hn : Json.keyText st k with
  | error f => simp [hn, bind, Except.bind] at h
  | ok name =>
    cases hp : Json.writeAt st depth v with
    | error f => simp [hn, hp, bind, Except.bind] at h
    | ok p =>
      cases hq : Json.writeEntries st depth es with
      | error f => simp [hn, hp, hq, bind, Except.bind] at h
      | ok qs =>
        rw [hn, hp, hq] at h
        cases h
        exact ⟨name, p, qs, Json.keyName_of_keyText hn, rfl, rfl, rfl⟩

/-- The literals of elements are those of an array. -/
theorem elements_readable {vs : List Value} (hv : ∀ v ∈ vs, Readable v) {depth : Nat}
    {ps : List (List Char)} (hw : Json.writeAll .literal depth vs = .ok ps) :
    ∃ (rs : List Reading) (gs : List Guest), rs.map Reading.text = ps ∧
      (∀ r ∈ rs, r.Holds ∧ Literal r.expr) ∧
      (∀ sc, Unshadowed sc → evalAll sc (rs.map Reading.expr) = .ok gs) ∧
      ((∀ v ∈ vs, Crossable v) → gs = ofValues vs) := by
  induction vs generalizing ps with
  | nil =>
    cases hw
    exact ⟨[], [], rfl, by simp, fun _ _ => by rw [List.map_nil, evalAll], fun _ => rfl⟩
  | cons v vs ih =>
    obtain ⟨p, qs, hp, hq, rfl⟩ := writeAll_cons hw
    obtain ⟨g, ⟨r, rfl, hr, hl, he⟩, hg⟩ := hv v List.mem_cons_self depth p hp
    obtain ⟨rs, gs, rfl, hrs, hes, hgs⟩ := ih (fun w hw => hv w (List.mem_cons_of_mem _ hw)) hq
    refine ⟨r :: rs, g :: gs, rfl, List.forall_mem_cons.mpr ⟨⟨hr, hl⟩, hrs⟩, ?_, ?_⟩
    · intro sc hu
      rw [List.map_cons, evalAll, he sc hu, hes sc hu]
      rfl
    · intro hc
      rw [ofValues, hg (hc v List.mem_cons_self),
        hgs fun w hw => hc w (List.mem_cons_of_mem _ hw)]

theorem array_readable {vs : List Value} (hv : ∀ v ∈ vs, Readable v) {depth : Nat}
    {cs : List Char}
    (hw : (Json.writeAll .literal (depth + 1) vs).map (Json.bracketed .literal depth '[' ']') =
      .ok cs) :
    ∃ gs, Denotes cs (.array gs) ∧ ((∀ v ∈ vs, Crossable v) → gs = ofValues vs) := by
  cases hps : Json.writeAll .literal (depth + 1) vs with
  | error f =>
    rw [hps] at hw
    cases hw
  | ok ps =>
    rw [hps] at hw
    cases hw
    obtain ⟨rs, gs, rfl, hrs, hes, hgs⟩ := elements_readable hv hps
    have hl : ∀ e ∈ rs.map Reading.expr, Literal e :=
      List.forall_mem_map.mpr fun r hr => (hrs r hr).2
    refine ⟨gs, ⟨arrayReading depth rs, rfl, array_holds depth fun r hr => (hrs r hr).1,
      .array hl, ?_⟩, hgs⟩
    intro sc hu
    rw [arrayReading, eval, hes sc hu]
    rfl

theorem float_head (x : Binary64) : (x.text .literal).head? ≠ some '_' := by
  cases x with
  | nan => decide
  | inf s => cases s <;> decide
  | fin s m =>
    obtain ⟨d, hd, cs, ht⟩ := spelling_head (magnitudeSpelling_regular literal_faithful m.isLt)
    rw [text_fin literal_faithful, signText_literal, ht]
    cases s with
    | true => simp
    | false => interval_cases d <;> simp [digitChar]

/-- Only a text names the parent of an object. -/
theorem keyName_parent {k : Value} (h : Json.keyName k = .ok "__proto__".toList) :
    k = .str "__proto__" := by
  cases k with
  | none => cases h
  | bool b => cases b <;> cases h
  | int n =>
    have hm : '_' ∈ intText n := by
      rw [Json.keyName, Except.ok.injEq] at h
      rw [h]
      decide
    rcases Digits.intText_chars n '_' hm with hc | hc <;> contradiction
  | float x =>
    rw [Json.keyName, Except.ok.injEq] at h
    exact absurd (by rw [h]; rfl) (float_head x)
  | str s =>
    rw [Json.keyName, Except.ok.injEq] at h
    rw [String.toList_inj.mp h]
  | _ => cases h

/-- Distinct keys name the parent at most once. -/
theorem oneParent_of_distinct {es : Entries} (hd : KeysDistinct es) {ks : List (List Char)}
    (hk : es.map (fun e => Json.keyName e.1) = ks.map .ok) : OneParent (ks.map Units.ofChars) := by
  have hp : ∀ {cs : List Char}, Units.ofChars cs = parentKey → cs = "__proto__".toList := by
    intro cs h
    exact UnitTexts.ofChars_inj.mp h
  have he : (es.map fun e => Json.keyName e.1).Pairwise fun a b =>
      a = .ok "__proto__".toList → b ≠ .ok "__proto__".toList := by
    rw [List.pairwise_map]
    rw [KeysDistinct, List.pairwise_map] at hd
    refine hd.imp fun {a b} hs ha hb => ?_
    rw [keyName_parent ha, keyName_parent hb] at hs
    simp [Value.same] at hs
  rw [hk, List.pairwise_map] at he
  rw [OneParent, List.pairwise_map]
  refine he.imp fun {a b} h ha hb => ?_
  exact h (by rw [hp ha]) (by rw [hp hb])

/-- The literals of entries are those of an object's members. -/
theorem members_readable {es : Entries} (hv : ∀ e ∈ es, Readable e.2) {depth : Nat}
    {ps : List (List Char)} (hw : Json.writeEntries .literal depth es = .ok ps) :
    ∃ (ms : List Member) (gs : List (Units × Guest)), ms.map Member.text = ps ∧
      (∀ m ∈ ms, m.reading.Holds ∧ Literal m.reading.expr) ∧
      es.map (fun e => Json.keyName e.1) = (ms.map Member.key).map .ok ∧
      (∀ sc, Unshadowed sc → evalMembers sc (ms.map Member.expr) = .ok gs) ∧
      ((∀ e ∈ es, Crossable e.2) → gs = ofEntries es) := by
  induction es generalizing ps with
  | nil =>
    cases hw
    exact ⟨[], [], rfl, by simp, rfl, fun _ _ => by rw [List.map_nil, evalMembers], fun _ => rfl⟩
  | cons e es ih =>
    obtain ⟨k, v⟩ := e
    obtain ⟨name, p, qs, hn, hp, hq, rfl⟩ := writeEntries_cons hw
    obtain ⟨g, ⟨r, rfl, hr, hl, he⟩, hg⟩ := hv (k, v) List.mem_cons_self depth p hp
    obtain ⟨ms, gs, rfl, hms, hks, hes, hgs⟩ :=
      ih (fun f hf => hv f (List.mem_cons_of_mem _ hf)) hq
    refine ⟨⟨name, r⟩ :: ms, (Units.ofChars name, g) :: gs, ?_,
      List.forall_mem_cons.mpr ⟨⟨hr, hl⟩, hms⟩, ?_, ?_, ?_⟩
    · rw [List.map_cons, Member.text]
      simp [Json.Style.literal, Json.Style.colon]
    · rw [List.map_cons, List.map_cons, List.map_cons, hn, hks]
    · intro sc hu
      rw [List.map_cons, Member.expr, evalMembers, he sc hu, hes sc hu]
      rfl
    · intro hc
      rw [ofEntries, hn, hg (hc _ List.mem_cons_self),
        hgs fun f hf => hc f (List.mem_cons_of_mem _ hf)]

theorem crossable_textKeyed {es : Entries} (h : Crossable (.dict es)) :
    ∀ e ∈ es, Crossable e.2 := by
  cases h with
  | dict ms _ hv =>
    intro e he
    obtain ⟨m, hm, rfl⟩ := List.mem_map.mp he
    exact hv m hm

theorem object_readable {es : Entries} (hd : KeysDistinct es) (hv : ∀ e ∈ es, Readable e.2) :
    Readable (.dict es) := by
  intro depth cs hw
  rw [Json.writeAt] at hw
  cases hps : Json.writeEntries .literal (depth + 1) es with
  | error f =>
    rw [hps] at hw
    cases hw
  | ok ps =>
    rw [hps] at hw
    cases hw
    obtain ⟨ms, gs, rfl, hms, hks, hes, hgs⟩ := members_readable hv hps
    have hk : OneParent (ms.map fun m => Units.ofChars m.key) := by
      have := oneParent_of_distinct hd hks
      rwa [List.map_map] at this
    have hl : ∀ m ∈ ms.map Member.expr, Literal m.2 :=
      List.forall_mem_map.mpr fun m hm => (hms m hm).2
    refine ⟨objectOf gs, ⟨objectReading depth ms, rfl,
      object_holds depth (fun m hm => (hms m hm).1) hk, .object hl, ?_⟩, ?_⟩
    · intro sc hu
      rw [objectReading, eval, hes sc hu]
      rfl
    · intro hc
      rw [ofValue, hgs (crossable_textKeyed hc)]

/-- Every literal of a value can be read, at any depth. -/
theorem readable {v : Value} (hv : WellKeyed v) : Readable v := by
  induction hv with
  | atom v h => exact atom_readable h
  | list vs _ ih =>
    intro depth cs hw
    rw [Json.writeAt] at hw
    obtain ⟨gs, hd, hg⟩ := array_readable ih hw
    refine ⟨_, hd, fun hc => ?_⟩
    cases hc with
    | list _ he => rw [ofValue, hg he]
  | tuple vs _ ih =>
    intro depth cs hw
    rw [Json.writeAt] at hw
    obtain ⟨gs, hd, hg⟩ := array_readable ih hw
    refine ⟨_, hd, fun hc => ?_⟩
    cases hc
  | dict es hk _ ih => exact object_readable hk ih

theorem textKeyed_distinct {ms : List (String × Value)} (h : (ms.map Prod.fst).Nodup) :
    KeysDistinct (textKeyed ms) := by
  rw [KeysDistinct, textKeyed, List.map_map, List.pairwise_map]
  rw [List.nodup_iff_pairwise_ne, List.pairwise_map] at h
  refine h.imp fun {a b} hne => ?_
  simpa [Value.same] using hne

theorem Crossable.wellKeyed {v : Value} (h : Crossable v) : WellKeyed v := by
  induction h with
  | list vs _ ih => exact .list vs ih
  | dict ms hd _ ih =>
    refine .dict _ (textKeyed_distinct hd) fun e he => ?_
    obtain ⟨m, hm, rfl⟩ := List.mem_map.mp he
    exact ih m hm
  | _ => exact .atom _ rfl

/-- A declared value is read as what a snippet sees of it. -/
theorem literal_denoted {v : Value} (hv : WellKeyed v) {cs : List Char} (h : literal? v = some cs) :
    Denoted v cs := by
  rw [literal?, Json.write] at h
  cases hw : Json.writeAt .literal 0 v with
  | error f =>
    rw [hw] at h
    cases h
  | ok ds =>
    rw [hw] at h
    cases h
    exact readable hv 0 _ hw

end Reckoner.Proofs.Denotations
