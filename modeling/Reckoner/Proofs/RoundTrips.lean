import Reckoner.Proofs.Acceptance
import Reckoner.Proofs.NameSnippets
import Reckoner.Proofs.Returns
import Reckoner.Proofs.Timely

namespace Reckoner.Proofs.RoundTrips
open Session Snippet Text Names Crossing Denotations Scopes NameSnippets JsonTexts Returns Execution
  Timely UnitTexts

/-- A value that comes back as it went: if it is an array or an object, all in it is kept. -/
def Survives (v : Value) : Prop := isContainer v = true → Kept v

theorem place_of_grid {x : Binary64} {g : Int} (h : x.grid? = some g) :
    x.place? = some ⟨0, g⟩ := by
  cases x with
  | nan => cases h
  | inf s => cases h
  | fin s m =>
    cases s with
    | true =>
      cases h
      rfl
    | false =>
      cases h
      rfl

theorem unit_dvd {x : Binary64} (hw : x.isWhole = true) {g : Int} (h : x.grid? = some g) :
    (Binary64.unit : Int) ∣ g := by
  cases x with
  | nan => cases h
  | inf s => cases h
  | fin s m =>
    have hd : (Binary64.unit : Int) ∣ Binary64.gridOf m := by
      rw [Binary64.isWhole, beq_iff_eq] at hw
      exact_mod_cast Nat.dvd_of_mod_eq_zero hw
    cases s with
    | true =>
      cases h
      exact Int.dvd_neg.mpr hd
    | false =>
      cases h
      exact hd

/-- A whole number has the place of its whole part. -/
theorem place_of_whole {x : Binary64} (hw : x.isWhole = true) {n : Int} (ht : x.trunc? = some n) :
    x.place? = some (.ofInt n) := by
  obtain ⟨g, hg, rfl⟩ := Option.map_eq_some_iff.mp ht
  rw [place_of_grid hg, Binary64.Place.ofInt, Int.tdiv_mul_cancel (unit_dvd hw hg)]

/-- A number has the same place outside as in the snippet, whatever holds it. -/
theorem number_place (x : Held) : (Given.number x).place? = x.value.place? := by
  unfold Given.number
  split
  · next n hn =>
    rw [Held.integer?] at hn
    split at hn
    · next hi =>
      have hf := x.fits hi
      simp only [fitsInteger, Bool.and_eq_true] at hf
      rw [Value.place?, place_of_whole hf.1.1 hn]
    · cases hn
  · rfl

theorem number_same_int {x : Held} {n : Int} (h : x.value.place? = some (.ofInt n)) :
    (Given.number x).same (.int n) = true := by
  have hp := number_place x
  rw [h] at hp
  unfold Given.number at hp ⊢
  split at hp <;> simp [Value.same, Value.place?] at hp ⊢ <;> simp [hp]

theorem number_same_float {x : Held} (h : x.value.isFinite = true) :
    (Given.number x).same (.float x.value) = true := by
  have hs := same_float h
  have hp := number_place x
  unfold Given.number at hp ⊢
  split at hp
  · simp only [Value.same, Value.place?] at hp hs ⊢
    rwa [hp]
  · exact hs

theorem cutText_whole {s : String} (h : '\x00' ∉ s.toList) :
    Given.cutText (Units.ofString s) = s := by
  have hu : ∀ u ∈ Units.ofString s, u ≠ 0 := by
    intro u hu
    obtain ⟨c, hc, hu⟩ := List.mem_flatMap.mp hu
    exact unit_ne (d := '\x00') (fun he => h (he ▸ hc)) (by decide) u hu
  have ht : (Units.ofString s).takeWhile (· ≠ 0) = Units.ofString s :=
    List.takeWhile_eq_self_iff.mpr fun u hm => by simpa using hu u hm
  rw [Given.cutText, ht, toChars_ofString]

/-- An atom leaves the interpreter as it is. -/
theorem atom_returns {v : Value} (hv : Crossable v) (ha : isContainer v = false) :
    ∃ w, (Reply.ofGiven (.ofGuest (ofValue v))).result = .ok w ∧ w.same v = true := by
  cases hv with
  | none => exact ⟨.none, by rw [ofValue]; rfl, by simp [Value.same]⟩
  | bool b => exact ⟨.bool b, by rw [ofValue]; rfl, by simp [Value.same, Value.place?]⟩
  | int n hn =>
    refine ⟨_, by rw [ofValue]; rfl, ?_⟩
    obtain ⟨hw, ht⟩ := Integers.trunc?_ofInt hn.le
    apply number_same_int
    rw [literalNumber_value, place_of_whole hw ht]
  | float x hx =>
    refine ⟨_, by rw [ofValue]; rfl, ?_⟩
    have hs := number_same_float (x := literalNumber x) (by rwa [literalNumber_value])
    rwa [literalNumber_value] at hs
  | str s hs =>
    refine ⟨.str s, ?_, by simp [Value.same]⟩
    rw [ofValue, Guest.ofString, Given.ofGuest, cutText_whole hs, Reply.ofGiven, Reply.result]
  | list vs hvs => contradiction
  | dict ms hd hvs => contradiction

/-- An array or an object leaves the interpreter as what its JSON text is read as. -/
theorem container_returns {v w : Value} (hc : isContainer v = true)
    (h : ComesBack (ofValue v) w) : (Reply.ofGiven (.ofGuest (ofValue v))).result = .ok w := by
  have ho : Reply.ofGiven (.ofGuest (ofValue v)) =
      .object (.ok ((json? (ofValue v)).map String.ofList)) := by
    cases v with
    | list vs =>
      rw [ofValue]
      rfl
    | tuple vs =>
      rw [ofValue]
      rfl
    | dict es =>
      rw [ofValue]
      rfl
    | _ => contradiction
  obtain ⟨cs, hj, ht⟩ := h
  have hr : Json.read? (String.ofList cs) = some w := by
    rw [Json.read?, String.toList_ofList, ht.whole]
    rfl
  rw [ho, hj, Option.map_some, Reply.result, objectValue, Option.bind_some, hr, Option.getD_some]

/-- What leaves the interpreter for a value is that value exactly if it survives. -/
theorem value_returns {v : Value} (hv : Crossable v) :
    ∃ w, (Reply.ofGiven (.ofGuest (ofValue v))).result = .ok w ∧
      (w.same v = true ↔ Survives v) := by
  cases hc : isContainer v with
  | false =>
    obtain ⟨w, hw, hs⟩ := atom_returns hv hc
    refine ⟨w, hw, ?_⟩
    simp [Survives, hc, hs]
  | true =>
    obtain ⟨w, hb, hk⟩ := faithful hv
    refine ⟨w, container_returns hc hb, ?_⟩
    simp [Survives, hc, hk]

theorem writeAll_written {vs : List Value} {depth : Nat}
    (h : ∀ v ∈ vs, ∃ cs, Json.writeAt .literal depth v = .ok cs) :
    ∃ ps, Json.writeAll .literal depth vs = .ok ps := by
  induction vs with
  | nil => exact ⟨[], rfl⟩
  | cons v vs ih =>
    obtain ⟨p, hp⟩ := h v List.mem_cons_self
    obtain ⟨ps, hps⟩ := ih fun u hu => h u (List.mem_cons_of_mem _ hu)
    refine ⟨p :: ps, ?_⟩
    rw [Json.writeAll, hp, hps]
    rfl

theorem writeEntries_written {ms : List (String × Value)} {depth : Nat}
    (h : ∀ m ∈ ms, ∃ cs, Json.writeAt .literal depth m.2 = .ok cs) :
    ∃ ps, Json.writeEntries .literal depth (textKeyed ms) = .ok ps := by
  induction ms with
  | nil => exact ⟨[], rfl⟩
  | cons m ms ih =>
    obtain ⟨p, hp⟩ := h m List.mem_cons_self
    obtain ⟨ps, hps⟩ := ih fun n hn => h n (List.mem_cons_of_mem _ hn)
    rw [textKeyed] at hps
    refine ⟨(Json.string false m.1.toList ++ Json.Style.literal.colon ++ p) :: ps, ?_⟩
    rw [textKeyed, List.map_cons, Json.writeEntries, Json.keyText_str, hp, hps]
    rfl

/-- A value that may cross has a literal, at every depth. -/
theorem crossable_written {v : Value} (hv : Crossable v) (depth : Nat) :
    ∃ cs, Json.writeAt .literal depth v = .ok cs := by
  induction hv generalizing depth with
  | list vs _ ih =>
    obtain ⟨ps, hps⟩ := writeAll_written fun v hv => ih v hv (depth + 1)
    refine ⟨Json.bracketed .literal depth '[' ']' ps, ?_⟩
    rw [Json.writeAt, hps]
    rfl
  | dict ms _ _ ih =>
    obtain ⟨ps, hps⟩ := writeEntries_written fun m hm => ih m hm (depth + 1)
    refine ⟨Json.bracketed .literal depth '\x7b' '\x7d' ps, ?_⟩
    rw [Json.writeAt, hps]
    rfl
  | _ => exact ⟨_, rfl⟩

variable {x : String} {v : Value}

/-- A name under which a field is declared. -/
structure Nameable (x : String) : Prop where
  name : IsName x.toList
  unreserved : x ∉ reservedWords
  helperless : Helper.ofName? x = none

theorem Nameable.not_keyword (h : Nameable x) : isKeyword x.toList = false := by
  cases hk : isKeyword x.toList with
  | false => rfl
  | true =>
    rw [isKeyword, String.ofList_toList, List.contains_iff_mem] at hk
    exact absurd (keyword_reserved x hk) h.unreserved

/-- The field of a value that may cross. -/
theorem Nameable.payload (h : Nameable x) (hv : Crossable v) : Payload [(.str x, v)] := by
  have hend : x.toList.getLast? ≠ some '\n' := fun he =>
    h.name.no_line_feed (List.mem_of_getLast? he)
  exact @payload_textKeyed [(x, v)] (by simp) (by simpa using hv.wellKeyed)
    (by simpa using h.helperless) (by simpa using hend)

/-- The field of a name holds what a snippet sees of its value. -/
theorem Nameable.held (h : Nameable x) (hv : Crossable v) :
    held? [(.str x, v)] x.toList = some (ofValue v) := by
  obtain ⟨cs, hw⟩ := crossable_written hv 0
  have hl : literal? v = some cs := by
    rw [literal?, Json.write, hw]
    rfl
  obtain ⟨g, hd, hg⟩ := literal_denoted hv.wellKeyed hl
  have hi : isIdentifier x.toList = true := (isIdentifier_iff _).mpr (.inl h.name)
  have hdecl : declaration? (.str x, v) = some ⟨x, cs⟩ :=
    (declaration?_eq_some_iff _ _).mpr ⟨rfl, hi, h.unreserved, h.helperless, hl⟩
  have ho := @held?_own [] v x.toList
  rw [String.ofList_toList, hdecl, Option.map_some, (isLiteral_of_denotes hd).2, hg hv] at ho
  exact ho

/-- The snippet that is a name answers with what a snippet sees of its field. -/
theorem Nameable.reply (h : Nameable x) (hv : Crossable v) (n : Nat) :
    (evaluate .interpreter n x [(.str x, v)]).1 = .ofGiven (.ofGuest (ofValue v)) := by
  have hp := h.payload hv
  have ha := answer_name hp h.name h.not_keyword
  rw [h.held hv, String.ofList_toList] at ha
  have ht : '\x00' ∉ (Program.ofFields x [(.str x, v)] .block).text := fun hm =>
    visible_whole (name_visible h.name) ((hp.whole_iff _ _).mp hm)
  have hb : Reply.ofProgram .standard [] (.ofFields x [(.str x, v)] .block) =
      .ofGiven (.ofGuest (ofValue v)) := by
    rw [ofProgram_answer ht (by simp), ha]
    rfl
  rw [Engine.interpreter, speaking_reply, hb, wantsFunction_ofGiven, cond_false]

variable {l : Limits} {h : Host}

theorem check_name (hx : Nameable x) (hc : complaints x.toList = []) :
    check (.str x) (.dict [(.str x, v)]) = .ok (x, [(.str x, v)]) := by
  rw [Acceptance.check_ok_iff]
  refine ⟨rfl, hc, .inr rfl, ?_⟩
  simp [isHelperName, hx.helperless]

/-- A value that may cross is given back by the snippet which names its field, and what comes back
is equal to it exactly if it survives. The texts in it are of whole characters; a lone half of a
surrogate pair is none. -/
theorem payload_returns (hx : Nameable x) (hc : complaints x.toList = []) (hv : Crossable v)
    (ht : InTime l h) (hl : ∃ s, l.seconds? = some s) :
    ∃ w t, (execute l .interpreter h (.str x) (.dict [(.str x, v)])).outcome =
        .ok (.succeeded w t) ∧
      (w.same v = true ↔ Survives v) := by
  obtain ⟨t, ho⟩ := execute_reply (check_name hx hc) ht rfl hl (hx.reply hv)
  obtain ⟨w, hw, hs⟩ := value_returns hv
  refine ⟨w, t, ?_, hs⟩
  rw [ho, hw]
  rfl

def parented : Value := .dict [(.str "__proto__", .int 1)]

theorem parented_crossable : Crossable parented :=
  .dict [("__proto__", .int 1)] (by simp) (by simpa using .int 1 (by decide))

theorem parented_lost : ¬ Survives parented := by
  intro h
  cases h rfl with
  | dict _ own _ => exact own _ List.mem_cons_self rfl

theorem nameable_x : Nameable "x" := ⟨isName_cons rfl rfl, by decide, by decide⟩

/-- A member that sets the parent does not come back. -/
theorem parented_returns :
    Nameable "x" ∧ complaints "x".toList = [] ∧ Crossable parented ∧
      InTime .default stillHost ∧ (∃ s, Limits.default.seconds? = some s) ∧
      ∃ w t, (execute .default .interpreter stillHost (.str "x")
          (.dict [(.str "x", parented)])).outcome = .ok (.succeeded w t) ∧
        w.same parented = false := by
  have hc : complaints "x".toList = [] := by decide +kernel
  have hl : ∃ s, Limits.default.seconds? = some s := ⟨_, if_pos (by decide +kernel)⟩
  obtain ⟨w, t, ho, hs⟩ := payload_returns nameable_x hc parented_crossable stillHost_inTime hl
  refine ⟨nameable_x, hc, parented_crossable, stillHost_inTime, hl, w, t, ho, ?_⟩
  cases hw : w.same parented with
  | false => rfl
  | true => exact absurd (hs.mp hw) parented_lost

end Reckoner.Proofs.RoundTrips
