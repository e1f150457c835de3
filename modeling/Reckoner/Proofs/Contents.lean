import Reckoner.Proofs.Acceptance
import Reckoner.Proofs.JsonValues
import Reckoner.Proofs.Rounding
import Reckoner.Proofs.Timely
import Reckoner.Tools.Router

namespace Reckoner.Proofs.Contents
open Session Snippet Tools Crossing JsonValues Execution Results

theorem gridOf_lt {m : Nat} (hm : m < Binary64.magnitudes) :
    Binary64.gridOf m < 10 ^ Numeral.digitLimit := by
  rcases Nat.eq_zero_or_pos m with rfl | hpos
  · exact Nat.pow_pos (by omega)
  · have hp := Rounding.gridOf_pos (m := m + 1) (by omega)
    calc Binary64.gridOf m
      _ < Binary64.gridOf m + Binary64.gridOf (m + 1) := Nat.lt_add_of_pos_right hp
      _ ≤ 2 ^ 2100 := Rounding.high_le hpos hm
      _ ≤ 10 ^ Numeral.digitLimit := JsonTexts.two_pow_le_limit (by decide)

theorem grid?_natAbs {x : Binary64} {g : Int} (h : x.grid? = some g) :
    g.natAbs < 10 ^ Numeral.digitLimit := by
  cases x with
  | nan => cases h
  | inf s => cases h
  | fin s m =>
    have hm := gridOf_lt m.isLt
    cases s with
    | true =>
      cases h
      rwa [Int.natAbs_neg, Int.natAbs_natCast]
    | false =>
      cases h
      rwa [Int.natAbs_natCast]

/-- The whole part of a number has few enough digits. -/
theorem integerOfFloat_lt {x : Binary64} {n : Int} (h : integerOfFloat x = .ok n) :
    n.natAbs < 10 ^ Numeral.digitLimit := by
  unfold integerOfFloat at h
  split at h
  · next ht =>
    cases h
    obtain ⟨g, hg, rfl⟩ := Option.map_eq_some_iff.mp ht
    rw [Int.natAbs_tdiv]
    exact (Nat.div_le_self _ _).trans_lt (grid?_natAbs hg)
  · cases h

variable {l : Limits} {e : Engine} {h : Host}

theorem conclude_time {result : Except Trouble Value} {t : Int} {o : Outcome}
    (h : conclude l result t = .ok o) : o.time? = some t := by
  cases result with
  | error u =>
    obtain ⟨m, -, rfl⟩ := ok_of_map h
    rfl
  | ok v =>
    obtain rfl := Except.ok.inj h
    split <;> rfl

/-- The outcome of an accepted snippet has a time between two readings. -/
theorem perform_time {code : String} {es : Entries} {o : Outcome}
    (ho : (perform l e h code es).outcome = .ok o) :
    ∃ t, o.time? = some t ∧ JsonValue true (.int t) := by
  have hj : ∀ {x y : Binary64} {t : Int}, elapsed x y = .ok t → JsonValue true (.int t) :=
    fun ht => .int _ (integerOfFloat_lt ht)
  cases hl : h.loader.load with
  | mk r ld =>
    cases r with
    | error f =>
      rw [perform_unloaded hl] at ho
      obtain ⟨t, ht, hc⟩ := ok_of_bind ho
      exact ⟨t, conclude_time hc, hj ht⟩
    | ok u =>
      rw [perform_loaded hl] at ho
      obtain ⟨t, ht, hc⟩ := ok_of_bind ho
      exact ⟨t, conclude_time hc, hj ht⟩

/-- A record with distinct names is a value of JSON texts if its fields are. -/
theorem record_json {specials : Bool} {fields : List (String × Value)}
    (hd : (fields.map Prod.fst).Nodup) (hf : ∀ f ∈ fields, JsonValue specials f.2) :
    JsonValue specials (Tool.record fields) :=
  .dict fields hd hf

/-- An answer's text for a value is read as the value. -/
theorem payloadText_read {v : Value} (hv : JsonValue true v) :
    ∃ cs, payloadText v = .ok cs ∧ Json.read cs = .ok v :=
  write_read .pretty hv

theorem answer_read {v : Value} (hv : JsonValue true v) (isError : Bool) :
    ∃ cs, answer (.ok v) isError = content cs isError ∧ Json.read cs = .ok v := by
  obtain ⟨cs, hw, hr⟩ := payloadText_read hv
  refine ⟨cs, ?_, hr⟩
  rw [answer, Except.bind, hw]

theorem error_json (m : String) : JsonValue true (Tool.record [("error", .str m)]) :=
  record_json (by simp) (by simpa using .str m)

theorem errorText_read (m : String) :
    Json.read (errorText m) = .ok (Tool.record [("error", .str m)]) := by
  obtain ⟨cs, hw, hr⟩ := payloadText_read (error_json m)
  rwa [errorText, hw]

/-- Every answer of a payload is one text item. -/
theorem answer_content (payload : Except Failure Value) (isError : Bool) :
    ∃ cs b, answer payload isError = content cs b := by
  unfold answer
  split
  · exact ⟨_, _, rfl⟩
  · exact ⟨_, _, rfl⟩

theorem outcomeAnswer_content (r : Except Failure Outcome) :
    ∃ cs b, outcomeAnswer r = content cs b := by
  unfold outcomeAnswer
  split
  · exact ⟨_, _, rfl⟩
  · exact answer_content _ _
  · exact answer_content _ _
  · exact answer_content _ _

theorem callTool_content (s : Settings) (l : Limits) (d : Desk) (t : Tool) (args : Value) :
    ∃ cs b, (callTool s l d t args).1 = content cs b := by
  cases t with
  | executeCalculation => exact outcomeAnswer_content (calculate l d.engine d.host args).outcome
  | fetchGameData =>
    rw [callTool]
    split
    · exact ⟨_, _, rfl⟩
    · next client _ => exact answer_content (fetchGames client args d.network).1 false

/-- Whether the parameters of a calculation are a snippet and data that may be run. -/
def Accepted (params : Value) : Prop :=
  ∃ (es : Entries) (p : String × Entries), params = .dict es ∧
    check ((es.field? "code").getD .none) (dataOf es) = .ok p

/-- What a client reads of how a calculation ended: the result of a success, if it has a text, and
otherwise the error, with the time if the snippet was accepted. -/
inductive Told (params : Value) (text : List Char) (isError : Bool) :
    Except Failure Outcome → Prop where
  | succeeded (v : Value) (t : Int)
      (result : JsonValue true v → isError = false ∧ Json.read text = .ok
        (Tool.record [("result", v), ("success", .bool true), ("executionTime", .int t)])) :
      Told params text isError (.ok (.succeeded v t))
  | failed (m : String) (t : Int) (accepted : Accepted params) (error : isError = true)
      (report : Json.read text = .ok
        (Tool.record [("error", .str m), ("executionTime", .int t)])) :
      Told params text isError (.ok (.failed m t))
  | rejected (m : String) (refused : ¬ Accepted params) (error : isError = true)
      (report : Json.read text = .ok (Tool.record [("error", .str m)])) :
      Told params text isError (.ok (.rejected m))
  | raised (f : Failure) (error : isError = true)
      (report : Json.read text = .ok (Tool.record [("error", .str f.message)])) :
      Told params text isError (.error f)

/-- The outcome of a calculation has a time exactly if the snippet was accepted. -/
theorem calculate_time {params : Value} {o : Outcome}
    (ho : (calculate l e h params).outcome = .ok o) :
    (¬ Accepted params ∧ ∃ m, o = .rejected m) ∨
      (Accepted params ∧ ∃ t, o.time? = some t ∧ JsonValue true (.int t)) := by
  cases hp : params.entries "get" with
  | error f => simp [calculate, hp] at ho
  | ok es =>
    have hd : params = .dict es := by
      cases params <;> cases hp
      rfl
    subst params
    rw [calculate, hp] at ho
    dsimp only at ho
    cases hc : check ((es.field? "code").getD .none) (dataOf es) with
    | error m =>
      rw [execute_rejected hc] at ho
      cases ho
      refine .inl ⟨?_, _, rfl⟩
      rintro ⟨fs, p, hf, ha⟩
      cases hf
      rw [hc] at ha
      cases ha
    | ok p =>
      rw [execute_accepted hc] at ho
      exact .inr ⟨⟨es, p, rfl, hc⟩, perform_time ho⟩

/-- The answer of a calculation tells how it ended. -/
theorem outcomeAnswer_told (l : Limits) (e : Engine) (h : Host) (params : Value) :
    ∃ cs b, outcomeAnswer (calculate l e h params).outcome = content cs b ∧
      Told params cs b (calculate l e h params).outcome := by
  cases ho : (calculate l e h params).outcome with
  | error f => exact ⟨_, _, rfl, .raised f rfl (errorText_read _)⟩
  | ok o =>
    have hc := calculate_time ho
    cases o with
    | rejected m =>
      obtain ⟨cs, ha, hr⟩ := answer_read (error_json m) true
      rcases hc with ⟨hn, -⟩ | ⟨-, t, ht, -⟩
      · exact ⟨cs, true, ha, .rejected m hn rfl hr⟩
      · cases ht
    | failed m t =>
      rcases hc with ⟨-, n, hn⟩ | ⟨hacc, t', ht, hj⟩
      · cases hn
      · cases ht
        have hv : JsonValue true (Tool.record [("error", .str m), ("executionTime", .int t)]) :=
          record_json (by simp) (by simpa using ⟨.str m, hj⟩)
        obtain ⟨cs, ha, hr⟩ := answer_read hv true
        exact ⟨cs, true, ha, .failed m t hacc rfl hr⟩
    | succeeded v t =>
      rcases hc with ⟨-, n, hn⟩ | ⟨-, t', ht, hj⟩
      · cases hn
      · cases ht
        by_cases hv : JsonValue true v
        · have hv : JsonValue true (Tool.record
              [("result", v), ("success", .bool true), ("executionTime", .int t)]) :=
            record_json (by simp) (by simpa using ⟨hv, .bool true, hj⟩)
          obtain ⟨cs, ha, hr⟩ := answer_read hv false
          exact ⟨cs, false, ha, .succeeded v t fun _ => ⟨rfl, hr⟩⟩
        · obtain ⟨cs, b, ha⟩ := outcomeAnswer_content (.ok (.succeeded v t))
          exact ⟨cs, b, ha, .succeeded v t fun h => absurd h hv⟩

theorem objectValue_json (text : Option String) : JsonValue true (objectValue text) := by
  cases text with
  | none => exact .none
  | some t =>
    rw [objectValue, Option.bind_some, Json.read?]
    cases hr : Json.read t.toList with
    | error f => exact .none
    | ok v => exact read_json hr

theorem number_json (x : Held) : JsonValue true (Given.number x) := by
  unfold Given.number
  split
  · next n hn =>
    rw [Held.integer?] at hn
    split at hn
    · obtain ⟨g, hg, rfl⟩ := Option.map_eq_some_iff.mp hn
      refine .int _ ?_
      rw [Int.natAbs_tdiv]
      exact (Nat.div_le_self _ _).trans_lt (grid?_natAbs hg)
    · cases hn
  · exact .float _ (.inl rfl)

/-- Whatever leaves an interpreter is a value of JSON texts. -/
theorem ofGuest_json {g : Guest} {v : Value}
    (hv : (Reply.ofGiven (.ofGuest g)).result = .ok v) : JsonValue true v := by
  cases g with
  | undefined | null =>
    cases hv
    exact .none
  | bool b =>
    cases hv
    exact .bool b
  | number x =>
    cases hv
    exact number_json x
  | text u =>
    cases hv
    exact .str _
  | _ =>
    cases hv
    exact objectValue_json _

theorem answer_json {p : Program} {v : Value}
    (hv : (Reply.ofAnswer (Language.standard.answer p)).result = .ok v) : JsonValue true v := by
  cases ha : Language.standard.answer p with
  | error m =>
    rw [ha] at hv
    cases hv
  | ok g =>
    rw [ha] at hv
    unfold Language.answer at ha
    split at ha
    · cases ha
    · unfold Language.run at ha
      split at ha
      · cases ha
      · obtain ⟨s, -, rfl⟩ := ok_of_map ha
        exact ofGuest_json hv

theorem ofProgram_json {before : List Program} {p : Program} {v : Value}
    (hv : (Reply.ofProgram .standard before p).result = .ok v) : JsonValue true v := by
  unfold Reply.ofProgram at hv
  split at hv
  · cases hv
  · split at hv
    · cases hv
    · exact answer_json hv

theorem evaluate_program (live : Nat) (code : String) (es : Entries) :
    ∃ before p, (evaluate .interpreter live code es).1 = .ofProgram .standard before p := by
  rw [Engine.interpreter, speaking_reply]
  cases wantsFunction (.ofProgram .standard [] (.ofFields code es .block)) with
  | false => exact ⟨_, _, cond_false _ _⟩
  | true => exact ⟨_, _, cond_true _ _⟩

theorem run_json {code : String} {es : Entries} {v : Value}
    (hv : (run l .interpreter h code es).result = .ok v) : JsonValue true v := by
  rw [run_made rfl] at hv
  dsimp only at hv
  cases hs : l.seconds? with
  | none =>
    rw [evaluateWithin_unlimited hs] at hv
    cases hv
  | some x =>
    obtain ⟨before, p, hp⟩ := evaluate_program (h.live + 1) code es
    rw [(evaluateWithin_limited hs _).1, hp] at hv
    cases hr : (Reply.ofProgram .standard before p).result with
    | error f =>
      rw [hr] at hv
      cases hv
    | ok w =>
      rw [hr] at hv
      cases hv
      exact ofProgram_json hr

/-- The value of every success of an interpreter has a text. -/
theorem succeeded_json {code data v : Value} {t : Int}
    (ho : (execute l .interpreter h code data).outcome = .ok (.succeeded v t)) :
    JsonValue true v := by
  cases hc : check code data with
  | error m =>
    rw [execute_rejected hc] at ho
    cases ho
  | ok p =>
    rw [execute_accepted hc] at ho
    cases hl : h.loader.load with
    | mk r ld =>
      cases r with
      | error f =>
        rw [perform_unloaded hl] at ho
        obtain ⟨u, -, he⟩ := ok_of_bind ho
        obtain ⟨m, -, hm⟩ := ok_of_map he
        cases hm
      | ok u =>
        rw [perform_loaded hl] at ho
        obtain ⟨u, -, he⟩ := ok_of_bind ho
        cases hr : (run l .interpreter (readyHost h ld) p.1 p.2).result with
        | error f =>
          rw [hr] at he
          obtain ⟨m, -, hm⟩ := ok_of_map he
          cases hm
        | ok w =>
          rw [hr, conclude] at he
          split at he
          · cases he
          · cases he
            exact run_json hr

variable {s : Settings} {d d' : Desk} {name args params v : Value}

/-- A call that answers is the call of an enabled tool, or its arguments could not be read. -/
theorem call_ok (hc : call s l d name args = (.ok v, d')) :
    (∃ e, readArguments args = .error e ∧
      v = errorContent ("Invalid JSON args: " ++ e.message)) ∨
    ∃ params t, readArguments args = .ok params ∧ Tool.ofName? name = some t ∧
      toolEnabled s name = .ok true ∧ (v, d') = callTool s l d t params := by
  unfold call at hc
  cases ha : readArguments args with
  | error e =>
    simp only [ha, Prod.mk.injEq, Except.ok.injEq] at hc
    exact .inl ⟨e, rfl, hc.1.symm⟩
  | ok params =>
    simp only [ha] at hc
    cases he : toolEnabled s name with
    | error f => simp [he] at hc
    | ok b =>
      simp only [he] at hc
      cases ht : Tool.ofName? name with
      | none => simp [ht] at hc
      | some t =>
        simp only [ht] at hc
        cases b with
        | false => simp at hc
        | true =>
          simp only [↓reduceIte, Prod.mk.injEq, Except.ok.injEq] at hc
          exact .inr ⟨params, t, rfl, rfl, rfl, by rw [← hc.1, ← hc.2]⟩

theorem call_enabled {t : Tool} (ha : readArguments args = .ok params)
    (he : toolEnabled s name = .ok true) (ht : Tool.ofName? name = some t) :
    call s l d name args = (.ok (callTool s l d t params).1, (callTool s l d t params).2) := by
  simp [call, ha, he, ht]

theorem ofName?_name (t : Tool) : Tool.ofName? (.str t.name) = some t := by
  cases t <;> decide +kernel

/-- Every call that answers gives one text item. -/
theorem call_content (hc : call s l d name args = (.ok v, d')) :
    ∃ text isError, v = content text isError := by
  rcases call_ok hc with ⟨e, -, rfl⟩ | ⟨params, t, -, -, -, hv⟩
  · exact ⟨_, _, rfl⟩
  · rw [Prod.ext_iff] at hv
    obtain ⟨rfl, -⟩ := hv
    exact callTool_content s l d t params

/-- Every call that answers gives one text item, and that of a calculation tells a client how it
ended. -/
theorem call_told (hc : call s l d name args = (.ok v, d')) :
    ∃ text isError, v = content text isError ∧
      ∀ params, readArguments args = .ok params → name = .str Tool.executeCalculation.name →
        Told params text isError (calculate l d.engine d.host params).outcome := by
  rcases call_ok hc with ⟨e, he, rfl⟩ | ⟨params, t, hp, ht, -, hv⟩
  · refine ⟨_, _, rfl, fun params hp => ?_⟩
    rw [he] at hp
    cases hp
  · rw [Prod.ext_iff] at hv
    obtain ⟨rfl, -⟩ := hv
    cases t with
    | fetchGameData =>
      obtain ⟨cs, b, ha⟩ := callTool_content s l d .fetchGameData params
      refine ⟨cs, b, ha, ?_⟩
      rintro _ - rfl
      rw [ofName?_name] at ht
      cases ht
    | executeCalculation =>
      obtain ⟨cs, b, ha, htold⟩ := outcomeAnswer_told l d.engine d.host params
      refine ⟨cs, b, ha, fun ps hps _ => ?_⟩
      rw [hp] at hps
      cases hps
      exact htold

def smile : Value := .str (String.ofList ['\n', '😀'])

/-- A desk whose engine answers once, with that text. -/
def smileDesk : Desk := ⟨Timely.stillHost, .scripted none [.value smile], default, []⟩

/-- A text with a line end and a character beyond the basic plane is told as it is. -/
theorem smile_told :
    ∃ v d' text t,
      call default .default smileDesk (.str "execute_calculation")
          (.dict [(.str "code", .str "1")]) = (.ok v, d') ∧
        v = content text false ∧
        Json.read text = .ok (Tool.record [("result", smile),
          ("success", .bool true), ("executionTime", .int t)]) := by
  have hk : check (.str "1") (.dict []) = .ok ("1", []) := by
    rw [Acceptance.check_ok_iff]
    exact ⟨rfl, by decide +kernel, .inr rfl, by simp⟩
  obtain ⟨x, hx⟩ : ∃ x, Limits.default.seconds? = some x := ⟨_, if_pos (by decide +kernel)⟩
  have ha : readArguments (.dict [(.str "code", .str "1")]) =
      .ok (.dict [(.str "code", .str "1")]) := rfl
  have hc := call_enabled (s := default) (l := .default) (d := smileDesk) ha rfl
    (ofName?_name .executeCalculation)
  obtain ⟨ld, t, ho⟩ := Timely.execute_inTime (l := .default)
    (e := smileDesk.engine) hk Timely.stillHost_inTime
  have hr : (run .default smileDesk.engine (readyHost Timely.stillHost ld) "1" []).result =
      .ok smile := by
    rw [run_made rfl]
    dsimp only
    rw [(evaluateWithin_limited hx _).1]
    rfl
  have hcalc : (calculate .default smileDesk.engine smileDesk.host
      (.dict [(.str "code", .str "1")])).outcome = .ok (.succeeded smile t) := by
    have he : (calculate .default smileDesk.engine smileDesk.host
        (.dict [(.str "code", .str "1")])) =
          execute .default smileDesk.engine Timely.stillHost (.str "1") (.dict []) := rfl
    rw [he, ho, hr]
    rfl
  obtain ⟨text, b, hv, ht⟩ := call_told hc
  have hd := ht (.dict [(.str "code", .str "1")]) ha
  rw [hcalc] at hd
  cases hd rfl with
  | succeeded _ _ hres =>
    obtain ⟨rfl, hj⟩ := hres (.str _)
    exact ⟨_, _, text, t, hc, hv, hj⟩

end Reckoner.Proofs.Contents
