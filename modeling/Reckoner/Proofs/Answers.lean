import Reckoner.Proofs.ByteTexts
import Reckoner.Proofs.Dispatch
import Reckoner.Service.Http

namespace Reckoner.Proofs.Answers
open Session Tools Service Crossing JsonValues Contents Dispatch ByteTexts Results

/-- Settings of the types that they are declared with. -/
structure Declared (s : Settings) : Prop where
  serverName : ∃ t, s.serverName = .str t
  serverVersion : ∃ t, s.serverVersion = .str t
  catalogueKey : ∃ t, s.catalogueKey = .str t
  catalogueUrl : ∃ t, s.catalogueUrl = .str t
  catalogueTimeout : ∃ n, s.catalogueTimeout = .int n
  logsDir : ∃ t, s.logsDir = .str t
  logLevel : ∃ t, s.logLevel = .str t
  logToFile : ∃ b, s.logToFile = .bool b
  enabledTools : NamesTools s

/-- Settings that an environment gives are of their declared types. -/
theorem ofEnvironment_declared {env : Environment} {s : Settings}
    (h : Settings.ofEnvironment env = .ok s) : Declared s := by
  obtain ⟨n, -, rfl⟩ := ok_of_map h
  exact ⟨⟨_, rfl⟩, ⟨_, rfl⟩, ⟨_, rfl⟩, ⟨_, rfl⟩, ⟨_, rfl⟩, ⟨_, rfl⟩, ⟨_, rfl⟩, ⟨_, rfl⟩,
    ⟨_, .inl rfl⟩⟩

variable {s : Settings} {l : Limits} {d : Desk}

theorem content_json (text : List Char) (isError : Bool) :
    JsonValue false (content text isError) := by
  have hi : JsonValue false (Tool.record
      [("type", .str "text"), ("text", .str (String.ofList text))]) :=
    record_json (by simp) (by simpa using ⟨.str _, .str _⟩)
  exact record_json (by simp) (by simpa using ⟨.list _ (by simpa using hi), .bool _⟩)

theorem introduction_json (hs : Declared s) : JsonValue false (introduction s) := by
  obtain ⟨n, hn⟩ := hs.serverName
  obtain ⟨v, hv⟩ := hs.serverVersion
  have hi : JsonValue false (Tool.record [("name", s.serverName), ("version", s.serverVersion)]) :=
    record_json (by simp) (by simpa [hn, hv] using ⟨.str n, .str v⟩)
  have hc : JsonValue false (Tool.record [("tools", .dict [])]) :=
    record_json (by simp) (by simpa using .dict [] (by simp) (by simp))
  exact record_json (by simp) (by simpa using ⟨.str _, hi, hc⟩)

theorem textArgument_json (description : String) :
    JsonValue false (Tool.textArgument description) :=
  record_json (by simp) (by simpa using ⟨.str _, .str _⟩)

theorem inputSchema_json (t : Tool) : JsonValue false t.inputSchema := by
  have ho : JsonValue false (.str "object") := .str _
  cases t with
  | fetchGameData =>
    have hsize : JsonValue false (Tool.record
        [("type", .str "number"), ("description", .str "Number of results per page (max 40)"),
          ("minimum", .int 1), ("maximum", .int Catalogue.maxPageSize)]) :=
      record_json (by simp) (by
        simpa using ⟨.str _, .str _, .small (k := 1) (by decide) (by decide),
          .small (k := 6) (by decide) (by decide)⟩)
    have hp : JsonValue false Tool.catalogueArguments :=
      record_json (by simp) (by
        simpa using ⟨textArgument_json _, textArgument_json _, textArgument_json _,
          textArgument_json _, hsize⟩)
    exact record_json (by simp) (by simpa using ⟨ho, hp⟩)
  | executeCalculation =>
    have hdata : JsonValue false (Tool.record
        [("type", .str "object"),
          ("description", .str "Data to make available to the code execution context")]) :=
      record_json (by simp) (by simpa using ⟨ho, .str _⟩)
    have hp : JsonValue false Tool.calculationArguments :=
      record_json (by simp) (by simpa using ⟨textArgument_json _, hdata⟩)
    have hr : JsonValue false (.list [.str "code", .str "data"]) :=
      .list _ (by simpa using ⟨.str _, .str _⟩)
    exact record_json (by simp) (by simpa using ⟨ho, hp, hr⟩)

theorem descriptor_json (t : Tool) : JsonValue false t.descriptor :=
  record_json (by simp) (by simpa using ⟨.str _, .str _, inputSchema_json t⟩)

theorem listing_ok (hs : NamesTools s) : ∃ v, listing s = .ok v ∧ JsonValue false v := by
  obtain ⟨ts, hts, -⟩ := enabledTools_ok hs
  refine ⟨_, by rw [listing, hts]; rfl, record_json (by simp) ?_⟩
  have hl : JsonValue false (.list (ts.map Tool.descriptor)) :=
    .list _ (by simpa using fun t _ => descriptor_json t)
  simpa using hl

/-- An identifier that is answered as it is: an integer, a text or nothing. -/
def Echoed (v : Value) : Prop := (∃ n, v = .int n) ∨ (∃ t, v = .str t) ∨ v = .none

theorem Echoed.readId {v : Value} (h : Echoed v) : readId v = some v := by
  rcases h with ⟨n, rfl⟩ | ⟨t, rfl⟩ | rfl <;> rfl

theorem readId_json {v w : Value} (hv : JsonValue true v) (h : readId v = some w) :
    JsonValue false w := by
  cases hv with
  | none =>
    cases h
    exact .none
  | int n hn =>
    cases h
    exact .int n hn
  | str t =>
    cases h
    exact .str t
  | bool b =>
    cases h
    cases b
    · exact .small (k := 1) (by decide) (by decide)
    · exact .small (k := 1) (by decide) (by decide)
  | float x =>
    rw [Service.readId] at h
    split at h
    · split at h
      · next n _ hb =>
        cases h
        have hl : idLimit = 2 ^ 63 := rfl
        simp only [Bool.and_eq_true, decide_eq_true_eq] at hb
        exact .small (k := 63) (by omega) (by decide)
      · cases h
    · cases h
  | list vs => cases h
  | dict ms => cases h

/-- The identifier of a request that was read has a text. -/
theorem id_json {cs : List Char} {v : Value} {env : Envelope} (hr : Json.read cs = .ok v)
    (h : Envelope.ofValue? v = some env) : JsonValue false env.id := by
  obtain ⟨es, rfl, hid, -⟩ := ofValue?_some h
  refine readId_json ?_ hid
  have he := JsonEntries.of_value (read_json hr)
  cases hf : Entries.field? "id" es with
  | none =>
    rw [requestId, hf]
    exact .none
  | some w =>
    rw [requestId, hf]
    exact field?_json he hf

def errorCode? (es : Entries) : Option Value :=
  match es.field? "error" with
  | some (.dict fs) => Entries.field? "code" fs
  | _ => none

/-- An answer to a request: either a result or an error, with a status that tells which. -/
structure WellFormed (status : Nat) (es : Entries) : Prop where
  version : es.field? "jsonrpc" = some (.str "2.0")
  exclusive : (es.field? "result").isSome = !(es.field? "error").isSome
  answered : status = 200 ↔ (es.field? "result").isSome = true
  unread : status = 500 ↔ errorCode? es = some (.int (-32700))
  unknown : status = 404 ↔ errorCode? es = some (.int (-32601))
  refused : status = 400 ↔
    errorCode? es = some (.int (-32600)) ∨ errorCode? es = some (.int (-32602))

def Unread (a : Answer) : Prop := ∃ m, a.body = .error (.parse m)

theorem toValue_wellFormed (a : Answer) :
    ∃ es : Entries, a.toValue = .dict es ∧ WellFormed a.status es ∧ es.field? "id" = some a.id ∧
      (errorCode? es = some (.int (-32700)) ↔ Unread a) := by
  obtain ⟨id, body⟩ := a
  cases body with
  | ok v =>
    refine ⟨textKeyed [("jsonrpc", .str "2.0"), ("id", id), ("result", v)], rfl, ?_, ?_, ?_⟩
    · constructor <;> simp [field?_textKeyed, List.lookup_cons, errorCode?, Answer.status]
    · simp [field?_textKeyed, List.lookup_cons]
    · simp [field?_textKeyed, List.lookup_cons, errorCode?, Unread]
  | error e =>
    have hc : errorCode? (textKeyed [("jsonrpc", .str "2.0"), ("id", id),
        ("error", Tool.record [("code", .int e.code), ("message", .str e.message)])]) =
          some (.int e.code) := by
      simp only [errorCode?, field?_textKeyed]
      exact field?_textKeyed "code" [("code", .int e.code), ("message", .str e.message)]
    refine ⟨textKeyed [("jsonrpc", .str "2.0"), ("id", id),
      ("error", Tool.record [("code", .int e.code), ("message", .str e.message)])], rfl, ?_, ?_, ?_⟩
    · constructor
      · simp [field?_textKeyed]
      · simp [field?_textKeyed, List.lookup_cons]
      · cases e <;> simp [field?_textKeyed, List.lookup_cons, Answer.status, RpcError.status]
      all_goals
        rw [hc]
        cases e <;> simp [Answer.status, RpcError.status, RpcError.code]
    · simp [field?_textKeyed, List.lookup_cons]
    · rw [hc]
      cases e <;> simp [Unread, RpcError.code]

/-- What a request may be answered with: a result that has a text, or an error. -/
inductive Answerable : Except RpcError Value → Prop where
  | result (v : Value) (text : JsonValue false v) : Answerable (.ok v)
  | error (e : RpcError) : Answerable (.error e)

theorem code_json (e : RpcError) : JsonValue false (.int e.code) := by
  refine .small (k := 15) ?_ (by decide)
  cases e <;> simp [RpcError.code]

/-- An answer has a text when its identifier has one and its body is answerable. -/
theorem toValue_json {id : Value} {body : Except RpcError Value} (hid : JsonValue false id)
    (hb : Answerable body) : JsonValue false (Answer.mk id body).toValue := by
  cases hb with
  | result v hv => exact record_json (by simp) (by simpa using ⟨.str _, hid, hv⟩)
  | error e =>
    have he : JsonValue false (Tool.record [("code", .int e.code), ("message", .str e.message)]) :=
      record_json (by simp) (by simpa using ⟨code_json e, .str _⟩)
    exact record_json (by simp) (by simpa using ⟨.str _, hid, he⟩)

def IsRead (b : Except RpcError Value) : Prop := ∀ m, b ≠ .error (.parse m)

/-- Every method is answered, whatever is raised on the way, when the parameters are those of a JSON
text. -/
theorem dispatch_answers (hs : Declared s) (l : Limits) (d : Desk) (method : String)
    {params : Entries} (hp : JsonEntries params) :
    ∃ b d', dispatch s l d method params = (.ok b, d') ∧ Answerable b ∧ IsRead b := by
  unfold dispatch
  split
  · exact ⟨_, d, rfl, .result _ (introduction_json hs), by simp [IsRead]⟩
  split
  · obtain ⟨w, hw, hj⟩ := listing_ok hs.enabledTools
    exact ⟨.ok w, d, by rw [hw]; rfl, .result w hj, by simp [IsRead]⟩
  split
  · unfold callNamed
    dsimp only
    rcases call_ends hs.enabledTools l d (calledName params) (calledArguments params) with
      ⟨-, -, hc⟩ | ⟨-, v, d', hc⟩
    · rw [calledArguments, unknownTool_shown (calledName_hasText hp)] at hc
      exact ⟨_, _, by rw [hc], .error _, by simp [IsRead]⟩
    · obtain ⟨text, b, rfl⟩ := call_content hc
      rw [calledArguments] at hc
      exact ⟨_, _, by rw [hc], .result _ (content_json text b), by simp [IsRead]⟩
  · exact ⟨_, d, rfl, .error _, by simp [IsRead]⟩

/-- A body is a text in UTF-8 that is JSON. -/
def IsJson (body : List UInt8) (v : Value) : Prop :=
  ∃ cs : List Char, body = cs.flatMap String.utf8EncodeChar ∧ Json.read cs = .ok v

theorem readBody_ok_iff {body : List UInt8} {v : Value} :
    readBody body = .ok v ↔ IsJson body v := by
  unfold readBody IsJson
  simp only [← decode_ok_iff]
  cases hd : Text.Utf8.decode body with
  | error e => simp
  | ok cs =>
    simp only [Except.ok.injEq, exists_eq_left']
    cases Json.read cs with
    | error e => simp [Except.mapError]
    | ok w => simp [Except.mapError]

theorem readBody_error {body : List UInt8} {e : RpcError} (h : readBody body = .error e) :
    ∃ m, e = .parse m := by
  unfold readBody at h
  split at h
  · cases h
    exact ⟨_, rfl⟩
  · next cs _ =>
    cases hr : Json.read cs with
    | error f =>
      rw [hr] at h
      cases h
      exact ⟨_, rfl⟩
    | ok v =>
      rw [hr] at h
      cases h

/-- A valid envelope is answered under its identifier. -/
theorem respond_envelope (hs : Declared s) (l : Limits) (d : Desk) {body : List UInt8} {v : Value}
    {env : Envelope} (hr : readBody body = .ok v) (he : Envelope.ofValue? v = some env) :
    ∃ b d', respond s l d body = (.ok ⟨env.id, b⟩, d') ∧ Answerable b ∧ IsRead b := by
  have hi : IsRead (.error .invalid) := by simp [IsRead]
  unfold respond
  simp only [hr, he]
  split
  · exact ⟨_, d, rfl, .error _, hi⟩
  · exact ⟨_, d, rfl, .error _, hi⟩
  · next method _ _ =>
    obtain ⟨cs, -, hcs⟩ := readBody_ok_iff.mp hr
    obtain ⟨b, d', hd, ha, hb⟩ := dispatch_answers hs l d method (params_json (read_json hcs) he)
    rw [hd]
    exact ⟨b, d', rfl, ha, hb⟩

/-- Every body is answered, and the answer has a text. It says that the body could not be read only
if it is no JSON, and it is addressed to the identifier of a valid envelope. -/
theorem respond_answers (hs : Declared s) (l : Limits) (d : Desk) (body : List UInt8) :
    ∃ a d', respond s l d body = (.ok a, d') ∧ JsonValue false a.toValue ∧
      (Unread a ↔ ¬ ∃ v, IsJson body v) ∧
      ∀ v env, IsJson body v → Envelope.ofValue? v = some env → a.id = env.id := by
  cases hr : readBody body with
  | error e =>
    obtain ⟨m, rfl⟩ := readBody_error hr
    have hn : ∀ v, ¬ IsJson body v := by
      intro v hv
      rw [readBody_ok_iff.mpr hv] at hr
      cases hr
    refine ⟨_, d, by rw [respond, hr], toValue_json .none (.error _), ?_, ?_⟩
    · simp [Unread, hn]
    · exact fun v env hv => absurd hv (hn v)
  | ok v =>
    have hv := readBody_ok_iff.mp hr
    have hu : ∀ w, IsJson body w → w = v := by
      intro w hw
      rw [readBody_ok_iff.mpr hw] at hr
      cases hr
      rfl
    cases he : Envelope.ofValue? v with
    | none =>
      refine ⟨⟨.none, .error .invalid⟩, d, by rw [respond, hr]; simp only [he],
        toValue_json .none (.error _), ?_, ?_⟩
      · simpa [Unread] using ⟨v, hv⟩
      · intro w env hw hw'
        rw [hu w hw, he] at hw'
        cases hw'
    | some env =>
      obtain ⟨b, d', hd, ha, hb⟩ := respond_envelope hs l d hr he
      obtain ⟨cs, -, hcs⟩ := id hv
      refine ⟨_, d', hd, toValue_json (id_json hcs he) ha, ?_, ?_⟩
      · have hn : ¬ Unread ⟨env.id, b⟩ := by
          rintro ⟨m, hm⟩
          exact hb m hm
        simpa [hn] using ⟨v, hv⟩
      · intro w env' hw hw'
        rw [hu w hw, he] at hw'
        cases hw'
        rfl

def plainSettings : Settings :=
  ⟨.str "game-analytics-mcp", .str "1.0.0", .str "", .str "https://api.rawg.io/api", .int 12,
    .str "logs", .str "INFO", .bool true, .tuple [.str "*"]⟩

theorem plainSettings_declared : Declared plainSettings :=
  ⟨⟨_, rfl⟩, ⟨_, rfl⟩, ⟨_, rfl⟩, ⟨_, rfl⟩, ⟨_, rfl⟩, ⟨_, rfl⟩, ⟨_, rfl⟩, ⟨_, rfl⟩,
    ⟨["*"], .inl rfl⟩⟩

theorem empty_not_json (v : Value) : ¬ IsJson [] v := by
  rintro ⟨cs, hb, hr⟩
  have hd : Text.Utf8.decode [] = .ok cs := decode_ok_iff.mpr hb
  rw [show Text.Utf8.decode [] = .ok [] from decode_ok_iff.mpr rfl, Except.ok.injEq] at hd
  subst cs
  cases hr

end Reckoner.Proofs.Answers
