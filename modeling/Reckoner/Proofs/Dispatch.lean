import Reckoner.Proofs.Contents
import Reckoner.Proofs.Scopes
import Reckoner.Service.Rpc

namespace Reckoner.Proofs.Dispatch
open Session Tools Service JsonValues Contents Scopes Catalogue

/-- Settings that name the enabled tools in a list or a tuple of texts. -/
def NamesTools (s : Settings) : Prop :=
  ∃ ns : List String, s.enabledTools = .tuple (ns.map .str) ∨ s.enabledTools = .list (ns.map .str)

/-- A name is that of a descriptor in the listing of the tools. -/
def Listed (s : Settings) (name : Value) : Prop :=
  ∃ ts, enabledTools s = .ok ts ∧
    ∃ t ∈ ts, ∃ es : Entries, t.descriptor = .dict es ∧ es.field? "name" = some name

/-- Arguments that are a text which is not empty and no JSON. -/
def Broken (args : Value) : Prop :=
  ∃ t e, args = .str t ∧ t ≠ "" ∧ Json.read t.toList = .error e

variable {s : Settings}

theorem toolEnabled_ok (hs : NamesTools s) (name : Value) : ∃ b, toolEnabled s name = .ok b := by
  unfold toolEnabled
  split
  · exact ⟨true, rfl⟩
  · obtain ⟨ns, h | h⟩ := hs
    · exact ⟨_, by rw [h]; rfl⟩
    · exact ⟨_, by rw [h]; rfl⟩

theorem filterAuxM_ok {α : Type} {f : α → Except Failure Bool} {b : α → Bool} {xs : List α}
    (h : ∀ x ∈ xs, f x = .ok (b x)) (acc : List α) :
    List.filterAuxM f xs acc = .ok ((xs.filter b).reverse ++ acc) := by
  induction xs generalizing acc with
  | nil => rfl
  | cons x xs ih =>
    have hx := h x List.mem_cons_self
    have hxs := fun acc => ih (fun y hy => h y (List.mem_cons_of_mem _ hy)) acc
    rw [List.filterAuxM, hx]
    cases hb : b x with
    | false => simpa [bind, Except.bind, hb] using hxs acc
    | true => simpa [bind, Except.bind, hb] using hxs (x :: acc)

/-- The tools that are listed are those that are enabled. -/
theorem enabledTools_ok (hs : NamesTools s) :
    ∃ ts, enabledTools s = .ok ts ∧
      ∀ t, t ∈ ts ↔ toolEnabled s (.str t.name) = .ok true := by
  choose b hb using toolEnabled_ok hs
  have hf := filterAuxM_ok (f := fun t : Tool => toolEnabled s (.str t.name))
    (b := fun t => b (.str t.name)) (fun t (_ : t ∈ Tool.all) => hb _) []
  refine ⟨Tool.all.filter fun t => b (.str t.name), ?_, ?_⟩
  · rw [enabledTools, List.filterM, hf]
    simp [bind, Except.bind, pure, Except.pure]
  · intro t
    have hm : t ∈ Tool.all := by cases t <;> decide
    simp [hm, hb]

/-- A tool is found by its name and by no other. -/
theorem ofName?_eq_some_iff {name : Value} {t : Tool} :
    Tool.ofName? name = some t ↔ name = .str t.name := by
  constructor
  · intro h
    exact same_text.mp (by simpa using List.find?_some h)
  · rintro rfl
    exact ofName?_name t

/-- A name is listed when an enabled tool is found by it. -/
theorem listed_iff (hs : NamesTools s) (name : Value) :
    Listed s name ↔ ∃ t, Tool.ofName? name = some t ∧ toolEnabled s name = .ok true := by
  obtain ⟨ts, hts, hm⟩ := enabledTools_ok hs
  have hd : ∀ t : Tool, ∃ es : Entries, t.descriptor = .dict es ∧
      es.field? "name" = some (.str t.name) := by
    intro t
    refine ⟨_, rfl, ?_⟩
    simp
  constructor
  · rintro ⟨us, hus, t, ht, es, he, hn⟩
    rw [hts] at hus
    cases hus
    obtain ⟨fs, hf, hfn⟩ := hd t
    rw [hf] at he
    cases he
    rw [hfn] at hn
    cases hn
    exact ⟨t, ofName?_eq_some_iff.mpr rfl, (hm t).mp ht⟩
  · rintro ⟨t, ht, he⟩
    obtain rfl := ofName?_eq_some_iff.mp ht
    obtain ⟨fs, hf, hfn⟩ := hd t
    exact ⟨ts, hts, t, (hm t).mpr he, fs, hf, hfn⟩

/-- Only a text that is no JSON keeps arguments from being read. -/
theorem broken_iff (args : Value) : Broken args ↔ ∃ e, readArguments args = .error e := by
  constructor
  · rintro ⟨t, e, rfl, hne, he⟩
    refine ⟨e, ?_⟩
    rw [readArguments, if_neg (by simpa using hne), he]
  · rintro ⟨e, he⟩
    cases args with
    | str t =>
      by_cases ht : t = ""
      · subst t
        have hr : Json.read ['\x7b', '\x7d'] = .ok (.dict []) :=
          (@JsonTexts.dict_text .compact 0 [] (by simp)).whole
        have hrr : readArguments (.str "") = Json.read ['\x7b', '\x7d'] := rfl
        rw [hrr, hr] at he
        cases he
      · rw [readArguments, if_neg (by simpa using ht)] at he
        exact ⟨t, e, rfl, ht, he⟩
    | _ => cases he

variable {l : Limits} {d : Desk} {name args : Value}

theorem call_broken {e : Json.Error} (he : readArguments args = .error e) :
    call s l d name args = (.ok (errorContent ("Invalid JSON args: " ++ e.message)), d) := by
  rw [call, he]

theorem call_unlisted (hs : NamesTools s) (ha : ¬ Broken args) (hn : ¬ Listed s name) :
    call s l d name args = (.error (unknownTool name), d) := by
  rw [broken_iff, not_exists] at ha
  rw [listed_iff hs, not_exists] at hn
  obtain ⟨b, hb⟩ := toolEnabled_ok hs name
  unfold call
  cases hr : readArguments args with
  | error e => exact absurd hr (ha e)
  | ok params =>
    cases ht : Tool.ofName? name with
    | none => simp [hb]
    | some t =>
      cases b with
      | false => simp [hb]
      | true => exact absurd ⟨ht, hb⟩ (hn t)

theorem call_listed (hs : NamesTools s) (ha : ¬ Broken args) (hn : Listed s name) :
    ∃ v d', call s l d name args = (.ok v, d') := by
  rw [broken_iff, not_exists] at ha
  obtain ⟨t, ht, he⟩ := (listed_iff hs name).mp hn
  cases hr : readArguments args with
  | error e => exact absurd hr (ha e)
  | ok params => exact ⟨_, _, call_enabled hr he ht⟩

/-- How a call ends: its tool is unknown, or there is an answer. -/
theorem call_ends (hs : NamesTools s) (l : Limits) (d : Desk) (name args : Value) :
    (¬ Broken args ∧ ¬ Listed s name ∧ call s l d name args = (.error (unknownTool name), d)) ∨
      ((Broken args ∨ Listed s name) ∧ ∃ v d', call s l d name args = (.ok v, d')) := by
  by_cases ha : Broken args
  · obtain ⟨e, he⟩ := (broken_iff args).mp ha
    exact .inr ⟨.inl ha, _, _, call_broken he⟩
  · by_cases hn : Listed s name
    · exact .inr ⟨.inr hn, call_listed hs ha hn⟩
    · exact .inl ⟨ha, hn, call_unlisted hs ha hn⟩

/-- A listed name is that of a tool, and has a text like all of these. -/
theorem Listed.hasText (hs : NamesTools s) (hn : Listed s name) : name.hasText = true := by
  obtain ⟨t, ht, -⟩ := (listed_iff hs name).mp hn
  rw [ofName?_eq_some_iff.mp ht]
  rfl

theorem unknownTool_shown (ht : name.hasText = true) :
    unknownTool name = .unknownTool (String.ofList name.text) := by
  rw [unknownTool, if_pos ht]

theorem unknownTool_unshown (ht : name.hasText = false) :
    unknownTool name = .tooManyDigits none := by
  rw [unknownTool, ht, if_neg Bool.false_ne_true]

def requestId (es : Entries) : Value := (es.field? "id").getD .none

/-- What a valid envelope is made of. -/
theorem ofValue?_some {v : Value} {env : Envelope} (h : Envelope.ofValue? v = some env) :
    ∃ es : Entries, v = .dict es ∧ readId (requestId es) = some env.id ∧
      readObject ((es.field? "params").getD (.dict [])) = some env.params := by
  cases v with
  | dict es =>
    refine ⟨es, rfl, ?_⟩
    rw [Envelope.ofValue?, readObject, Option.bind_eq_bind, Option.bind_some] at h
    change (readId (requestId es)).bind _ = _ at h
    obtain ⟨id, hid, h⟩ := Option.bind_eq_some_iff.mp h
    obtain ⟨method, -, h⟩ := Option.bind_eq_some_iff.mp h
    obtain ⟨params, hparams, h⟩ := Option.bind_eq_some_iff.mp h
    split at h
    · cases h
      exact ⟨hid, hparams⟩
    · cases h
  | _ => cases h

/-- The parameters of a request are those of a JSON text. -/
theorem params_json {v : Value} {env : Envelope} (hv : JsonValue true v)
    (he : Envelope.ofValue? v = some env) : JsonEntries env.params := by
  obtain ⟨es, rfl, -, hp⟩ := ofValue?_some he
  cases hf : es.field? "params" with
  | none =>
    rw [hf] at hp
    rw [← Option.some.inj hp]
    exact jsonEntries_nil
  | some w =>
    have hw := field?_json (JsonEntries.of_value hv) hf
    rw [hf, Option.getD_some] at hp
    cases w with
    | dict fs =>
      rw [← Option.some.inj hp]
      exact JsonEntries.of_value hw
    | _ => cases hp

/-- And so the name in them has a text. -/
theorem calledName_hasText {params : Entries} (h : JsonEntries params) :
    (calledName params).hasText = true := by
  have ho : ∀ k w, w.hasText = true → (orElse (parameter params k) w).hasText = true := by
    intro k w hw
    unfold orElse
    split
    · rw [parameter]
      cases hf : params.field? k with
      | none => rfl
      | some v => exact json_hasText (field?_json h hf)
    · exact hw
  exact ho "name" _ (ho "tool" _ rfl)

def calledArguments (params : Entries) : Value :=
  orElse (parameter params "arguments") (.dict [])

/-- A body asks for a method with parameters. -/
def Asks (body : List UInt8) (method : String) (params : Entries) : Prop :=
  ∃ v env, readBody body = .ok v ∧ Envelope.ofValue? v = some env ∧
    env.method = some method ∧ env.params = params

def code? (a : Answer) : Option Int :=
  match a.body with
  | .ok _ => none
  | .error e => some e.code

theorem respond_asks {body : List UInt8} {method : String} {params : Entries}
    (h : Asks body method params) (hm : method ≠ "") :
    ∃ id, respond s l d body =
      ((dispatch s l d method params).1.map (⟨id, ·⟩), (dispatch s l d method params).2) := by
  obtain ⟨v, env, hr, he, hmeth, rfl⟩ := h
  refine ⟨env.id, ?_⟩
  rw [respond, hr]
  simp only [he, hmeth]

/-- A body that is read is decoded as a JSON text. -/
theorem readBody_ok {body : List UInt8} {v : Value} (h : Service.readBody body = .ok v) :
    ∃ cs, Text.Utf8.decode body = .ok cs ∧ Json.read cs = .ok v := by
  unfold Service.readBody at h
  cases hd : Text.Utf8.decode body with
  | error e =>
    rw [hd] at h
    cases h
  | ok cs =>
    rw [hd] at h
    cases hj : Json.read cs with
    | error e => simp [hj, Except.mapError] at h
    | ok w => exact ⟨cs, rfl, by simpa [hj, Except.mapError] using h⟩

theorem asks_json {body : List UInt8} {method : String} {params : Entries}
    (h : Asks body method params) : JsonEntries params := by
  obtain ⟨v, env, hr, he, -, rfl⟩ := h
  obtain ⟨cs, -, hj⟩ := readBody_ok hr
  exact params_json (read_json hj) he

theorem dispatch_call (params : Entries) :
    dispatch s l d "tools/call" params = callNamed s l d params := by
  have h1 : ¬ "tools/call" = "initialize" := by decide
  have h2 : ¬ "tools/call" = "tools/list" := by decide
  rw [dispatch, if_neg h1, if_neg h2, if_pos rfl]

/-- A request for a tool ends with an error code exactly when the tool is unknown. -/
theorem callNamed_ends (hs : NamesTools s) (l : Limits) (d : Desk) {params : Entries}
    (hp : JsonEntries params) :
    (¬ Broken (calledArguments params) ∧ ¬ Listed s (calledName params) ∧
        ∃ m, (callNamed s l d params).1 = .ok (.error (.params m))) ∨
      ((Broken (calledArguments params) ∨ Listed s (calledName params)) ∧
        ∃ v, (callNamed s l d params).1 = .ok (.ok v)) := by
  have he : orElse (parameter params "arguments") (.dict []) = calledArguments params := rfl
  rcases call_ends hs l d (calledName params) (calledArguments params) with
    ⟨ha, hn, hc⟩ | ⟨hor, v, d', hc⟩
  · refine .inl ⟨ha, hn, ?_⟩
    rw [unknownTool_shown (calledName_hasText hp)] at hc
    simp only [callNamed, he, hc]
    exact ⟨_, rfl⟩
  · refine .inr ⟨hor, v, ?_⟩
    simp only [callNamed, he, hc]

/-- Whether no escape of a text is half of a pair on its own. -/
def isPaired : List Char → Bool
  | [] => true
  | '\\' :: 'u' :: a :: b :: c :: d :: more =>
    match Json.hexFour? a b c d, more with
    | some n, '\\' :: 'u' :: e :: f :: g :: h :: after =>
      if Json.isHigh n then (Json.hexFour? e f g h).any Json.isLow && isPaired after
      else !Json.isLow n && isPaired ('\\' :: 'u' :: e :: f :: g :: h :: after)
    | some n, more => !Json.isHigh n && !Json.isLow n && isPaired more
    | none, more => isPaired more
  | '\\' :: _ :: rest => isPaired rest
  | _ :: rest => isPaired rest

example : isPaired "[\"\\ud83d\\ude00\", \"\\\\ud800\"]".toList = true := by decide +kernel

/-- A body without halves of pairs, which no answer could be written with. -/
def Paired (body : List UInt8) : Prop :=
  ∀ cs, Text.Utf8.decode body = .ok cs → isPaired cs = true

/-- A call fails for want of its tool exactly when its name is not listed, its arguments are not
broken, and the name can be shown; one that cannot be shown fails for that, and broken arguments are
answered whatever the name. Requests for tools get the code of unknown tools when the name is not
listed and the arguments are not broken. -/
theorem unknown_iff (hs : NamesTools s) (l : Limits) (d : Desk) :
    (∀ name args, (∃ shown, (call s l d name args).1 = .error (.unknownTool shown)) ↔
      ¬ Listed s name ∧ ¬ Broken args ∧ name.hasText = true) ∧
    (∀ name args, ¬ Listed s name → ¬ Broken args → name.hasText = false →
      (call s l d name args).1 = .error (.tooManyDigits none)) ∧
    (∀ name args, Broken args → ∃ e : Json.Error, (call s l d name args).1 =
      .ok (errorContent ("Invalid JSON args: " ++ e.message))) ∧
    ∀ body params, Paired body → Asks body "tools/call" params →
      ∃ a, (respond s l d body).1 = .ok a ∧
        (code? a = some (-32602) ↔
          ¬ Listed s (calledName params) ∧ ¬ Broken (calledArguments params)) := by
  refine ⟨?_, ?_, ?_, ?_⟩
  · intro name args
    rcases call_ends hs l d name args with ⟨ha, hn, hc⟩ | ⟨hor, v, d', hc⟩
    · cases ht : name.hasText with
      | true => simp [hc, ha, hn, unknownTool_shown ht]
      | false => simp [hc, unknownTool_unshown ht]
    · simp only [hc]
      grind
  · intro name args hn ha ht
    rw [call_unlisted hs ha hn, unknownTool_unshown ht]
  · intro name args ha
    obtain ⟨e, he⟩ := (broken_iff args).mp ha
    exact ⟨e, by rw [call_broken he]⟩
  · intro body params _ h
    obtain ⟨id, hr⟩ := respond_asks (s := s) (l := l) (d := d) h (by decide)
    rw [dispatch_call] at hr
    rcases callNamed_ends hs l d (asks_json h) with ⟨ha, hn, m, hc⟩ | ⟨hor, v, hc⟩
    · refine ⟨⟨id, .error (.params m)⟩, by rw [hr, hc]; rfl, ?_⟩
      simp [code?, RpcError.code, ha, hn]
    · refine ⟨⟨id, .ok v⟩, by rw [hr, hc]; rfl, ?_⟩
      rw [← not_or]
      simp [code?, hor.symm]

def catalogueOnly : Settings :=
  { (default : Settings) with enabledTools := .tuple [.str "fetch_game_data"] }

/-- Broken arguments hide that their tool is not listed. -/
theorem broken_hides :
    NamesTools catalogueOnly ∧ ¬ Listed catalogueOnly (.str "nope") ∧
      ¬ ∃ shown, (call catalogueOnly .default smileDesk (.str "nope") (.str "\x7b")).1 =
        .error (.unknownTool shown) := by
  have hs : NamesTools catalogueOnly := ⟨["fetch_game_data"], .inl rfl⟩
  have hb : Broken (.str "\x7b") := ⟨"\x7b", _, rfl, by decide, rfl⟩
  refine ⟨hs, ?_, ?_⟩
  · rw [listed_iff hs]
    rintro ⟨t, ht, -⟩
    have hn := ofName?_eq_some_iff.mp ht
    cases t <;> simp [Tool.name] at hn
  · rw [(unknown_iff hs .default smileDesk).1]
    exact fun h => h.2.1 hb

end Reckoner.Proofs.Dispatch
