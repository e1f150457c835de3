import Mathlib.Data.List.Forall2
import Reckoner.Catalogue.Client
import Reckoner.Proofs.JsonValues
import Reckoner.Proofs.Scopes

namespace Reckoner.Proofs.Paging
open Catalogue Client Crossing JsonValues JsonTexts

/-- The listed filters that do not choose a page. -/
def otherNames : List String :=
  ["search", "platforms", "genres", "dates", "metacritic", "ordering"]

/-- A filter that does not choose a page is sent as its text if it is not empty. -/
def otherParameter? (filters : Entries) (name : String) : Option (Value × Value) :=
  let v := (filters.field? name).getD .none
  if v.truthy then some (.str name, .str (String.ofList v.text)) else none

/-- The request for a page: its number and size, the other filters as they are, then the key. -/
def pageRequest (c : Client) (filters : Entries) (page : Nat) : Request where
  url := c.baseUrl ++ "/games"
  headers := headers
  params := .dict ([(.str "page", .str (String.ofList (intText page))),
    (.str "page_size", .str "40")] ++ otherNames.filterMap (otherParameter? filters) ++
    [(.str "key", c.key)])
  timeout := c.timeout

/-- The requests for so many pages from one on. -/
def pageRequests (c : Client) (filters : Entries) (page count : Nat) : List Request :=
  (List.range' page count).map (pageRequest c filters)

theorem pageRequests_succ (c : Client) (filters : Entries) (page count : Nat) :
    pageRequests c filters page (count + 1) =
      pageRequest c filters page :: pageRequests c filters (page + 1) count :=
  rfl

theorem pageRequests_concat (c : Client) (filters : Entries) (page count : Nat) :
    pageRequests c filters page (count + 1) =
      pageRequests c filters page count ++ [pageRequest c filters (page + count)] := by
  rw [pageRequests, pageRequests, List.range'_concat, List.map_append, Nat.one_mul]
  rfl

section
variable {es : Entries} {j k : String} {v : Value}

theorem field?_insert_self : (es.insert (.str k) v).field? k = some v := by
  induction es with
  | nil => exact if_pos (Scopes.same_text.mpr rfl)
  | cons e es ih =>
    obtain ⟨i, w⟩ := e
    rw [Entries.insert]
    split
    · next h => exact if_pos h
    · next h => exact (if_neg h).trans ih

theorem field?_insert_ne (h : j ≠ k) : (es.insert (.str j) v).field? k = es.field? k := by
  have hne : ¬ (Value.str j).same (.str k) = true := by simpa [Scopes.same_text] using h
  induction es with
  | nil => exact if_neg hne
  | cons e es ih =>
    obtain ⟨i, w⟩ := e
    rw [Entries.insert]
    split
    · next hi =>
      obtain rfl := Scopes.same_text.mp hi
      exact (if_neg hne).trans (if_neg hne).symm
    · exact if_congr Iff.rfl rfl ih

end

/-- Parameters are named after filters only. -/
theorem parameter_name {options : Entries} {e : Value × Value} (he : e ∈ parameters options) :
    ∃ name ∈ filterNames, e.1 = .str name := by
  obtain ⟨name, hn, he⟩ := List.mem_filterMap.mp he
  unfold parameter? at he
  dsimp only at he
  split at he
  · cases he
    exact ⟨name, hn, rfl⟩
  · cases he

section
variable (filters : Entries) (page : Nat)

theorem field?_page : (pageFilters filters page).field? "page" = some (.int page) := by
  rw [pageFilters, field?_insert_ne (by decide), field?_insert_self]

theorem field?_pageSize : (pageFilters filters page).field? "page_size" = some (.int maxPageSize) :=
  field?_insert_self

theorem otherNames_apart {name : String} (hn : name ∈ otherNames) :
    pageNames.contains name = false ∧ "page" ≠ name ∧ "page_size" ≠ name := by
  have hall : ∀ name ∈ otherNames,
      pageNames.contains name = false ∧ "page" ≠ name ∧ "page_size" ≠ name := by decide
  exact hall name hn

theorem field?_other {name : String} (hn : name ∈ otherNames) :
    (pageFilters filters page).field? name = filters.field? name := by
  obtain ⟨-, hpage, hsize⟩ := otherNames_apart hn
  rw [pageFilters, field?_insert_ne hsize, field?_insert_ne hpage]

/-- The number and the size of a page take the place of any that the filters have. -/
theorem parameters_page :
    parameters (pageFilters filters page) =
      [(.str "page", .str (String.ofList (intText page))), (.str "page_size", .str "40")] ++
        otherNames.filterMap (otherParameter? filters) := by
  have hnames : filterNames = pageNames ++ otherNames := rfl
  have hother : ∀ name ∈ otherNames,
      parameter? (pageFilters filters page) name = otherParameter? filters name := by
    intro name hn
    rw [parameter?, otherParameter?, field?_other filters page hn]
    simp only [isSent, (otherNames_apart hn).1, Bool.false_eq_true, if_false]
  rw [parameters, hnames, List.filterMap_append, List.filterMap_congr hother]
  congr 1
  simp only [pageNames, List.filterMap_cons, List.filterMap_nil, parameter?, field?_page,
    field?_pageSize]
  rfl

end

/-- No parameter is named like the key, which comes after them all. -/
theorem withKey_parameters (c : Client) (options : Entries) :
    c.withKey (parameters options) = parameters options ++ [(.str "key", c.key)] := by
  have hkey : ∀ e ∈ parameters options, e.1.same (.str "key") = false := by
    intro e he
    obtain ⟨name, hn, hname⟩ := parameter_name he
    have hall : ∀ name ∈ filterNames, name ≠ "key" := by decide
    simpa [hname, ← Bool.not_eq_true, Scopes.same_text] using hall name hn
  rw [withKey, insert_fresh hkey]

theorem requestFor_page (c : Client) (filters : Entries) (page : Nat) :
    c.requestFor "/games" (parameters (pageFilters filters page)) = pageRequest c filters page := by
  rw [requestFor, withKey_parameters, parameters_page]
  rfl

/-- Filters of which every one that is sent, the page aside, can be written. -/
def Writable (filters : Entries) : Prop := ∀ name ∈ otherNames, isWritable filters name = true

/-- A page number that can be written. -/
def Numbered (page : Nat) : Prop := (Value.int page).hasText = true

theorem nil_writable : Writable [] := by
  unfold Writable
  decide

theorem numbered_of_le {m n : Nat} (hm : m ≤ n) (hn : Numbered n) : Numbered m := by
  have hd := (decimalDigits_le_iff n).mp (of_decide_eq_true hn)
  exact decide_eq_true ((decimalDigits_le_iff m).mpr (by omega))

theorem writable_page_iff (filters : Entries) (page : Nat) :
    filterNames.all (isWritable (pageFilters filters page)) = true ↔
      Writable filters ∧ Numbered page := by
  have hpage : isWritable (pageFilters filters page) "page" = (Value.int page).hasText := by
    rw [isWritable, field?_page]
    rfl
  have hsize : isWritable (pageFilters filters page) "page_size" = true := by
    rw [isWritable, field?_pageSize]
    rfl
  have hother : ∀ name ∈ otherNames,
      isWritable (pageFilters filters page) name = isWritable filters name := by
    intro name hn
    rw [isWritable, isWritable, field?_other filters page hn]
  have hnames : filterNames = pageNames ++ otherNames := rfl
  have hall : otherNames.all (isWritable (pageFilters filters page)) = true ↔ Writable filters := by
    rw [List.all_eq_true]
    exact forall₂_congr fun name hn => by rw [hother name hn]
  rw [hnames, List.all_append, Bool.and_eq_true, hall, and_comm]
  simp [pageNames, hpage, hsize, Numbered]

section
variable {c : Client} {filters : Entries} {page : Nat}

theorem pageFilters_ne_nil : (pageFilters filters page).isEmpty = false := by
  cases hf : pageFilters filters page with
  | nil =>
    have h := field?_page filters page
    rw [hf] at h
    cases h
  | cons e es => rfl

theorem query_page : query (orElse (.dict (pageFilters filters page)) (.dict [])) =
    if filterNames.all (isWritable (pageFilters filters page)) then
      .ok (parameters (pageFilters filters page)) else .error (.tooManyDigits none) := by
  rw [orElse, if_pos (by simp [Value.truthy, pageFilters_ne_nil])]
  rfl

/-- Filters that can be written ask for the page with one request. -/
theorem gamesPage_sent (hw : Writable filters) (hp : Numbered page) (n : Network) :
    c.gamesPage filters page n =
      ((n.send (pageRequest c filters page)).1.value.bind pageOf,
        (n.send (pageRequest c filters page)).2) := by
  rw [gamesPage, Exchange.andThen_eq, games, query_page,
    if_pos ((writable_page_iff _ _).mpr ⟨hw, hp⟩), ← requestFor_page]
  rfl

/-- Other filters keep the client from asking at all. -/
theorem gamesPage_unsent (h : ¬ (Writable filters ∧ Numbered page)) :
    c.gamesPage filters page = .fail (.tooManyDigits none) := by
  funext n
  rw [gamesPage, Exchange.andThen_eq, games, query_page, if_neg (mt (writable_page_iff _ _).mp h)]
  rfl

end

/-- What an answer says about the games: those on its page, and whether it names a next page. -/
structure Page where
  results : List Value
  next : Bool

/-- Whether no page is read after this one. -/
def Page.last (p : Page) : Bool := !p.next || p.results.isEmpty

/-- The results of an answer are a list, or there are none. -/
inductive Results (es : Entries) : List Value → Prop where
  | list (vs : List Value) (found : es.field? "results" = some (.list vs)) : Results es vs
  | null (found : es.field? "results" = some .none) : Results es []
  | absent (found : es.field? "results" = none) : Results es []

/-- A successful answer whose body is an object with such results. -/
inductive Gives : Response → Page → Prop where
  | answer (status : Int) (reason : Option String) (body : String) (es : Entries)
      (vs : List Value) (success : 200 ≤ status ∧ status < 300)
      (read : readBody body = .ok (.dict es)) (results : Results es vs) :
      Gives (.answered status reason body) ⟨vs, ((es.field? "next").getD .none).truthy⟩

/-- The filters that a caller gives, which may be none. -/
inductive Filters : Value → Entries → Prop where
  | given (es : Entries) : Filters (.dict es) es
  | absent : Filters .none []

theorem Results.orElse {es : Entries} {vs : List Value} (h : Results es vs) :
    orElse ((es.field? "results").getD .none) (.list []) = .list vs := by
  cases h with
  | list _ found =>
    rw [found]
    cases vs <;> rfl
  | null found => rw [found]; rfl
  | absent found => rw [found]; rfl

section
variable {c : Client} {es : Entries} {page : Nat} {x : Response} {p : Page}
variable {xs rest : List Response} {ps : List Page} {sent : List Request}

/-- An answer is read as the results of its page, and whether it is not the last one. -/
theorem Gives.read (h : Gives x p) : x.value.bind pageOf = .ok (p.results, !p.last) := by
  obtain ⟨status, reason, body, es, vs, hs, hb, hr⟩ := h
  have hlt : status < 400 := by omega
  rw [Response.value, if_pos hlt, hb]
  simp only [Except.bind, bind, pageOf, Value.entries, hr.orElse, Value.iterate, Page.last,
    Bool.not_or, Bool.not_not]
  rfl

def after (found : List Value) (run : Except Failure (List Value) × Network) :
    Except Failure (List Value) × Network :=
  (run.1.map (found ++ ·), run.2)

/-- How reading goes on from the value of a page's answer. -/
def turn (c : Client) (es : Entries) (page : Nat) (rest : List Response) (sent : List Request)
    (r : Except Failure Value) : Except Failure (List Value) × Network :=
  match r.bind pageOf with
  | .error e => (.error e, ⟨rest, sent ++ [pageRequest c es page]⟩)
  | .ok (found, false) => (.ok found, ⟨rest, sent ++ [pageRequest c es page]⟩)
  | .ok (found, true) =>
    after found (c.gamesFrom es (page + 1) rest (sent ++ [pageRequest c es page]))

theorem after_nil (run : Except Failure (List Value) × Network) : after [] run = run := by
  obtain ⟨_ | _, n⟩ := run <;> rfl

theorem after_after (vs ws : List Value) (run : Except Failure (List Value) × Network) :
    after vs (after ws run) = after (vs ++ ws) run := by
  obtain ⟨_ | us, n⟩ := run
  · rfl
  · exact congrArg (fun r => (Except.ok r, n)) (List.append_assoc vs ws us).symm

theorem gamesFrom_cons (hw : Writable es) (hp : Numbered page) (x : Response) :
    c.gamesFrom es page (x :: rest) sent = turn c es page rest sent x.value := by
  rw [gamesFrom, gamesPage_sent hw hp, turn]
  dsimp only [Network.send]
  obtain _ | ⟨found, _ | _⟩ := x.value.bind pageOf <;> rfl

theorem read_last (hw : Writable es) (hn : Numbered page) (h : Gives x p) (hl : p.last = true) :
    c.gamesFrom es page (x :: rest) sent =
      (.ok p.results, ⟨rest, sent ++ [pageRequest c es page]⟩) := by
  rw [gamesFrom_cons hw hn, turn, h.read, hl]
  rfl

theorem read_more (hw : Writable es) (hn : Numbered page) (h : Gives x p) (hl : p.last = false) :
    c.gamesFrom es page (x :: rest) sent =
      after p.results (c.gamesFrom es (page + 1) rest (sent ++ [pageRequest c es page])) := by
  rw [gamesFrom_cons hw hn, turn, h.read, hl]
  rfl

theorem read_none (hw : Writable es) (hn : Numbered page) :
    c.gamesFrom es page [] sent =
      (.error (.fault exhausted), ⟨[], sent ++ [pageRequest c es page]⟩) := by
  rw [gamesFrom, gamesPage_sent hw hn]
  rfl

/-- Pages that are not the last leave their results to those of the pages after them. -/
theorem read_through (hw : Writable es) (h : List.Forall₂ Gives xs ps)
    (hp : ∀ p ∈ ps, p.last = false) (hn : Numbered (page + ps.length)) :
    c.gamesFrom es page (xs ++ rest) sent =
      after (ps.flatMap Page.results) (c.gamesFrom es (page + ps.length) rest
        (sent ++ pageRequests c es page ps.length)) := by
  induction h generalizing page sent with
  | nil =>
    rw [List.flatMap_nil, after_nil, List.nil_append, List.length_nil, Nat.add_zero]
    exact congrArg _ (List.append_nil sent).symm
  | @cons x p xs ps hx hxs ih =>
    obtain ⟨hl, hps⟩ := List.forall_mem_cons.mp hp
    rw [List.length_cons, Nat.add_comm ps.length 1, ← Nat.add_assoc] at hn ⊢
    rw [List.cons_append, read_more hw (numbered_of_le (by omega) hn) hx hl, ih hps hn, after_after,
      List.flatMap_cons, List.append_assoc, List.singleton_append, Nat.add_comm 1 ps.length,
      ← pageRequests_succ]

end

/-- Reading all games from a script of pages. It ends with the first last page, whose results are
the last of the list; without one, every answer is used up and the next request fails. -/
structure ReadsPages (c : Client) (filters : Entries) (pages : List Page) (before : Network)
    (run : Except Failure Value × Network) : Prop where
  ended {ps qs : List Page} {p : Page} (split : pages = ps ++ p :: qs)
    (more : ∀ q ∈ ps, q.last = false) (last : p.last = true) :
    run = (.ok (.list (ps.flatMap Page.results ++ p.results)),
      ⟨before.responses.drop (ps.length + 1),
        before.requests ++ pageRequests c filters 1 (ps.length + 1)⟩)
  endless (more : ∀ p ∈ pages, p.last = false) :
    run = (.error (.fault exhausted),
      ⟨[], before.requests ++ pageRequests c filters 1 (pages.length + 1)⟩)

section
variable {xs rest : List Response} {ps : List Page} {x : Response} {p : Page}
variable {c : Client} {es : Entries} {page : Nat} {sent : List Request}

/-- The pages before the last one, then that one; whatever answers come after it are left. -/
theorem gamesFrom_ended (hw : Writable es) (hn : Numbered (page + ps.length))
    (hxs : List.Forall₂ Gives xs ps) (hm : ∀ q ∈ ps, q.last = false) (hx : Gives x p)
    (hl : p.last = true) :
    c.gamesFrom es page (xs ++ x :: rest) sent =
      (.ok (ps.flatMap Page.results ++ p.results),
        ⟨rest, sent ++ pageRequests c es page (ps.length + 1)⟩) := by
  rw [read_through hw hxs hm hn, read_last hw hn hx hl, List.append_assoc, ← pageRequests_concat]
  rfl

theorem gamesFrom_endless (hw : Writable es) (hn : Numbered (page + ps.length))
    (hxs : List.Forall₂ Gives xs ps) (hm : ∀ q ∈ ps, q.last = false) :
    c.gamesFrom es page xs sent =
      (.error (.fault exhausted), ⟨[], sent ++ pageRequests c es page (ps.length + 1)⟩) := by
  have h : c.gamesFrom es page (xs ++ []) sent = _ := read_through hw hxs hm hn
  rw [List.append_nil] at h
  rw [h, read_none hw hn, List.append_assoc, ← pageRequests_concat]
  rfl

theorem gamesFrom_unsent (h : ¬ (Writable es ∧ Numbered page)) :
    c.gamesFrom es page xs sent = (.error (.tooManyDigits none), ⟨xs, sent⟩) := by
  cases xs <;> rw [gamesFrom, gamesPage_unsent h] <;> rfl

end

theorem allGames_eq {c : Client} {filters : Value} {es : Entries} (h : Filters filters es)
    (n : Network) :
    c.allGames filters n = ((c.gamesFrom es 1 n.responses n.requests).1.map .list,
      (c.gamesFrom es 1 n.responses n.requests).2) := by
  cases h with
  | given => cases es <;> rfl
  | absent => rfl

/-- Every page is asked for in turn until one is the last, so no game is lost, repeated or moved.
Filters that cannot be written are not sent at all. -/
theorem allGames_readsPages {c : Client} {filters : Value} {es : Entries} {n : Network}
    {pages : List Page} (hf : Filters filters es) (h : List.Forall₂ Gives n.responses pages)
    (hn : Numbered (1 + pages.length)) :
    (Writable es → ReadsPages c es pages n (c.allGames filters n)) ∧
      (¬ Writable es → c.allGames filters n = (.error (.tooManyDigits none), n)) := by
  refine ⟨fun hw => ⟨?_, fun hm => ?_⟩, fun hw => ?_⟩
  · rintro ps qs p rfl hm hl
    have hps := List.forall₂_take_append _ _ _ h
    have hqs := List.forall₂_drop_append _ _ _ h
    obtain ⟨x, ys, hx, -, hd⟩ := List.forall₂_cons_right_iff.mp hqs
    have hr : n.responses = n.responses.take ps.length ++ x :: ys := by
      rw [← hd, List.take_append_drop]
    have hrest : n.responses.drop (ps.length + 1) = ys := by
      rw [← List.drop_drop, hd, List.drop_one, List.tail_cons]
    have hnum : Numbered (1 + ps.length) := by
      refine numbered_of_le ?_ hn
      simp only [List.length_append]
      omega
    rw [allGames_eq hf, hrest, hr, gamesFrom_ended hw hnum hps hm hx hl]
    rfl
  · rw [allGames_eq hf, gamesFrom_endless hw hn h hm]
    rfl
  · rw [allGames_eq hf, gamesFrom_unsent fun hs => hw hs.1]
    rfl

/-- A body that is a value's text is read as the value. -/
theorem readBody_written {s : Json.Style} {v : Value} {body : String}
    (hv : JsonValue s.specials v) (hw : Json.write s v = .ok body.toList) :
    readBody body = .ok v := by
  obtain ⟨cs, hc, ht⟩ := readable s hv 0
  obtain rfl := Except.ok.inj (hc.symm.trans hw)
  rw [readBody, if_neg ht.unmarked, ht.whole]
  rfl

/-- Two pages of games, and an answer that nobody asks for. -/
def scripted : List Response :=
  [.answered 200 (some "OK") "\x7b\"results\":[\"Myst\",\"Riven\"],\"next\":\"2\"\x7d",
    .answered 206 none "\x7b\"results\":[7],\"next\":null\x7d",
    .answered 200 none "\x7b\x7d"]

def scriptedPages : List Page :=
  [⟨[.str "Myst", .str "Riven"], true⟩, ⟨[.int 7], false⟩, ⟨[], false⟩]

theorem scripted_gives : List.Forall₂ Gives scripted scriptedPages := by
  have hbody : ∀ (vs : List Value) {next : Value},
      (∀ v ∈ vs, JsonValue Json.Style.compact.specials v) →
      JsonValue Json.Style.compact.specials next →
      JsonValue Json.Style.compact.specials
        (.dict (textKeyed [("results", .list vs), ("next", next)])) :=
    fun _ _ hvs hnext => .dict _ (by simp) (by simpa using ⟨.list _ hvs, hnext⟩)
  refine .cons ?_ (.cons ?_ (.cons ?_ .nil))
  · have h := hbody [.str "Myst", .str "Riven"] (by simp [JsonValue.str]) (.str "2")
    exact .answer _ _ _ _ _ (by decide) (readBody_written h rfl) (.list _ rfl)
  · have h := hbody [.int 7] (by simpa using .small (k := 3) (by decide) (by decide)) .none
    exact .answer _ _ _ _ _ (by decide) (readBody_written h rfl) (.list _ rfl)
  · have h : JsonValue Json.Style.compact.specials (.dict (textKeyed [])) :=
      .dict [] (by decide) (by simp)
    exact .answer _ _ _ _ _ (by decide) (readBody_written h rfl) (.absent rfl)

def asker : Client := ⟨.str "k", "https://games", .int 10⟩

/-- Filters with a page of their own, and with a name that is not listed. -/
def asked : Entries :=
  [(.str "page", .int 7), (.str "search", .str "island"), (.str "color", .str "red")]

theorem asked_writable : Writable asked := by
  unfold Writable
  decide

theorem scripted_read :
    Filters (.dict asked) asked ∧ List.Forall₂ Gives scripted scriptedPages ∧
      asker.allGames (.dict asked) ⟨scripted, []⟩ =
        (.ok (.list [.str "Myst", .str "Riven", .int 7]),
          ⟨scripted.drop 2, pageRequests asker asked 1 2⟩) ∧
      (pageRequests asker asked 1 2).map Request.params =
        [.dict [(.str "page", .str "1"), (.str "page_size", .str "40"),
            (.str "search", .str "island"), (.str "key", .str "k")],
          .dict [(.str "page", .str "2"), (.str "page_size", .str "40"),
            (.str "search", .str "island"), (.str "key", .str "k")]] ∧
      asker.allGames .none ⟨scripted.take 1, []⟩ =
        (.error (.fault exhausted), ⟨[], pageRequests asker [] 1 2⟩) := by
  have h := scripted_gives
  have hn : Numbered 4 := rfl
  refine ⟨.given asked, h, ?_, rfl, ?_⟩
  · exact ((allGames_readsPages (n := ⟨scripted, []⟩) (.given asked) h hn).1 asked_writable).ended
      (show scriptedPages = [⟨[.str "Myst", .str "Riven"], true⟩] ++ _ :: _ from rfl)
      (by decide) rfl
  · exact ((allGames_readsPages (n := ⟨scripted.take 1, []⟩) .absent (List.forall₂_take 1 h)
      (numbered_of_le (by decide) hn)).1 nil_writable).endless (by decide)

section
variable {n : Nat} (hn : Numeral.digitLimit < (decimalDigits n).length)
include hn

theorem long_unwritable : ¬ Writable [(.str "search", .int n)] := by
  intro h
  have hs := h "search" (by decide)
  have hv : Entries.field? "search" [(.str "search", .int (n : Int))] = some (.int n) := rfl
  have hp : n ≠ 0 := by
    rintro rfl
    exact absurd hn (by decide)
  have hw : (Value.int n).hasText = true := by
    simpa [isWritable, hv, isSent, pageNames, Value.truthy, hp] using hs
  rw [hasText_long hn] at hw
  contradiction

def listText (n : Nat) : List Char := '[' :: (natText n ++ [']'])

theorem value_listText (fuel : Nat) (rest : List Char) :
    Json.value (fuel + 3) (listText n ++ rest) =
      .error (.tooManyDigits (decimalDigits n).length) := by
  obtain ⟨d, hd, cs, ht⟩ := natText_head n
  have hs : Json.isSpace (digitChar d) = false := by interval_cases d <;> rfl
  have hv := value_long hn fuel (follows_mark (.inr (.inl rfl)) rest)
  rw [ht, List.cons_append] at hv
  rw [listText, List.cons_append, List.append_assoc, ht, List.cons_append, List.singleton_append,
    value_bracket (skipSpace_cons hs _) (by interval_cases d <;> simp [digitChar]),
    elements_stopped hv]
  rfl

def resultsMember (n : Nat) : List Char := Part.styled .compact ⟨"results", listText n, .none⟩

def resultsText (n : Nat) : List Char := '\x7b' :: (resultsMember n ++ ['\x7d'])

theorem read_resultsText :
    Json.read (resultsText n) = .error (.tooManyDigits (decimalDigits n).length) := by
  have hm : ∀ fuel, Json.members (fuel + 4) [] (resultsMember n ++ ['\x7d']) =
      .error (.tooManyDigits (decimalDigits n).length) := fun fuel =>
    members_stopped .compact (p := ⟨"results", listText n, .none⟩) (skipSpace_cons rfl _)
      (value_listText hn fuel ['\x7d'])
  have hs : Json.skipSpace (resultsMember n ++ ['\x7d']) = resultsMember n ++ ['\x7d'] :=
    Part.skipSpace_styled .compact ⟨"results", listText n, .none⟩ ['\x7d']
  have hh : (resultsMember n ++ ['\x7d']).head? ≠ some '\x7d' := by
    simp [resultsMember, Part.styled, Json.string]
  obtain ⟨fuel, hf⟩ : ∃ k, 2 * (resultsText n).length + 2 = k + 5 :=
    ⟨2 * (resultsText n).length - 3, by simp [resultsText]; omega⟩
  rw [Json.read, if_neg (by simp [resultsText])]
  dsimp only
  rw [show Json.skipSpace (resultsText n) = resultsText n from skipSpace_cons rfl _, hf,
    resultsText, value_brace hs hh, hm]
  rfl

theorem readBody_resultsText : readBody (String.ofList (resultsText n)) =
    .error (.json (.tooManyDigits (decimalDigits n).length)) := by
  rw [readBody, String.toList_ofList, if_neg (by simp [resultsText]), read_resultsText hn]
  rfl
end

def longFilters : Entries := [(.str "search", .int longInteger)]

/-- An answer whose only game is an integer with too many digits. -/
def longAnswer : Response := .answered 200 none (String.ofList (resultsText longInteger))

/-- An integer with too many digits stops the reading: it is not sent in a filter, and an answer
that holds it is not read. -/
theorem long_integers_stop :
    Filters (.dict longFilters) longFilters ∧ List.Forall₂ Gives scripted scriptedPages ∧
      asker.allGames (.dict longFilters) ⟨scripted, []⟩ =
        (.error (.tooManyDigits none), ⟨scripted, []⟩) ∧
      ¬ ReadsPages asker longFilters scriptedPages ⟨scripted, []⟩
        (asker.allGames (.dict longFilters) ⟨scripted, []⟩) ∧
      asker.allGames .none ⟨[longAnswer], []⟩ =
        (.error (.json (.tooManyDigits (decimalDigits longInteger).length)),
          ⟨[], [pageRequest asker [] 1]⟩) := by
  have hw : ¬ Writable longFilters := long_unwritable longInteger_long
  have hf : asker.allGames (.dict longFilters) ⟨scripted, []⟩ =
      (.error (.tooManyDigits none), ⟨scripted, []⟩) := by
    rw [allGames_eq (.given longFilters), gamesFrom_unsent fun hs => hw hs.1]
    rfl
  refine ⟨.given longFilters, scripted_gives, hf, fun hr => ?_, ?_⟩
  · have h := hr.ended
      (show scriptedPages = [⟨[.str "Myst", .str "Riven"], true⟩] ++ _ :: _ from rfl)
      (by decide) rfl
    rw [hf] at h
    cases congrArg Prod.fst h
  · have hb := readBody_resultsText longInteger_long
    rw [allGames_eq .absent]
    dsimp only
    have hn : Numbered 1 := rfl
    rw [gamesFrom_cons nil_writable hn, turn, longAnswer, Response.value, if_pos (by decide), hb]
    rfl

end Reckoner.Proofs.Paging
