import Reckoner.Proofs.Contents
import Reckoner.Proofs.Fetching
import Reckoner.Proofs.Secrecy

namespace Reckoner.Proofs.Confinement
open Session Tools Catalogue Client Fetching Contents Secrecy

def askGames (s : Settings) (l : Limits) (d : Desk) (args : Value) : Except Failure Value × Desk :=
  call s l d (.str Tool.fetchGameData.name) args

def argumentNames : List String := ["platform", "genre", "dates", "metacritic", "page_size"]

/-- Settings that enable the tool for games and hold what its client needs. -/
structure Offers (s : Settings) (c : Client) : Prop where
  enabled : toolEnabled s (.str Tool.fetchGameData.name) = .ok true
  keyed : s.catalogueKey.truthy = true
  client : ∃ url, s.catalogueUrl = .str url ∧
    c = ⟨s.catalogueKey, withoutSlashes url, s.catalogueTimeout⟩

/-- What a call for games with these arguments may do. -/
structure Confined (s : Settings) (l : Limits) (d : Desk) (args : Value) (es : Entries) : Prop where
  /-- There is one request at most, and it is the one that the arguments ask for. -/
  once : ∃ made, (askGames s l d args).2.network.requests = d.network.requests ++ made ∧
    made.length ≤ 1 ∧
    ∀ r ∈ made, ∃ c size, Offers s c ∧ Asks es size ∧ r = gamesRequest c es size
  /-- Arguments that ask for a request make it, and its answer is told with their filters. -/
  asked : ∀ c size, Offers s c → Asks es size →
    askGames s l d args =
      (.ok (answer ((d.network.send (gamesRequest c es size)).1.value.bind
          (gamesRecord (filters es size))) false),
        { d with network := (d.network.send (gamesRequest c es size)).2 })
  /-- Other calls leave everything as it is. -/
  unasked : (∀ c size, Offers s c → ¬ Asks es size) → (askGames s l d args).2 = d
  /-- The filters that are told are those that are sent, each as its text, before the key. -/
  told : ∀ c size,
    (∃ sent, (gamesRequest c es size).params = .dict (sent ++ [(.str "key", c.key)]) ∧
      sent.Perm ((filters es size).map written)) ∧
    ∀ answer v, gamesRecord (filters es size) answer = .ok v →
      ∃ fields : Entries, v = .dict fields ∧
        fields.field? "filters" = some (.dict (filters es size))
  /-- Arguments that do not count change nothing. -/
  irrelevant : ∀ args' es', readArguments args' = .ok (.dict es') →
    (∀ name ∈ argumentNames, argument es name = argument es' name) →
    askGames s l d args' = askGames s l d args
  /-- Only the request shows which key there is. -/
  keyless : ∀ k k' : Value, k.truthy = true → k'.truthy = true →
    Alike seen (askGames (keyed s k) l d args) (askGames (keyed s k') l d args)

variable {s : Settings} {l : Limits} {d : Desk} {args params : Value} {es es' : Entries}
variable {c : Client}

/-- A call of the tool: it is refused if it is not enabled, and made otherwise. -/
theorem askGames_eq (h : readArguments args = .ok params) :
    askGames s l d args =
      match toolEnabled s (.str Tool.fetchGameData.name) with
      | .error e => (.error e, d)
      | .ok false => (.error (.unknownTool Tool.fetchGameData.name), d)
      | .ok true =>
        (.ok (callTool s l d .fetchGameData params).1,
          (callTool s l d .fetchGameData params).2) := by
  rw [askGames, call, h, ofName?_name]
  dsimp only
  cases toolEnabled s (.str Tool.fetchGameData.name) with
  | error e => rfl
  | ok enabled => cases enabled <;> rfl

theorem connect_eq_ok_iff :
    Client.connect s s.catalogueKey .none .none = .ok c ↔ s.catalogueKey.truthy = true ∧
      ∃ url, s.catalogueUrl = .str url ∧
        c = ⟨s.catalogueKey, withoutSlashes url, s.catalogueTimeout⟩ := by
  rw [Client.connect]
  split
  · next hk =>
    have hu (v : Value) : orElse .none v = v := rfl
    rw [hu, hu]
    cases s.catalogueUrl <;> simp [hk, address, Except.map, eq_comm]
  · next hk => simp [hk]

theorem offers_iff :
    Offers s c ↔ toolEnabled s (.str Tool.fetchGameData.name) = .ok true ∧
      Client.connect s s.catalogueKey .none .none = .ok c := by
  rw [connect_eq_ok_iff]
  exact ⟨fun h => ⟨h.enabled, h.keyed, h.client⟩, fun ⟨he, hk, hc⟩ => ⟨he, hk, hc⟩⟩

theorem askGames_offered (h : readArguments args = .ok params) (ho : Offers s c) :
    askGames s l d args = (.ok (answer (fetchGames c params d.network).1 false),
      { d with network := (fetchGames c params d.network).2 }) := by
  obtain ⟨he, hc⟩ := offers_iff.mp ho
  rw [askGames_eq h, he]
  dsimp only
  rw [callTool, hc]

theorem askGames_unoffered (h : readArguments args = .ok params) (ho : ∀ c, ¬ Offers s c) :
    (askGames s l d args).2 = d := by
  rw [askGames_eq h]
  split
  · rfl
  · rfl
  · next he =>
    rw [callTool]
    split
    · rfl
    · next c hc => exact absurd (offers_iff.mpr ⟨he, hc⟩) (ho c)

theorem askGames_asked {size : Option Int} (h : readArguments args = .ok (.dict es))
    (ho : Offers s c) (ha : Asks es size) :
    askGames s l d args =
      (.ok (answer ((d.network.send (gamesRequest c es size)).1.value.bind
          (gamesRecord (filters es size))) false),
        { d with network := (d.network.send (gamesRequest c es size)).2 }) := by
  rw [askGames_offered h ho, fetchGames_asked ha]

theorem askGames_unasked (h : readArguments args = .ok (.dict es))
    (hn : ∀ c size, Offers s c → ¬ Asks es size) : (askGames s l d args).2 = d := by
  by_cases ho : ∃ c, Offers s c
  · obtain ⟨c, ho⟩ := ho
    obtain ⟨e, he⟩ := fetchGames_unasked (hn c · ho)
    rw [askGames_offered h ho, he]
  · exact askGames_unoffered h (not_exists.mp ho)

/-- Only the arguments that count make the filters. -/
theorem filtersOf_congr (h : ∀ name ∈ argumentNames, argument es name = argument es' name) :
    filtersOf (.dict es) = filtersOf (.dict es') := by
  simp only [argumentNames, List.forall_mem_cons] at h
  obtain ⟨hplatform, hgenre, hdates, hmetacritic, hsize, -⟩ := h
  have hchosen : chosen es = chosen es' := by
    simp only [chosen, chosenAs, hplatform, hgenre, hdates, hmetacritic]
  have hpage : pageSize es = pageSize es' := by
    rw [pageSize, ← argument, hsize, pageSize, ← argument]
  rw [filtersOf_dict, filtersOf_dict, hchosen, hpage]

theorem askGames_congr {args' : Value} (h : readArguments args = .ok (.dict es))
    (h' : readArguments args' = .ok (.dict es'))
    (he : ∀ name ∈ argumentNames, argument es name = argument es' name) :
    askGames s l d args' = askGames s l d args := by
  rw [askGames_eq h, askGames_eq h']
  simp only [callTool, fetchGames, filtersOf_congr he]

theorem sent_perm (es : Entries) (size : Option Int) :
    ((sizeEntry size ++ chosen es).map written).Perm ((filters es size).map written) :=
  List.perm_append_comm.map written

theorem gamesRecord_filters {fs : Entries} {answer v : Value}
    (h : gamesRecord fs answer = .ok v) :
    ∃ fields : Entries, v = .dict fields ∧ fields.field? "filters" = some (.dict fs) := by
  obtain ⟨gs, -, rfl⟩ := Results.ok_of_map h
  refine ⟨_, rfl, ?_⟩
  simp

/-- A call for games is confined: to one request, to the filters that are listed, and, as far as the
key goes, to the request. -/
theorem call_confined (s : Settings) (l : Limits) (d : Desk) (args : Value)
    (h : readArguments args = .ok (.dict es)) : Confined s l d args es where
  once := by
    by_cases ha : ∃ c size, Offers s c ∧ Asks es size
    · obtain ⟨c, size, ho, ha⟩ := ha
      refine ⟨[gamesRequest c es size], ?_, le_rfl, ?_⟩
      · rw [askGames_asked h ho ha, Network.requests_send]
      · exact List.forall_mem_singleton.mpr ⟨c, size, ho, ha, rfl⟩
    · refine ⟨[], ?_, Nat.zero_le _, by simp⟩
      rw [askGames_unasked h fun c size ho hs => ha ⟨c, size, ho, hs⟩, List.append_nil]
  asked _ _ ho ha := askGames_asked h ho ha
  unasked hn := askGames_unasked h hn
  told _ size := ⟨⟨_, rfl, sent_perm es size⟩, fun _ _ => gamesRecord_filters⟩
  irrelevant _ _ h' he := askGames_congr h h' he
  keyless _ _ hk hk' := call_alike hk hk' _ _ rfl

def offering : Settings :=
  { (default : Settings) with catalogueKey := .str "k", catalogueUrl := .str "https://games/" }

/-- A platform, and arguments that have the names of a key and of a page. -/
def crowded : Entries :=
  [(.str "platform", .str "pc"), (.str "key", .str "other"), (.str "page", .int 3)]

theorem crowded_asks : Asks crowded none where
  sized := .absent rfl
  written := List.all_eq_true.mp rfl

theorem offering_offers :
    Offers offering ⟨.str "k", "https://games", offering.catalogueTimeout⟩ where
  enabled := rfl
  keyed := rfl
  client := ⟨"https://games/", rfl, by
    have hu : withoutSlashes "https://games/" = "https://games" := by decide +kernel
    rw [hu]
    rfl⟩

def idleDesk : Desk := ⟨Timely.stillHost, .interpreter, default, []⟩

/-- Of these arguments the platform is sent, with the key of the settings. -/
theorem platform_sent :
    readArguments (.dict crowded) = .ok (.dict crowded) ∧
      (askGames offering .default idleDesk (.dict crowded)).2.network.requests =
        [⟨"https://games/games", headers,
          .dict [(.str "platforms", .str "pc"), (.str "key", .str "k")],
          offering.catalogueTimeout⟩] ∧
      askGames offering .default idleDesk (.dict (crowded.take 1)) =
        askGames offering .default idleDesk (.dict crowded) := by
  have hc := call_confined offering .default idleDesk (.dict crowded) rfl
  have hsame : ∀ name ∈ argumentNames,
      argument crowded name = argument (crowded.take 1) name := by
    simp only [argumentNames, List.forall_mem_cons]
    exact ⟨rfl, rfl, rfl, rfl, rfl, by simp⟩
  refine ⟨rfl, ?_, hc.irrelevant _ _ rfl hsame⟩
  rw [hc.asked _ _ offering_offers crowded_asks, Network.requests_send]
  rfl

end Reckoner.Proofs.Confinement
