import Reckoner.Proofs.Scopes
import Reckoner.Tools.Router

namespace Reckoner.Proofs.Secrecy
open Session Tools Catalogue Client

def withoutKey (es : Entries) : Entries := es.filter fun e => !e.1.same (.str "key")

/-- A request as it looks without the key. -/
def hidden (r : Catalogue.Request) : Catalogue.Request :=
  { r with params := match r.params with
      | .dict es => .dict (withoutKey es)
      | v => v }

/-- A network as it looks without the keys of the requests that were sent. -/
def veiled (n : Network) : Network := { n with requests := n.requests.map hidden }

/-- A desk as it looks without the keys of the requests that were sent. -/
def seen (d : Desk) : Desk := { d with network := veiled d.network }

/-- The same result, in states that look the same. -/
def Alike {α σ : Type} (view : σ → σ) (x y : α × σ) : Prop := x.1 = y.1 ∧ view x.2 = view y.2

theorem Alike.same {α σ : Type} {view : σ → σ} {a b : σ} (h : view a = view b) (r : α) :
    Alike view (r, a) (r, b) :=
  ⟨rfl, h⟩

def keyed (s : Settings) (key : Value) : Settings := { s with catalogueKey := key }

theorem veiled_eq_iff {m n : Network} :
    veiled m = veiled n ↔
      m.responses = n.responses ∧ m.requests.map hidden = n.requests.map hidden := by
  simp [veiled]

theorem seen_eq_iff {d e : Desk} :
    seen d = seen e ↔ d.host = e.host ∧ d.engine = e.engine ∧
      veiled d.network = veiled e.network ∧ d.interpreters = e.interpreters := by
  simp [seen]

theorem withoutKey_insert (es : Entries) (k : Value) :
    withoutKey (es.insert (.str "key") k) = withoutKey es := by
  have hkey : (Value.str "key").same (.str "key") = true := Scopes.same_text.mpr rfl
  induction es with
  | nil => simp [Entries.insert, withoutKey, hkey]
  | cons e es ih =>
    obtain ⟨j, v⟩ := e
    rw [Entries.insert]
    split
    · next hj => simp [withoutKey, hj]
    · next hj => simpa [withoutKey, hj] using ih

section
variable {k k' timeout : Value} {url : String} {m n : Network}

theorem hidden_requestFor (endpoint : String) (params : Entries) :
    hidden ((⟨k, url, timeout⟩ : Client).requestFor endpoint params) =
      hidden ((⟨k', url, timeout⟩ : Client).requestFor endpoint params) := by
  simp only [hidden, requestFor, withKey, withoutKey_insert]

theorem send_alike {r r' : Catalogue.Request} (hr : hidden r = hidden r')
    (hn : veiled m = veiled n) : Alike veiled (m.send r) (n.send r') := by
  obtain ⟨xs, sent⟩ := m
  obtain ⟨ys, sent'⟩ := n
  obtain ⟨rfl, hsent⟩ := veiled_eq_iff.mp hn
  dsimp only at hsent
  cases xs <;> simp [Alike, Network.send, veiled, hr, hsent]

theorem games_alike (filters : Value) (hn : veiled m = veiled n) :
    Alike veiled ((⟨k, url, timeout⟩ : Client).games filters m)
      ((⟨k', url, timeout⟩ : Client).games filters n) := by
  rw [games, games]
  cases query (orElse filters (.dict [])) with
  | error f => exact .same hn _
  | ok params =>
    obtain ⟨hv, hnet⟩ := send_alike (hidden_requestFor "/games" params) hn
    exact ⟨congrArg Response.value hv, hnet⟩

theorem fetchGames_alike (params : Value) (hn : veiled m = veiled n) :
    Alike veiled (fetchGames ⟨k, url, timeout⟩ params m)
      (fetchGames ⟨k', url, timeout⟩ params n) := by
  rw [fetchGames, fetchGames]
  cases filtersOf params with
  | error f => exact .same hn _
  | ok filters =>
    obtain ⟨hv, hnet⟩ := games_alike (.dict filters) hn
    dsimp only
    rw [Exchange.andThen_eq, Exchange.andThen_eq]
    exact ⟨congrArg (·.bind (gamesRecord filters)) hv, hnet⟩

end

section
variable {s : Settings} {l : Limits} {d e : Desk} {k k' : Value}

theorem connect_keyed (hk : k.truthy = true) :
    Client.connect (keyed s k) (keyed s k).catalogueKey .none .none =
      (address s.catalogueUrl).map fun url => ⟨k, url, s.catalogueTimeout⟩ :=
  if_pos hk

theorem callTool_alike (hk : k.truthy = true) (hk' : k'.truthy = true) (t : Tool) (args : Value)
    (hd : seen d = seen e) :
    Alike seen (callTool (keyed s k) l d t args) (callTool (keyed s k') l e t args) := by
  obtain ⟨hhost, hengine, hnet, hint⟩ := seen_eq_iff.mp hd
  cases t with
  | executeCalculation => simp [Alike, callTool, seen_eq_iff, hhost, hengine, hnet, hint]
  | fetchGameData =>
    rw [callTool, callTool]
    dsimp only
    rw [connect_keyed hk, connect_keyed hk']
    cases address s.catalogueUrl with
    | error f => exact .same hd _
    | ok url =>
      obtain ⟨hv, hnet⟩ := fetchGames_alike args hnet
      exact ⟨congrArg (answer · false) hv, seen_eq_iff.mpr ⟨hhost, hengine, hnet, hint⟩⟩

/-- A call answers the same with two keys. -/
theorem call_alike (hk : k.truthy = true) (hk' : k'.truthy = true) (name args : Value)
    (hd : seen d = seen e) :
    Alike seen (call (keyed s k) l d name args) (call (keyed s k') l e name args) := by
  have henabled : ∀ key, toolEnabled (keyed s key) name = toolEnabled s name := fun _ => rfl
  -- Nothing reads the key before the tool is called, and every other way out leaves the desk.
  unfold call
  rw [henabled, henabled]
  cases readArguments args with
  | error _ => exact .same hd _
  | ok params =>
    cases toolEnabled s name with
    | error f => exact .same hd _
    | ok enabled =>
      cases Tool.ofName? name with
      | none => exact .same hd _
      | some t =>
        cases enabled with
        | false => exact .same hd _
        | true =>
          obtain ⟨hv, hdesk⟩ := callTool_alike (s := s) (l := l) hk hk' t params hd
          exact ⟨congrArg Except.ok hv, hdesk⟩

def callEach (s : Settings) (l : Limits) : Desk → List (Value × Value) →
    List (Except Failure Value) × Desk
  | d, [] => ([], d)
  | d, (name, args) :: calls =>
    let (r, d) := call s l d name args
    let (rs, d) := callEach s l d calls
    (r :: rs, d)

/-- No run of calls tells two keys apart: the answers are the same, and so are the requests but for
the key. -/
theorem callEach_alike (hk : k.truthy = true) (hk' : k'.truthy = true)
    (calls : List (Value × Value)) (hd : seen d = seen e) :
    Alike seen (callEach (keyed s k) l d calls) (callEach (keyed s k') l e calls) := by
  induction calls generalizing d e with
  | nil => exact .same hd _
  | cons q calls ih =>
    obtain ⟨name, args⟩ := q
    obtain ⟨hv, hdesk⟩ := call_alike (s := s) (l := l) hk hk' name args hd
    obtain ⟨hvs, hend⟩ := ih hdesk
    exact ⟨congrArg₂ List.cons hv hvs, hend⟩

end

end Reckoner.Proofs.Secrecy
