import Reckoner.Catalogue.Query
import Reckoner.Json.Reader
import Reckoner.Settings

namespace Reckoner.Catalogue

def maxPageSize : Int := 40

structure Request where
  url : String
  headers : Value
  params : Value
  timeout : Value
  deriving Repr

/-- What comes back of a request: an answer, or a fault of the network, which has a text. -/
inductive Response where
  | answered (status : Int) (reason : Option String) (body : String)
  | raised (f : Fault) (worded : f.hasText = true)
  deriving Repr

/-- The answers to come, and the requests sent so far. -/
structure Network where
  responses : List Response
  requests : List Request
  deriving Repr, Inhabited

abbrev Exchange (α : Type) := Network → Except Failure α × Network

namespace Exchange

def fail (e : Failure) : Exchange α := fun n => (.error e, n)

def give (r : Except Failure α) : Exchange α := fun n => (r, n)

/-- An operation whose result goes through a step of its own. -/
def andThen (x : Exchange α) (f : α → Except Failure β) : Exchange β := fun n =>
  match x n with
  | (.error e, n) => (.error e, n)
  | (.ok a, n) => (f a, n)

/-- The step of its own sends nothing. -/
theorem andThen_eq (x : Exchange α) (f : α → Except Failure β) (n : Network) :
    x.andThen f n = ((x n).1.bind f, (x n).2) := by
  unfold andThen
  obtain ⟨_ | _, _⟩ := x n <;> rfl

end Exchange

/-- A client: its key, where the catalogue is, and how long an answer may take. -/
structure Client where
  key : Value
  baseUrl : String
  timeout : Value
  deriving Repr

def withoutSlashes (s : String) : String := String.ofList (Text.trimEnd (· == '/') s.toList)

def address : Value → Except Failure String
  | .str s => .ok (withoutSlashes s)
  | .bytes _ => .error .textForBytes
  | v => .error (.noMember v.kind "rstrip")

def orElse (v w : Value) : Value := if v.truthy then v else w

/-- A client for a key; what is not given comes from the settings. -/
def Client.connect (s : Settings) (key baseUrl timeout : Value) : Except Failure Client :=
  if key.truthy then
    (address (orElse baseUrl s.catalogueUrl)).map fun url =>
      ⟨key, url, orElse timeout s.catalogueTimeout⟩
  else .error .keyRequired

def headers : Value := .dict [(.str "Content-Type", .str "application/json")]

def exhausted : Fault := ⟨.runtime, [.str "no scripted response left"], none⟩

def Network.send (n : Network) (r : Request) : Response × Network :=
  match n.responses with
  | [] => (.raised exhausted rfl, { n with requests := n.requests ++ [r] })
  | x :: xs => (x, ⟨xs, n.requests ++ [r]⟩)

theorem Network.requests_send (n : Network) (r : Request) :
    (n.send r).2.requests = n.requests ++ [r] := by
  unfold send
  split <;> rfl

/-- The body of an answer; a byte order mark in front of it is dropped. -/
def readBody (body : String) : Except Failure Value :=
  let cs := body.toList
  let cs := if cs.head? = some '\uFEFF' then cs.drop 1 else cs
  (Json.read cs).mapError .json

/-- What a response gives: the value of its body, unless its status is an error. -/
def Response.value : Response → Except Failure Value
  | .raised f _ => .error (.fault f)
  | .answered status reason body =>
    if status < 400 then readBody body else .error (.catalogue status (reason.getD "None"))

namespace Client

def withKey (c : Client) (params : Entries) : Entries := params.insert (.str "key") c.key

def requestFor (c : Client) (endpoint : String) (params : Entries) : Request :=
  ⟨c.baseUrl ++ endpoint, headers, .dict (c.withKey params), c.timeout⟩

def fetch (c : Client) (endpoint : String) (params : Entries) : Exchange Value := fun n =>
  let (r, n) := n.send (c.requestFor endpoint params)
  (r.value, n)

def games (c : Client) (filters : Value) : Exchange Value :=
  match query (orElse filters (.dict [])) with
  | .error e => .fail e
  | .ok params => c.fetch "/games" params

def memberOr (name : String) (default answer : Value) : Except Failure Value :=
  (answer.entries "get").map fun es => (es.field? name).getD default

def results (c : Client) (endpoint : String) : Exchange Value :=
  (c.fetch endpoint []).andThen (memberOr "results" (.list []))

def genres (c : Client) : Exchange Value := c.results "/genres"

def platforms (c : Client) : Exchange Value := c.results "/platforms"

/-- What a page adds, and whether another page follows it. -/
def pageOf (answer : Value) : Except Failure (List Value × Bool) := do
  let es ← answer.entries "get"
  let results := orElse ((es.field? "results").getD .none) (.list [])
  let found ← results.iterate
  return (found, ((es.field? "next").getD .none).truthy && results.truthy)

def pageFilters (filters : Entries) (page : Nat) : Entries :=
  (filters.insert (.str "page") (.int page)).insert (.str "page_size") (.int maxPageSize)

def gamesPage (c : Client) (filters : Entries) (page : Nat) : Exchange (List Value × Bool) :=
  (c.games (.dict (pageFilters filters page))).andThen pageOf

/-- The games of a page and of all that follow it; every page takes one of the answers to come. -/
def gamesFrom (c : Client) (filters : Entries) (page : Nat) :
    List Response → List Request → Except Failure (List Value) × Network
  | [], sent =>
    let (r, n) := c.gamesPage filters page ⟨[], sent⟩
    (r.map Prod.fst, n)
  | x :: xs, sent =>
    match c.gamesPage filters page ⟨x :: xs, sent⟩ with
    | (.error e, n) => (.error e, n)
    | (.ok (found, false), n) => (.ok found, n)
    | (.ok (found, true), n) =>
      let (rest, n) := gamesFrom c filters (page + 1) xs n.requests
      (rest.map (found ++ ·), n)

def allGames (c : Client) (filters : Value) : Exchange Value := fun n =>
  match orElse filters (.dict []) with
  | .dict es =>
    let (r, n) := c.gamesFrom es 1 n.responses n.requests
    (r.map .list, n)
  | v => (.error (.notMapping v.kind), n)

end Client

end Reckoner.Catalogue
