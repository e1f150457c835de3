import Reckoner.Service.Rpc

namespace Reckoner.Service

open Tools Session

structure Page where
  status : Nat
  contentType : String
  body : String
  deriving Repr

def jsonPage (status : Nat) (v : Value) : Except Failure Page :=
  (Json.write .compact v).map fun cs => ⟨status, "application/json", String.ofList cs⟩

def detailPage (status : Nat) (detail : String) : Except Failure Page :=
  jsonPage status (Tool.record [("detail", .str detail)])

inductive Route where
  | health
  | rpc
  deriving DecidableEq, Repr

/-- The route of a path; a slash at its end and a query do not matter. -/
def Route.ofPath? (path : String) : Option Route :=
  let cs := path.toList.takeWhile (· ≠ '?')
  if cs = "/health".toList ∨ cs = "/health/".toList then some .health
  else if cs = "/mcp".toList ∨ cs = "/mcp/".toList then some .rpc
  else none

/-- What a process tells about itself, which no request decides. -/
structure Vitals where
  pid : Nat
  uptime : Int
  platform : String
  runtime : String
  /-- The share of the processor's time. -/
  load : Binary64
  /-- The bytes of memory that it holds. -/
  memory : Nat
  deriving Repr, Inhabited

def health (v : Vitals) (h : Host) : Value :=
  Tool.record
    [("status", .str "ok"),
     ("pid", .int v.pid),
     ("uptime_seconds", .int v.uptime),
     ("platform", .str v.platform),
     ("python", .str v.runtime),
     ("cpu_percent", .float v.load),
     ("memory_rss", .int v.memory),
     ("sandbox", Tool.record
       [("engine_loaded", .bool h.loader.loaded), ("live_interpreters", .int h.live)])]

def statusPage : Page := ⟨200, "text/plain; charset=utf-8", "MCP Server is running"⟩

def serve (s : Settings) (l : Limits) (v : Vitals) (d : Desk) (method path : String)
    (body : List UInt8) : Except Failure Page × Desk :=
  match Route.ofPath? path with
  | none => (detailPage 404 "Not Found", d)
  | some .health =>
    if method = "GET" then (jsonPage 200 (health v d.host), d)
    else (detailPage 405 "Method Not Allowed", d)
  | some .rpc =>
    if method = "GET" then (.ok statusPage, d)
    else if method = "POST" then
      let (r, d) := respond s l d body
      (r.bind fun a => jsonPage a.status a.toValue, d)
    else (detailPage 405 "Method Not Allowed", d)

end Reckoner.Service
