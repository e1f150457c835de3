import Reckoner.Text.Utf8
import Reckoner.Tools.Router

namespace Reckoner.Service

open Tools Session

/-- A request envelope; the identifier is an integer, a text or nothing. -/
structure Envelope where
  id : Value
  method : Option String
  params : Entries
  deriving Repr

/-- The greatest magnitude, exclusive, of a floating point identifier: `2 ^ 63`. -/
def idLimit : Int := 0x8000000000000000

/-- An identifier as it is answered: whole numbers and truth values become integers. -/
def readId : Value → Option Value
  | .none => some .none
  | .int n => some (.int n)
  | .str s => some (.str s)
  | .bool b => some (.int (if b then 1 else 0))
  | .float x =>
    match x.trunc? with
    | some n => if x.isWhole && -idLimit < n && n < idLimit then some (.int n) else none
    | none => none
  | _ => none

def readMethod : Value → Option (Option String)
  | .none => some none
  | .str s => some (some s)
  | _ => none

def readObject : Value → Option Entries
  | .dict es => some es
  | _ => none

def hasVersion (es : Entries) : Bool :=
  match es.field? "jsonrpc" with
  | none => true
  | some (.str _) => true
  | some _ => false

def Envelope.ofValue? (v : Value) : Option Envelope := do
  let es ← readObject v
  let id ← readId ((es.field? "id").getD .none)
  let method ← readMethod ((es.field? "method").getD .none)
  let params ← readObject ((es.field? "params").getD (.dict []))
  if hasVersion es then some ⟨id, method, params⟩ else none

inductive RpcError where
  /-- The body is no JSON text. -/
  | parse (message : String)
  /-- The body is no envelope, or names no method. -/
  | invalid
  /-- No enabled tool has the name. -/
  | params (message : String)
  /-- There is no such method. -/
  | method (name : String)
  deriving Repr

namespace RpcError

def code : RpcError → Int
  | parse _ => -32700
  | invalid => -32600
  | params _ => -32602
  | method _ => -32601

def status : RpcError → Nat
  | parse _ => 500
  | invalid => 400
  | params _ => 400
  | method _ => 404

def message : RpcError → String
  | parse m => "Parse error: " ++ m
  | invalid => "Invalid Request"
  | params m => m
  | method name => "Method not found: " ++ name

end RpcError

/-- An answer to a request: whose it is, and a result or an error. -/
structure Answer where
  id : Value
  body : Except RpcError Value

namespace Answer

def status (a : Answer) : Nat :=
  match a.body with
  | .ok _ => 200
  | .error e => e.status

def toValue (a : Answer) : Value :=
  match a.body with
  | .ok v => Tool.record [("jsonrpc", .str "2.0"), ("id", a.id), ("result", v)]
  | .error e =>
    Tool.record [("jsonrpc", .str "2.0"), ("id", a.id),
      ("error", Tool.record [("code", .int e.code), ("message", .str e.message)])]

end Answer

def protocolVersion : String := "2024-11-05"

def introduction (s : Settings) : Value :=
  Tool.record
    [("protocolVersion", .str protocolVersion),
     ("serverInfo", Tool.record [("name", s.serverName), ("version", s.serverVersion)]),
     ("capabilities", Tool.record [("tools", .dict [])])]

def parameter (es : Entries) (name : String) : Value := (es.field? name).getD .none

def calledName (params : Entries) : Value :=
  Catalogue.orElse (parameter params "name")
    (Catalogue.orElse (parameter params "tool") (.str ""))

def callNamed (s : Settings) (l : Limits) (d : Desk) (params : Entries) :
    Except Failure (Except RpcError Value) × Desk :=
  let args := Catalogue.orElse (parameter params "arguments") (.dict [])
  match call s l d (calledName params) args with
  | (.ok v, d) => (.ok (.ok v), d)
  | (.error (.unknownTool shown), d) =>
    (.ok (.error (.params (Failure.unknownTool shown).message)), d)
  | (.error e, d) => (.error e, d)

def listing (s : Settings) : Except Failure Value :=
  (enabledTools s).map fun ts => Tool.record [("tools", .list (ts.map Tool.descriptor))]

def dispatch (s : Settings) (l : Limits) (d : Desk) (method : String) (params : Entries) :
    Except Failure (Except RpcError Value) × Desk :=
  if method = "initialize" then (.ok (.ok (introduction s)), d)
  else if method = "tools/list" then ((listing s).map .ok, d)
  else if method = "tools/call" then callNamed s l d params
  else (.ok (.error (.method method)), d)

def readBody (body : List UInt8) : Except RpcError Value :=
  match Text.Utf8.decode body with
  | .error e => .error (.parse e.text)
  | .ok cs => (Json.read cs).mapError fun e => .parse e.message

def respond (s : Settings) (l : Limits) (d : Desk) (body : List UInt8) :
    Except Failure Answer × Desk :=
  match readBody body with
  | .error e => (.ok ⟨.none, .error e⟩, d)
  | .ok v =>
    match Envelope.ofValue? v with
    | none => (.ok ⟨.none, .error .invalid⟩, d)
    | some env =>
      match env.method with
      | none => (.ok ⟨env.id, .error .invalid⟩, d)
      | some "" => (.ok ⟨env.id, .error .invalid⟩, d)
      | some method =>
        let (r, d) := dispatch s l d method env.params
        (r.map (⟨env.id, ·⟩), d)

end Reckoner.Service
