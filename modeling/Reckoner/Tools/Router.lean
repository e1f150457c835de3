import Reckoner.Json.Writer
import Reckoner.Tools.Calculation
import Reckoner.Tools.GameData

namespace Reckoner.Tools

open Session Catalogue

structure Desk where
  host : Host
  engine : Engine
  network : Network
  /-- The interpreters made so far. -/
  interpreters : List History

def content (text : List Char) (isError : Bool) : Value :=
  Tool.record
    [("content", .list [Tool.record [("type", .str "text"), ("text", .str (String.ofList text))]]),
     ("isError", .bool isError)]

def payloadText (v : Value) : Except Failure (List Char) := Json.write .pretty v

def errorText (message : String) : List Char :=
  match payloadText (Tool.record [("error", .str message)]) with
  | .ok cs => cs
  | .error _ => []

def errorContent (message : String) : Value := content (errorText message) true

/-- The answer of a payload; one that cannot be written is an error. -/
def answer (payload : Except Failure Value) (isError : Bool) : Value :=
  match payload.bind payloadText with
  | .ok text => content text isError
  | .error e => errorContent e.message

def failureRecord (m : String) : Option Int → Value
  | none => Tool.record [("error", .str m)]
  | some t => Tool.record [("error", .str m), ("executionTime", .int t)]

def outcomeAnswer : Except Failure Outcome → Value
  | .error e => errorContent e.message
  | .ok (.rejected m) => answer (.ok (failureRecord m none)) true
  | .ok (.failed m t) => answer (.ok (failureRecord m (some t))) true
  | .ok o => answer (.ok (.dict (outcomeRecord o))) false

def callTool (s : Settings) (l : Limits) (d : Desk) (t : Tool) (args : Value) : Value × Desk :=
  match t with
  | .executeCalculation =>
    let c := calculate l d.engine d.host args
    (outcomeAnswer c.outcome,
      { d with host := c.host, engine := c.engine,
               interpreters := d.interpreters ++ c.interpreters })
  | .fetchGameData =>
    match Client.connect s s.catalogueKey .none .none with
    | .error e => (errorContent e.message, d)
    | .ok client =>
      let (r, network) := fetchGames client args d.network
      (answer r false, { d with network := network })

/-- The arguments of a call: a text is read as JSON, and an empty value is no argument. -/
def readArguments : Value → Except Json.Error Value
  | .str s => Json.read (if s.isEmpty then ['\x7b', '\x7d'] else s.toList)
  | v => .ok (orElse v (.dict []))

/-- The failure of a name that no enabled tool has, unless the name cannot be shown. -/
def unknownTool (name : Value) : Failure :=
  if name.hasText then .unknownTool (String.ofList name.text) else .tooManyDigits none

/-- A call by name: the arguments are read, then the tool is looked up, then it is called. -/
def call (s : Settings) (l : Limits) (d : Desk) (name args : Value) :
    Except Failure Value × Desk :=
  match readArguments args with
  | .error e => (.ok (errorContent ("Invalid JSON args: " ++ e.message)), d)
  | .ok args =>
    match toolEnabled s name with
    | .error e => (.error e, d)
    | .ok enabled =>
      match Tool.ofName? name with
      | some t =>
        if enabled then
          let (v, d) := callTool s l d t args
          (.ok v, d)
        else (.error (unknownTool name), d)
      | none => (.error (unknownTool name), d)

end Reckoner.Tools
