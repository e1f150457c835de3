import Reckoner.Value.Integer
import Reckoner.Value.Members

namespace Reckoner

open Text

/-- The settings that every part of the service reads. -/
structure Settings where
  serverName : Value
  serverVersion : Value
  catalogueKey : Value
  catalogueUrl : Value
  catalogueTimeout : Value
  logsDir : Value
  logLevel : Value
  logToFile : Value
  enabledTools : Value
  deriving Repr, Inhabited

abbrev Environment := List (String × String)

def Environment.get (env : Environment) (name default : String) : String :=
  (env.lookup name).getD default

def affirmatives : List String := ["1", "true", "yes", "y"]

/-- A text as a switch; letters count in either case. -/
def switch (s : String) : Bool :=
  affirmatives.contains (String.ofList (s.toList.map Char.toLower))

/-- The parts of a text between commas, trimmed, without the empty ones. -/
def commaList (s : String) : List String :=
  (((splitAt ',' s.toList).map strip).filter fun p => !p.isEmpty).map String.ofList

namespace Settings

def ofEnvironment (env : Environment) : Except Failure Settings :=
  (integerOfText (env.get "HTTP_TIMEOUT_SEC" "12").toList).map fun timeout =>
    { serverName := .str (env.get "SERVER_NAME" "game-analytics-mcp")
      serverVersion := .str (env.get "SERVER_VERSION" "1.0.0")
      catalogueKey := .str (env.get "RAWG_API_KEY" "")
      catalogueUrl := .str (env.get "RAWG_BASE_URL" "https://api.rawg.io/api")
      catalogueTimeout := .int timeout
      logsDir := .str (env.get "LOGS_DIR" "logs")
      logLevel := .str (env.get "LOG_LEVEL" "INFO")
      logToFile := .bool (switch (env.get "LOG_TO_FILE" "true"))
      enabledTools := .tuple ((commaList (env.get "ENABLED_TOOLS" "*")).map .str) }

def toEntries (s : Settings) : Entries :=
  [(.str "server_name", s.serverName), (.str "server_version", s.serverVersion),
   (.str "rawg_api_key", s.catalogueKey), (.str "rawg_base_url", s.catalogueUrl),
   (.str "http_timeout_sec", s.catalogueTimeout), (.str "logs_dir", s.logsDir),
   (.str "log_level", s.logLevel), (.str "log_to_file", s.logToFile),
   (.str "enabled_tools", s.enabledTools)]

def set (s : Settings) (name : String) (v : Value) : Settings :=
  match name with
  | "server_name" => { s with serverName := v }
  | "server_version" => { s with serverVersion := v }
  | "rawg_api_key" => { s with catalogueKey := v }
  | "rawg_base_url" => { s with catalogueUrl := v }
  | "http_timeout_sec" => { s with catalogueTimeout := v }
  | "logs_dir" => { s with logsDir := v }
  | "log_level" => { s with logLevel := v }
  | "log_to_file" => { s with logToFile := v }
  | "enabled_tools" => { s with enabledTools := v }
  | _ => s

def everyTool : Value := .tuple [.str "*"]

end Settings

/-- Whether the settings enable a tool; no setting at all enables every tool. -/
def toolEnabled (s : Settings) (name : Value) : Except Failure Bool :=
  if !s.enabledTools.truthy || s.enabledTools.same Settings.everyTool then .ok true
  else s.enabledTools.holds name

end Reckoner
