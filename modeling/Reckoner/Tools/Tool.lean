import Reckoner.Catalogue.Client
import Reckoner.Settings

namespace Reckoner

inductive Tool where
  | fetchGameData
  | executeCalculation
  deriving DecidableEq, Repr

namespace Tool

def all : List Tool := [fetchGameData, executeCalculation]

def name : Tool → String
  | fetchGameData => "fetch_game_data"
  | executeCalculation => "execute_calculation"

def ofName? (v : Value) : Option Tool := all.find? fun t => v.same (.str t.name)

def record (fields : List (String × Value)) : Value :=
  .dict (fields.map fun f => (.str f.1, f.2))

def textArgument (description : String) : Value :=
  record [("type", .str "string"), ("description", .str description)]

def catalogueArguments : Value :=
  record
    [("platform", textArgument
        "Platform ID or slug (e.g., 'pc', '4' for PC, 'playstation', '18' for PS4)"),
     ("genre", textArgument "Genre ID or slug (e.g., 'action', '4')"),
     ("dates", textArgument
        "Date range in format 'YYYY-MM-DD,YYYY-MM-DD' (e.g., '2024-01-01,2024-03-31')"),
     ("metacritic", textArgument
        "Metacritic score range in format 'min,max' (e.g., '80,100')"),
     ("page_size", record
        [("type", .str "number"),
         ("description", .str "Number of results per page (max 40)"),
         ("minimum", .int 1), ("maximum", .int Catalogue.maxPageSize)])]

def calculationArguments : Value :=
  record
    [("code", textArgument
        ("JavaScript code to execute. Should return a value. Code has access to " ++
          "data passed in the data parameter and helper functions.")),
     ("data", record
        [("type", .str "object"),
         ("description", .str "Data to make available to the code execution context")])]

/-- What a tool does, in a sentence or two. -/
def description : Tool → String
  | fetchGameData =>
    "Fetch game data from RAWG API with optional filters (platform, genre, date range, " ++
      "Metacritic score)"
  | executeCalculation =>
    "Execute JavaScript code for data analysis and calculations. " ++
      "Code has access to helper functions: avg(), sum(), max(), min(), groupBy()"

def inputSchema : Tool → Value
  | fetchGameData => record [("type", .str "object"), ("properties", catalogueArguments)]
  | executeCalculation =>
    record [("type", .str "object"), ("properties", calculationArguments),
      ("required", .list [.str "code", .str "data"])]

def descriptor (t : Tool) : Value :=
  record [("name", .str t.name), ("description", .str t.description),
    ("inputSchema", t.inputSchema)]

end Tool

def enabledTools (s : Settings) : Except Failure (List Tool) :=
  Tool.all.filterM fun t => toolEnabled s (.str t.name)

end Reckoner
