import Reckoner.Tools.Tool
import Reckoner.Value.Integer

namespace Reckoner.Tools

open Catalogue

/-- The arguments that are filters, and the filters they are. -/
def filterArguments : List (String × String) :=
  [("platform", "platforms"), ("genre", "genres"), ("dates", "dates"),
   ("metacritic", "metacritic")]

def textFilters (params : Entries) : Entries :=
  filterArguments.filterMap fun a =>
    let v := (params.field? a.1).getD .none
    if v.truthy then some (.str a.2, v) else none

/-- The page size of an argument, held below the greatest one; an empty one is none. -/
def pageSize (params : Entries) : Except Failure Entries :=
  let v := (params.field? "page_size").getD .none
  if v.truthy then
    v.toInteger.map fun n => [(.str "page_size", .int (min n maxPageSize))]
  else .ok []

def filtersOf (params : Value) : Except Failure Entries := do
  let es ← params.entries "get"
  let size ← pageSize es
  return textFilters es ++ size

def gamesRecord (filters : Entries) (answer : Value) : Except Failure Value :=
  (answer.entries "get").map fun es =>
    Tool.record
      [("games", (es.field? "results").getD (.list [])),
       ("count", (es.field? "count").getD (.int 0)),
       ("filters", .dict filters)]

def fetchGames (c : Client) (params : Value) : Exchange Value :=
  match filtersOf params with
  | .error e => .fail e
  | .ok filters => (c.games (.dict filters)).andThen (gamesRecord filters)

end Reckoner.Tools
