import Reckoner.Value.Members
import Reckoner.Value.Printed

namespace Reckoner.Catalogue

def filterNames : List String :=
  ["page", "page_size", "search", "platforms", "genres", "dates", "metacritic", "ordering"]

/-- The filters that count something and may be zero. -/
def pageNames : List String := ["page", "page_size"]

def isSent (name : String) (v : Value) : Bool :=
  if pageNames.contains name then !(v matches .none) else v.truthy

def parameter? (options : Entries) (name : String) : Option (Value × Value) :=
  let v := (options.field? name).getD .none
  if isSent name v then some (.str name, .str (String.ofList v.text)) else none

def parameters (options : Entries) : Entries := filterNames.filterMap (parameter? options)

/-- Whether a filter is written or not sent at all. -/
def isWritable (options : Entries) (name : String) : Bool :=
  let v := (options.field? name).getD .none
  !isSent name v || v.hasText

/-- The parameters of a query, unless an integer in one of them has too many digits. -/
def query (options : Value) : Except Failure Entries := do
  let es ← options.entries "get"
  if filterNames.all (isWritable es) then .ok (parameters es)
  else .error (.tooManyDigits none)

end Reckoner.Catalogue
