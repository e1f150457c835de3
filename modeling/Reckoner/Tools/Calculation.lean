import Reckoner.Session.Execution
import Reckoner.Tools.Tool

namespace Reckoner.Tools

open Session

/-- An outcome as a record; a call that was rejected took no time. -/
def outcomeRecord : Outcome → Entries
  | .rejected m => [(.str "result", .none), (.str "success", .bool false), (.str "error", .str m)]
  | .failed m t =>
    [(.str "result", .none), (.str "success", .bool false), (.str "error", .str m),
     (.str "executionTime", .int t)]
  | .succeeded v t =>
    [(.str "result", v), (.str "success", .bool true), (.str "executionTime", .int t)]

/-- The data of a call; none is no field. -/
def dataOf (params : Entries) : Value :=
  match (params.field? "data").getD .none with
  | .none => .dict []
  | v => v

def calculate (l : Limits) (e : Engine) (h : Host) (params : Value) : Call :=
  match params.entries "get" with
  | .error f => ⟨.error f, h, e, []⟩
  | .ok es => execute l e h ((es.field? "code").getD .none) (dataOf es)

end Reckoner.Tools
