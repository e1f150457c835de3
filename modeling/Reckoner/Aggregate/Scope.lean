import Reckoner.Aggregate.Group

namespace Reckoner.Aggregate

def pair (index : Nat) (v : Value) : Except Failure (Value × Value) :=
  match v.iterate with
  | .error _ => .error (.noPair index)
  | .ok [k, w] =>
    match k.unhashable? with
    | some kind => .error (.unhashable kind)
    | none => .ok (k, w)
  | .ok vs => .error (.pairLength index vs.length)

def entriesFrom (index : Nat) (es : Entries) : List Value → Except Failure Entries
  | [] => .ok es
  | v :: vs =>
    match pair index v with
    | .error e => .error e
    | .ok (k, w) => entriesFrom (index + 1) (es.insert k w) vs

/-- The entries of a dictionary or of a list of pairs; an empty value has none. -/
def entries (data : Value) : Except Failure Entries :=
  if data.truthy then
    match data with
    | .dict es => .ok es
    | v =>
      match v.iterate with
      | .error e => .error e
      | .ok vs => entriesFrom 0 [] vs
  else .ok []

def helperEntries : Entries := Helper.all.map fun h => (.str h.name, .helper h)

/-- The data's fields with the helpers, which take the place of fields of their names. -/
def scope (data : Value) : Except Failure Entries := (entries data).map (·.insertAll helperEntries)

/-- How a helper calls itself and its parameters when arguments do not fit. -/
def signature : Helper → String × List String
  | .avg => ("avg", ["numbers"])
  | .sum => ("sum_values", ["numbers"])
  | .max => ("max_value", ["numbers"])
  | .min => ("min_value", ["numbers"])
  | .groupBy => ("group_by", ["items", "key_path"])

def listed : List String → String
  | [] => ""
  | [n] => s!"'{n}'"
  | [n, m] => s!"'{n}' and '{m}'"
  | n :: ns => s!"'{n}', " ++ listed ns

def plural (n : Nat) (word : String) : String := if n = 1 then word else word ++ "s"

/-- The wording for arguments of another count than the parameters. -/
def arityMessage (name : String) (parameters : List String) (given : Nat) : String :=
  let wanted := parameters.length
  if given < wanted then
    let lacking := parameters.drop given
    s!"{name}() missing {lacking.length} required positional " ++
      plural lacking.length "argument" ++ ": " ++ listed lacking
  else
    s!"{name}() takes {wanted} positional " ++ plural wanted "argument" ++ s!" but {given} " ++
      (if given = 1 then "was" else "were") ++ " given"

def apply (h : Helper) (args : List Value) : Except Failure Value :=
  match h, args with
  | .avg, [v] => (average v).map .float
  | .sum, [v] => (sum v).map Number.toValue
  | .max, [v] => (greatest v).map Number.toValue
  | .min, [v] => (least v).map Number.toValue
  | .groupBy, [items, key] => (groupBy items key).map Groups.toValue
  | h, args =>
    .error (.wrongArguments (arityMessage (signature h).1 (signature h).2 args.length))

def call (es : Entries) (name : Value) (args : List Value) : Except Failure Value :=
  match es.get? name with
  | none => .error (.unknownName name)
  | some (.helper h) => apply h args
  | some .function => .ok .none
  | some v => .error (.notCallable v.kind)

end Reckoner.Aggregate
