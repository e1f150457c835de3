import Reckoner.Failure

namespace Reckoner.Session

/-- The imports to come; the last outcome repeats for ever, and without any imports succeed. -/
structure Imports where
  outcomes : List (Option Fault)
  deriving Repr, Inhabited

/-- The fault of the next import, if it fails, and the imports after it. -/
def Imports.next (i : Imports) : Option Fault × Imports :=
  match i.outcomes with
  | [] => (none, i)
  | [o] => (o, i)
  | o :: p :: rest => (o, ⟨p :: rest⟩)

/-- A handle to the engine: whether it is loaded, and the imports made so far. -/
structure Loader where
  moduleName : String
  loaded : Bool
  imported : Nat
  imports : Imports
  deriving Repr, Inhabited

namespace Loader

def defaultModule : String := "quickjs"

def start (moduleName : String) (imports : Imports) : Loader := ⟨moduleName, false, 0, imports⟩

/-- The failure that an import's fault means: a missing module is reported as such, in the words of
the fault. -/
def failureOf (f : Fault) : Failure :=
  if f.kind.family = .importing then
    match f.words with
    | .ok m => .engineLoad m
    | .error e => e
  else .fault f

/-- The engine loaded, by an import unless it is there already. -/
def load (l : Loader) : Except Failure Unit × Loader :=
  if l.loaded then (.ok (), l)
  else
    match l.imports.next with
    | (none, rest) =>
      (.ok (), { l with loaded := true, imported := l.imported + 1, imports := rest })
    | (some f, rest) =>
      (.error (failureOf f), { l with imported := l.imported + 1, imports := rest })

theorem load_of_loaded {l : Loader} (h : l.loaded = true) : l.load = (.ok (), l) := by
  simp [load, h]

/-- One import, and what it makes of a loader without an engine. -/
theorem load_of_unloaded {l : Loader} (h : l.loaded = false) :
    l.load = (l.imports.next.1.elim (.ok ()) (fun f => .error (failureOf f)),
      ⟨l.moduleName, l.imports.next.1.isNone, l.imported + 1, l.imports.next.2⟩) := by
  unfold load
  rw [if_neg (by simp [h])]
  cases hi : l.imports.next with
  | mk o rest =>
    cases o with
    | none => rfl
    | some f => simp [h]

/-- A loader gives the engine, or has none and its next import fails. -/
theorem load_cases (l : Loader) :
    (l.loaded = false ∧ ∃ f, l.imports.next.1 = some f) ∨ ∃ l', l.load = (.ok (), l') := by
  cases hl : l.loaded with
  | true => exact .inr ⟨_, load_of_loaded hl⟩
  | false =>
    cases hf : l.imports.next.1 with
    | none => exact .inr ⟨_, by rw [load_of_unloaded hl, hf]; rfl⟩
    | some f => exact .inl ⟨rfl, f, rfl⟩

/-- The engine loaded for several callers, one after the other; the first failure is theirs. -/
def loadAll (l : Loader) : Nat → Except Failure Unit × Loader
  | 0 => (.ok (), l)
  | n + 1 =>
    let (r, l) := l.load
    let (rs, l) := l.loadAll n
    (match r with
      | .error e => .error e
      | .ok _ => rs, l)

end Loader

end Reckoner.Session
