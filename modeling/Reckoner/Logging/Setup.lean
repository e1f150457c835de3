import Reckoner.Logging.Level
import Reckoner.Text.Blank

namespace Reckoner.Logging

inductive Sink where
  | console
  /-- A file that starts anew when it is full. -/
  | file (path : String)
  deriving DecidableEq, Repr

structure Handler where
  sink : Sink
  level : Int
  deriving DecidableEq, Repr

structure Log where
  configured : Bool
  level : Int
  handlers : List Handler
  /-- The files that exist. -/
  files : List String
  deriving Repr

def Log.start : Log := ⟨false, warning, [], []⟩

/-- The size at which a file starts anew, and how many full files are kept. -/
def maxBytes : Nat := 2000000

def backups : Nat := 5

/-- The steps of a path, with the steps back taken. -/
def resolve : List (List Char) → List (List Char) → List (List Char)
  | done, [] => done.reverse
  | done, p :: ps =>
    if p = [] ∨ p = ['.'] then resolve done ps
    else if p = ['.', '.'] then
      match done with
      | [] => resolve [p] ps
      | d :: ds => if d = p then resolve (p :: d :: ds) ps else resolve ds ps
    else resolve (p :: done) ps

def fileName : String := "app.log"

def logPath (dir : String) : String :=
  let steps := resolve [] (Text.splitAt '/' dir.toList ++ [fileName.toList])
  String.ofList (['/'].intercalate steps)

/-- Whether a path leads out of the directory it starts from. -/
def leavesDirectory (path : String) : Bool := "../".toList.isPrefixOf path.toList

namespace Log

/-- The log with a handler for its file. -/
def openFile (l : Log) (level : Int) (dir : String) : Except Failure Unit × Log :=
  if dir.isEmpty then
    (.error (.noDirectory (String.ofList (Text.quoted dir.toList))), l)
  else
    let path := logPath dir
    (.ok (), { l with handlers := l.handlers ++ [⟨.file path, level⟩],
                      files := if leavesDirectory path then l.files else l.files ++ [path] })

def configure (l : Log) (levelName : String) (toFile : Bool) (dir : String) :
    Except Failure Unit × Log :=
  if l.configured then (.ok (), l)
  else
    let l := { l with configured := true }
    match Logging.level levelName with
    | .error e => (.error e, l)
    | .ok n =>
      let l := { l with level := n, handlers := l.handlers ++ [⟨.console, n⟩] }
      if toFile then l.openFile n dir else (.ok (), l)

end Log

end Reckoner.Logging
