import Reckoner.Failure
import Reckoner.Number.Layout
import Reckoner.Text.Quoted

namespace Reckoner.Logging

/-- What a level's name stands for: a number, or a text or table that is no level. -/
inductive LevelName where
  | number (n : Int)
  | text (s : String)
  | table (shown : String)
  deriving DecidableEq, Repr

/-- A letter in upper case; two letters beyond ASCII have an upper case inside it. -/
def upper (c : Char) : Char :=
  if c = '\u017F' then 'S' else if c = '\u0131' then 'I' else c.toUpper

def info : Int := 20

def warning : Int := 30

/-- The styles of records by their signs, as an error shows them. -/
def stylesText : String :=
  "\x7b'%': (<class 'logging.PercentStyle'>, '%(levelname)s:%(name)s:%(message)s'), " ++
    "'\x7b': (<class 'logging.StrFormatStyle'>, " ++
    "'\x7blevelname\x7d:\x7bname\x7d:\x7bmessage\x7d'), " ++
    "'$': (<class 'logging.StringTemplateStyle'>, " ++
    "'$\x7blevelname\x7d:$\x7bname\x7d:$\x7bmessage\x7d')\x7d"

/-- What a name in any case stands for; an unknown name is the usual level. -/
def LevelName.ofString (s : String) : LevelName :=
  match String.ofList (s.toList.map upper) with
  | "CRITICAL" => .number 50
  | "FATAL" => .number 50
  | "ERROR" => .number 40
  | "WARNING" => .number warning
  | "WARN" => .number warning
  | "INFO" => .number info
  | "DEBUG" => .number 10
  | "NOTSET" => .number 0
  | "BASIC_FORMAT" => .text "%(levelname)s:%(name)s:%(message)s"
  | "_STYLES" => .table stylesText
  | _ => .number info

def level (name : String) : Except Failure Int :=
  match LevelName.ofString name with
  | .number n => .ok n
  | .text s => .error (.unknownLevel (String.ofList (Text.quoted s.toList)))
  | .table shown => .error (.noLevel shown)

def levelText (n : Int) : List Char :=
  if n = 50 then "CRITICAL".toList
  else if n = 40 then "ERROR".toList
  else if n = 30 then "WARNING".toList
  else if n = 20 then "INFO".toList
  else if n = 10 then "DEBUG".toList
  else if n = 0 then "NOTSET".toList
  else "Level ".toList ++ intText n

end Reckoner.Logging
