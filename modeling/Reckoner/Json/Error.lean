namespace Reckoner.Json

inductive Problem where
  | value
  | name
  | colon
  | comma
  | extra
  | unterminated
  | control
  | escape
  | unicode
  | byteOrderMark
  deriving DecidableEq, Repr

def Problem.text : Problem → String
  | .value => "Expecting value"
  | .name => "Expecting property name enclosed in double quotes"
  | .colon => "Expecting ':' delimiter"
  | .comma => "Expecting ',' delimiter"
  | .extra => "Extra data"
  | .unterminated => "Unterminated string starting at"
  | .control => "Invalid control character at"
  | .escape => "Invalid \\escape"
  | .unicode => "Invalid \\uXXXX escape"
  | .byteOrderMark => "Unexpected UTF-8 BOM (decode using utf-8-sig)"

/-- A problem at a place, or an integer with too many digits. -/
inductive Error where
  | located (problem : Problem) (line column position : Nat)
  | tooManyDigits (digits : Nat)
  deriving DecidableEq, Repr

def Error.after (problem : Problem) (before : List Char) : Error :=
  .located problem (before.count '\n' + 1) ((before.reverse.takeWhile (· != '\n')).length + 1)
    before.length

end Reckoner.Json
