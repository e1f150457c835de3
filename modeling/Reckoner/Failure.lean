import Reckoner.Fault
import Reckoner.Json.Error

namespace Reckoner

inductive Failure where
  /-- An edge of the program raised a fault. -/
  | fault (f : Fault)
  /-- A value of this kind has no elements. -/
  | notIterable (kind : String)
  /-- A value of this kind lacks a member. -/
  | noMember (kind member : String)
  /-- A value of this kind has no keys to spread. -/
  | notMapping (kind : String)
  /-- A value of this kind cannot be called. -/
  | notCallable (kind : String)
  /-- A value of this kind cannot be a key. -/
  | unhashable (kind : String)
  /-- A name that is not there. -/
  | unknownName (name : Value)
  /-- Too few or too many arguments. -/
  | wrongArguments (message : String)
  /-- An element of a list of entries is no pair, or a pair of another length. -/
  | noPair (index : Nat)
  | pairLength (index length : Nat)
  /-- An integer past the largest finite number. -/
  | tooLargeForFloat
  /-- A sum of finite numbers past the largest finite number. -/
  | sumOverflow
  /-- A text or bytes that write no integer, as they are shown. -/
  | malformedInteger (shown : String)
  /-- An integer with too many digits to be read, as many as these, or to be written. -/
  | tooManyDigits (digits? : Option Nat)
  /-- A value of this kind is not converted to an integer. -/
  | notNumeric (kind : String)
  | nanToInteger
  | infinityToInteger
  /-- A text pattern was searched for in bytes. -/
  | patternOnBytes
  /-- Bytes were to be trimmed of a text. -/
  | textForBytes
  /-- A name was sought in a value of this kind, which holds none. -/
  | notContainer (kind : String)
  /-- A value of this kind was sought in a text. -/
  | notInText (kind : String)
  /-- A value of this kind cannot name a member of an object. -/
  | badKey (kind : String)
  /-- A value of this kind cannot be written. -/
  | badValue (kind : String)
  /-- A value that holds itself cannot be written. -/
  | circular
  /-- A number that is not finite cannot be written. -/
  | notFinite
  | json (e : Json.Error)
  /-- The catalogue needs a key. -/
  | keyRequired
  /-- The catalogue answered with an error status. -/
  | catalogue (status : Int) (reason : String)
  /-- The engine could not be loaded. -/
  | engineLoad (message : String)
  /-- A snippet or its payload was rejected before it ran. -/
  | rejected (message : String)
  /-- No enabled tool has this name, as it is shown. -/
  | unknownTool (shown : String)
  /-- A log level that is a text without a number. -/
  | unknownLevel (shown : String)
  /-- A log level that is neither a number nor a text. -/
  | noLevel (shown : String)
  /-- A directory that cannot be made. -/
  | noDirectory (path : String)
  deriving Repr

namespace Failure

def tooManyDigitsText (digits? : Option Nat) : String :=
  let count := match digits? with
    | some digits => s!": value has {digits} digits"
    | none => ""
  s!"Exceeds the limit (4300 digits) for integer string conversion{count}; " ++
    "use sys.set_int_max_str_digits() to increase the limit"

end Failure

def Json.Error.message : Json.Error → String
  | .located problem line column position =>
    s!"{problem.text}: line {line} column {column} (char {position})"
  | .tooManyDigits digits => Failure.tooManyDigitsText (some digits)

namespace Failure

def message : Failure → String
  | fault f => String.ofList f.message
  | notIterable kind => s!"'{kind}' object is not iterable"
  | noMember kind member => s!"'{kind}' object has no attribute '{member}'"
  | notMapping kind => s!"'{kind}' object is not a mapping"
  | notCallable kind => s!"'{kind}' object is not callable"
  | unhashable kind => s!"unhashable type: '{kind}'"
  | unknownName name => String.ofList name.shown
  | wrongArguments message => message
  | noPair index => s!"cannot convert dictionary update sequence element #{index} to a sequence"
  | pairLength index length =>
    s!"dictionary update sequence element #{index} has length {length}; 2 is required"
  | tooLargeForFloat => "int too large to convert to float"
  | sumOverflow => "intermediate overflow in fsum"
  | malformedInteger shown => s!"invalid literal for int() with base 10: {shown}"
  | tooManyDigits digits? => tooManyDigitsText digits?
  | notNumeric kind =>
    s!"int() argument must be a string, a bytes-like object or a real number, not '{kind}'"
  | nanToInteger => "cannot convert float NaN to integer"
  | infinityToInteger => "cannot convert float infinity to integer"
  | patternOnBytes => "cannot use a string pattern on a bytes-like object"
  | textForBytes => "a bytes-like object is required, not 'str'"
  | notContainer kind => s!"argument of type '{kind}' is not iterable"
  | notInText kind => s!"'in <string>' requires string as left operand, not {kind}"
  | badKey kind => s!"keys must be str, int, float, bool or None, not {kind}"
  | badValue kind => s!"Object of type {kind} is not JSON serializable"
  | circular => "Circular reference detected"
  | notFinite => "Out of range float values are not JSON compliant"
  | json e => e.message
  | keyRequired => "RAWG API key is required"
  | catalogue status reason => s!"RAWG API error: {status} {reason}"
  | engineLoad message => s!"Engine initialization failed: {message}"
  | rejected message => s!"Validation failed: {message}"
  | unknownTool shown => s!"Unknown tool: {shown}"
  | unknownLevel shown => s!"Unknown level: {shown}"
  | noLevel shown => s!"Level not an integer or a valid string: {shown}"
  | noDirectory path => s!"[Errno 2] No such file or directory: {path}"

/-- The first line of the message, or of the quoted fault when a fault has a blank message. -/
def description : Failure → String
  | fault f => String.ofList f.description
  | e => String.ofList (Text.firstLine (Text.strip e.message.toList))

end Failure

/-- A fault in words, unless an integer in them has too many digits. -/
def Fault.words (f : Fault) : Except Failure String :=
  if f.hasText then .ok (String.ofList f.message) else .error (.tooManyDigits none)

/-- A failure described in one line; only the description of a fault can fail itself. -/
def Failure.line : Failure → Except Failure String
  | fault f =>
    if f.isDescribable then .ok (fault f).description else .error (.tooManyDigits none)
  | e => .ok e.description

end Reckoner
