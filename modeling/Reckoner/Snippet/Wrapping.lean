namespace Reckoner.Snippet

/-- A block, whose value is that of its last statement, or a function that is called at once. -/
inductive Wrapping where
  | block
  | function
  deriving DecidableEq, Repr

/-- A snippet in its wrapping, on lines of its own. -/
def Wrapping.around (code : String) : Wrapping → List Char
  | block => "\x7b\n".toList ++ code.toList ++ "\n\x7d".toList
  | function => "(function () \x7b\n".toList ++ code.toList ++ "\n\x7d)();".toList

end Reckoner.Snippet
