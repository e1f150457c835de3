namespace Reckoner.Text

/-- Whether letters stand together somewhere in a text. -/
def occurs (letters : List Char) : List Char → Bool
  | [] => letters.isEmpty
  | c :: cs => letters.isPrefixOf (c :: cs) || occurs letters cs

def mentions (words : String) (cs : List Char) : Bool := occurs words.toList cs

end Reckoner.Text
