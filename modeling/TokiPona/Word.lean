import TokiPona.Text.Uppercase

namespace TokiPona.Word

/-- Names and loan words are written with a capital. -/
def isProper (w : String) : Bool :=
  match w.toList with
  | c :: _ => Text.isUppercase c
  | [] => false

/-- A numeral literal is `#` followed by ASCII letters or digits, as in `#ATLW`. -/
def isNumeral (w : String) : Bool :=
  match w.toList with
  | '#' :: c :: cs => (c :: cs).all Char.isAlphanum
  | _ => false

def isLongNumeral (w : String) : Bool := isNumeral w && 2 < w.length

/-- A preposition carries the mark `~`; the mark alone is a word like any other. -/
def isPreposition (w : String) : Bool :=
  match w.toList with
  | '~' :: _ :: _ => true
  | _ => false

def bare (w : String) : String :=
  match w.toList with
  | '~' :: c :: cs => String.ofList (c :: cs)
  | _ => w

def spaced (words : List String) : String := " ".intercalate words

end TokiPona.Word
