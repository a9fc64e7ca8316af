import TokiPona.Files
import TokiPona.Split

namespace TokiPona

/-- A path by the names in it. -/
structure Path where
  isAbsolute : Bool
  names : List String
  endsInSlash : Bool

namespace Path

def maxBytes : Nat := 4095

def ofText (text : String) : Except FileError Path :=
  if text.isEmpty then .error .missing
  else if maxBytes < text.utf8ByteSize then .error .nameTooLong
  else
    .ok
      { isAbsolute := text.toList.head? = some '/'
        names := ((splitDropping (· = '/') text.toList).filter (!·.isEmpty)).map String.ofList
        endsInSlash := text.toList.getLast? = some '/' }

/-- The name of what a path leads to; a dot at the end changes nothing. -/
def lastName? (path : Path) : Option String := (path.names.filter (· ≠ ".")).getLast?

/-- Whether a text is a path to a name that ends in `.json` after something else. -/
def isJson (text : String) : Bool :=
  match ofText text with
  | .ok path =>
    path.lastName?.any fun name ↦
      ".json".toList.isSuffixOf name.toList && ".json".length < name.length
  | .error _ => false

end Path

end TokiPona
