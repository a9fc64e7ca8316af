import TokiPona.Text.GraphemeExtend
import TokiPona.Text.Printable

namespace TokiPona.Text

/-- The halfwidth marks of voiced sounds. They extend the letter before them, but take a room of their own. -/
def isVoiceMark (c : Char) : Bool := c.toNat == 0xff9e || c.toNat == 0xff9f

/-- Whether a character can be made out without another to stand on. -/
def showsAlone (c : Char) : Bool := isPrintable c && (!isGraphemeExtend c || isVoiceMark c)

def numbered (c : Char) : List Char := "\\u\x7b".toList ++ Nat.toDigits 16 c.toNat ++ ['\x7d']

def escaped (c : Char) : List Char :=
  if c = '"' then ['\\', '"']
  else if c = '\\' then ['\\', '\\']
  else if c = '\n' then ['\\', 'n']
  else if c = '\r' then ['\\', 'r']
  else if c = '\t' then ['\\', 't']
  else if c.toNat = 0 then ['\\', '0']
  else if showsAlone c then [c]
  else numbered c

def quoted (s : String) : String := String.ofList ('"' :: s.toList.flatMap escaped ++ ['"'])

end TokiPona.Text
