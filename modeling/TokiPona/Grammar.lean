import TokiPona.Reading.Sentence

namespace TokiPona

structure Grammar where
  lexicon : Lexicon
  dialect : Dialect := {}

namespace Grammar

open Reading

variable {m : Type → Type} [Monad m] [MonadExceptOf ParseError m] [Recall m]

/-- Reads one normalised sentence. `shown` is the text that some errors show in its place. A `li` at the end is fatal
whatever else is wrong; a sentence without a mark ends in a period. -/
def read (g : Grammar) (text shown : String) : m Sentence :=
  let tokens := tokenize text
  if (tokens.filter Token.isWord).getLast?.any (·.is .li) then throw (.trailingLi shown)
  else if text.toList.all Text.isBlank then throw .emptyInput
  else if "///".toList.isPrefixOf text.toList then pure (.comment text)
  else match adjacencyError? g.dialect text tokens with
    | some e => throw e
    | none =>
      if Text.trim text.toList != text.toList then throw (.malformed .surroundingBlanks text)
      else if tokens.head?.any (fun t ↦ t.is .li || t.is .la) then throw (.malformed .leadingMarker text)
      else do
        let (words, mark) ← sentenceWords text tokens
        if words.isEmpty then throw .emptyInput
        else sentence g.lexicon words (mark.getD .period) shown

def parse (g : Grammar) (text shown : String) : Except ParseError Sentence := g.read text shown

/-- Reads a sentence with the help of what was resolved before, and remembers what it resolves. -/
def parseWith (g : Grammar) (text shown : String) (memory : Memory) : Except ParseError Sentence × Memory :=
  (g.read text shown : Remembering Sentence).run.run memory

end Grammar

end TokiPona
