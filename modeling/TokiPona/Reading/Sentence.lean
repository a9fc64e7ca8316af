import TokiPona.Reading.Adjacency
import TokiPona.Reading.Clause

namespace TokiPona.Reading

variable {m : Type → Type} [Monad m] [MonadExceptOf ParseError m] [Recall m]

def isLa (w : String) : Bool := w == Particle.la.word

def withContext (context : Context) : Sentence → m Sentence
  | .simple s => pure (.simple { s with contexts := context :: s.contexts })
  | other => throw (.headless (s!"{context.text} la " ++ other.text))

/-- A condition has no mark, and its conclusion has one. -/
def conditional (preconditions : List Sentence) (conclusion : Sentence) : m Sentence :=
  if conclusion.punctuation.isNone || preconditions.any (·.punctuation.isSome) then
    throw (.misplacedMark conclusion.text)
  else pure (.conditional preconditions conclusion)

section

variable (lex : Lexicon)

/-- Writes a `li` between `mi` or `sina` and a word that is neither particle, preposition nor number. -/
def writeLi : List String → List String
  | pronoun :: next :: rest =>
    if (pronoun == "mi" || pronoun == "sina") && (Particle.ofWord? next).isNone && !Word.isPreposition next &&
        !lex.isNumeral next then
      pronoun :: Particle.li.word :: next :: rest
    else pronoun :: next :: rest
  | words => words

/-- Writes out the `li` that a clause without `li` and `o` may leave out, at its start or after a conjunction. -/
def withImpliedLi (words : List String) : List String :=
  if Particle.li.isIn words || Particle.o.isIn words then words
  else
    match words with
    | [] => []
    | w :: rest =>
      if (Particle.ofWord? w).any Particle.isConjunction then w :: writeLi lex rest else writeLi lex (w :: rest)

def context (words : List String) : m Context :=
  if words.head?.any Word.isPreposition then
    .prepositional <$> prepPhrases lex (splitBefore Word.isPreposition words)
  else .chain <$> coordination lex words

/-- Puts one more clause in front of what has been read: a clause with a predicate as a condition, any other as a
context of the nearest condition, or of the conclusion where there is none. -/
def attach (shown : String) (words : List String) :
    List Sentence × Sentence → m (List Sentence × Sentence)
  | (preconditions, conclusion) =>
    if words.isEmpty then throw (.emptySpan .laClause shown)
    else if Particle.li.isIn words then do
      let precondition ← clause lex words none
      pure (precondition :: preconditions, conclusion)
    else do
      let found ← context lex words
      match preconditions with
      | nearest :: others =>
        let nearest ← withContext found nearest
        pure (nearest :: others, conclusion)
      | [] =>
        let conclusion ← withContext found conclusion
        pure ([], conclusion)

def clauses (mark : Punctuation) (shown : String) : List (List String) → m (List Sentence × Sentence)
  | [] => throw .emptyInput
  | [conclusion] => do
    let conclusion ← clause lex conclusion (some mark)
    pure ([], conclusion)
  | first :: rest => do
    let read ← clauses mark shown rest
    attach lex shown first read

/-- Reads a run of words with its clauses. A context that nothing follows is a sentence of its own. -/
def sentence (words : List String) (mark : Punctuation) (shown : String) : m Sentence :=
  let parts := splitBefore isLa words
  match parts, parts.getLast? with
  | [first, _], some [_] => (.fragment · (some mark)) <$> coordination lex first
  | _ :: _ :: _, some [_] => throw (.headless shown)
  | _, _ => do
    let (preconditions, conclusion) ←
      clauses lex mark shown (parts.map fun part ↦ withImpliedLi lex (stripLeading isLa part))
    if preconditions.isEmpty then pure conclusion else conditional preconditions conclusion

end

def takeMark (tokens : List Token) : List Token × Option Punctuation :=
  match tokens.getLast?.bind Token.terminal? with
  | some p => (tokens.dropLast, some p)
  | none => (tokens, none)

def plainWords (text : String) : List Token → m (List String)
  | [] => pure []
  | t :: rest =>
    match t.kind with
    | .punctuation c => if c = ',' then plainWords text rest else throw (.unexpectedMark c text)
    | _ => (t.text :: ·) <$> plainWords text rest

/-- The words of a sentence and its terminal mark. Quote marks and commas are dropped. -/
def sentenceWords (text : String) (tokens : List Token) : m (List String × Option Punctuation) := do
  let (tokens, mark) := takeMark (tokens.filter (!·.isQuote))
  let words ← plainWords text tokens
  pure (words, mark)

end TokiPona.Reading
