import TokiPona.Predicate
import TokiPona.Reading.Phrase

namespace TokiPona.Reading

variable {m : Type → Type} [Monad m] [MonadExceptOf ParseError m] [Recall m]
variable (lex : Lexicon)

def isE (w : String) : Bool := w == Particle.e.word

def governor (clause : List String) : m Particle :=
  match clause.head?.bind Particle.ofWord? with
  | some p => if p.isGoverning then pure p else refuse
  | none => refuse
where
  refuse : m Particle := throw (.missingGovernor (clause.head?.getD "") (Word.spaced clause))

/-- The lexemes before the first that is no modal, that one as head, and the rest as adverbs. -/
def splitAtHead (isModal : Lexeme → Bool) (lexemes : List Lexeme) : Option VerbPhrase :=
  match lexemes.dropWhile isModal with
  | head :: adverbs => some ⟨lexemes.takeWhile isModal, some head, adverbs⟩
  | [] => none

def isModalLexeme (l : Lexeme) : Bool := l.word?.any lex.isModal

/-- Where every lexeme could be a modal, none is: `li wile`. -/
def verbPhrase (words : List String) : VerbPhrase :=
  let lexemes := lex.lexemes words
  ((splitAtHead (isModalLexeme lex) lexemes).or (splitAtHead (fun _ ↦ false) lexemes)).getD {}

def nominal (words : List String) : m Chain := do
  let chain ← chain lex words
  chainOfLinks .en [chain]

def predicateKind : List String → m (Option PredicateKind)
  | [] => pure none
  | w :: rest =>
    if isPi w then (some ∘ .pi) <$> nominal lex rest
    else if Particle.pi.isIn (w :: rest) then (some ∘ .nominal) <$> nominal lex (w :: rest)
    else pure (some (.verb (verbPhrase lex (w :: rest))))

/-- Reads one object, which is more than its `e`. -/
def object (clause : List String) : List String → m Chain
  | _ :: w :: words => chain lex (w :: words)
  | _ => throw (.degenerateObject (Word.spaced clause))

/-- `li moku e kili e telo ~kepeken ilo`: prepositions after the last object belong to the predicate. -/
def transitive (clause : List String) : m Predicate :=
  match splitBefore isE clause with
  | [] => throw (.emptyArgument .predicate)
  | verbPart :: objectParts => do
    let particle ← governor clause
    let kind ← predicateKind lex (verbPart.drop 1)
    match splitBefore Word.isPreposition (objectParts.getLast?.getD []) with
    | [] => throw (.degenerateObject (Word.spaced clause))
    | lastObject :: trailing =>
      let objects ← (objectParts.dropLast ++ [lastObject]).mapM (object lex clause)
      let prepositions ← prepPhrases lex trailing
      let objects ← chainOfLinks .e objects
      pure ⟨particle, kind.getD (.verb {}), some objects, prepositions⟩

/-- Takes the first preposition without complement out of the pieces. -/
def promoted? : List (List String) → Option (String × List (List String))
  | [] => none
  | [w] :: rest => some (Word.bare w, rest)
  | piece :: rest => (promoted? rest).map fun (w, rest) ↦ (w, piece :: rest)

/-- With nothing else to be the verb, a preposition without complement is the verb: `li ~tawa`. -/
def settleVerb (kind : Option PredicateKind) (pieces : List (List String)) : PredicateKind × List (List String) :=
  match kind, promoted? pieces with
  | some kind, _ => (kind, pieces)
  | none, some (w, rest) => (.verb { head := some (.word w) }, rest)
  | none, none => (.verb {}, pieces)

/-- `li pona`, `li jan pi ma ni`, `li ~lon tomo`. -/
def intransitive (clause : List String) : m Predicate :=
  match splitBefore Word.isPreposition clause with
  | [] => throw (.emptyArgument .predicate)
  | verbPart :: pieces => do
    let particle ← governor clause
    let kind ← predicateKind lex (verbPart.drop 1)
    let (kind, pieces) := settleVerb kind pieces
    let prepositions ← prepPhrases lex pieces
    pure ⟨particle, kind, none, prepositions⟩

def predicate (clause : List String) : m Predicate :=
  if clause.length < 2 then throw (.emptySpan .predicate (Word.spaced clause))
  else if Particle.e.isIn clause then transitive lex clause
  else intransitive lex clause

end TokiPona.Reading
