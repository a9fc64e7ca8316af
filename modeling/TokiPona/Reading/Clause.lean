import TokiPona.Reading.Predicate
import TokiPona.Sentence

/-!
Reading a clause without `la` as a simple sentence, a call or an exclamation. Calls in front of the clause come off
first, then the conjunction and the tag question, then the `o` of the mood; what is left is a subject and predicates.
-/

namespace TokiPona.Reading

variable {m : Type → Type} [Monad m] [MonadExceptOf ParseError m] [Recall m]
variable (lex : Lexicon)

def isO (w : String) : Bool := w == Particle.o.word
def isLi (w : String) : Bool := w == Particle.li.word

/-- Stands in for the one called in `jan Mato o o moku`. -/
def placeholderSubject : List String := ["jan", "Sanwan"]

/-- The words before and after the first `o o`. -/
def splitDoubleO : List String → Option (List String × List String)
  | v :: w :: rest =>
    if isO v && isO w then some ([], rest)
    else (splitDoubleO (w :: rest)).map fun (before, after) ↦ (v :: before, after)
  | _ => none

/-- Whether an `o` stands between the first word and the last. -/
def hasInnerO (words : List String) : Bool := (words.drop 1).dropLast.any isO

def afterLastO (words : List String) : List String := (splitDropping isO words).getLast?.getD []

/-- A clause once calls have come off its front. -/
structure OpenedClause where
  vocatives : List Chain := []
  mood : Mood := .declarative
  placeholder : Bool := false
  words : List String

/-- Either the clause does nothing but call, or there is a clause left. -/
inductive Opening where
  | call (addressee : Chain)
  | clause (clause : OpenedClause)

/-- Reads the runs that call someone; empty runs are passed over. -/
def addressees (runs : List (List String)) : m (List Chain) :=
  (runs.filter (!·.isEmpty)).mapM (coordination lex)

/-- `jan Mato o o moku`: whoever stands before is called, and a placeholder is told what to do. -/
def openDoubleO (whole before after : List String) : m Opening := do
  let vocatives ← addressees lex (splitDropping isO before)
  match after, vocatives with
  | [], [addressee] => pure (.call addressee)
  | [], _ => throw (.emptySpan .imperative (Word.spaced whole))
  | _, _ =>
    pure (.clause ⟨vocatives, .imperative, true, placeholderSubject ++ Particle.o.word :: after⟩)

/-- `jan Sonja o, mi li moku`: calls up to the last `o`, as long as they are no clauses themselves. -/
def openCalls (words : List String) : m Opening := do
  let runs := (splitDropping isO words).dropLast
  let vocatives ← addressees lex
    (runs.takeWhile fun run ↦ !Particle.li.isIn run && !Particle.e.isIn run)
  let rest := afterLastO words
  match (rest.head?.bind Particle.ofWord?).filter Particle.isStructural with
  | some p => throw (.illegalPair .o p (Word.spaced words))
  | none => pure (.clause { vocatives, words := rest })

def openClause (words : List String) : m Opening :=
  match splitDoubleO words with
  | some (w :: before, after) => openDoubleO lex words (w :: before) after
  | some ([], _) | none =>
    if hasInnerO words && Particle.li.isIn words then openCalls lex words
    else pure (.clause { words })

/-- The conjunction that opens a clause of more than one word, and the rest. -/
def takeConjunction : List String → Option Particle × List String
  | w :: v :: rest =>
    match (Particle.ofWord? w).filter Particle.isConjunction with
    | some p => (some p, v :: rest)
    | none => (none, w :: v :: rest)
  | words => (none, words)

def takeTag (words : List String) : Bool × List String :=
  match words.reverse with
  | w :: v :: u :: rest =>
    if v == Particle.anu.word && w == "seme" then (true, (u :: rest).reverse) else (false, words)
  | _ => (false, words)

/-- A leading `o` commands, and wishes where a `li` follows, in which case it comes off. -/
def takeMood (mood : Mood) (words : List String) : Mood × List String :=
  if words.head?.any isO then
    if Particle.li.isIn words then (.hortative, words.drop 1) else (.imperative, words)
  else (mood, words)

/-- What the parts of a clause say, each part but perhaps the first opened by `li` or `o`. -/
inductive Body where
  | exclamation (phrase : Phrase)
  | call (addressee : Chain)
  | predication (subject : Option Chain) (predicates : List Predicate)

def predication (whole : List String) (subject : Option Chain) (parts : List (List String)) : m Body :=
  if parts.isEmpty then throw (.missingPredicate (Word.spaced whole))
  else .predication subject <$> parts.mapM (predicate lex)

/-- A clause that opens with `o` has no stated subject. -/
def statement (whole : List String) : List (List String) → m Body
  | [] => predication lex whole none []
  | first :: rest =>
    if first.head?.any isO then predication lex whole none (first :: rest)
    else do
      let subject ← coordination lex first
      predication lex whole (some subject) rest

def body (whole : List String) (parts : List (List String)) : m Body :=
  match parts with
  | [only] =>
    match exclamation lex only with
    | some phrase => pure (.exclamation phrase)
    | none => statement lex whole parts
  | [addressee, [w]] => if isO w then .call <$> coordination lex addressee else statement lex whole parts
  | _ => statement lex whole parts

def openedClause (whole : List String) (mark : Option Punctuation) (clause : OpenedClause) : m Sentence :=
  let (conjunction, words) := takeConjunction clause.words
  let (tagQuestion, words) := takeTag words
  if words.getLast?.any isLi then throw (.trailingLi (Word.spaced whole))
  else if Particle.la.isIn words then throw (.leftoverLa (Word.spaced whole))
  else
    let (mood, words) := takeMood clause.mood words
    if words.isEmpty then throw (.emptySpan .sentence (Word.spaced whole))
    else do
      match ← body lex whole (splitBefore (fun w ↦ isLi w || isO w) words) with
      | .exclamation phrase => pure (.exclamation phrase mark)
      | .call addressee => pure (.vocative addressee mark)
      | .predication subject predicates =>
        pure (.simple
          { subject, predicates, punctuation := mark, conjunction, vocatives := clause.vocatives, tagQuestion,
            mood, placeholder := clause.placeholder })

def clause (words : List String) (mark : Option Punctuation) : m Sentence := do
  match ← openClause lex words with
  | .call addressee => pure (.vocative addressee mark)
  | .clause rest => openedClause lex words mark rest

end TokiPona.Reading
