import TokiPona.Memory
import TokiPona.Split

/-!
Reading runs of words as phrases and chains. `pi` regroups modifiers and `en` coordinates; coordination binds weaker
than modification, unless that would leave a single word after the last `pi`.

A complement has no preposition of its own, since every preposition of a run opens a piece of it. So complements are
read over plain phrases, and a reader of phrases never has to call itself.
-/

namespace TokiPona.Reading

variable {m : Type → Type} [Monad m] [MonadExceptOf ParseError m] [Recall m]

def isPi (w : String) : Bool := w == Particle.pi.word
def isEn (w : String) : Bool := w == Particle.en.word

def chainOfPhrases (p : Particle) (phrases : List Phrase) : m Chain :=
  if phrases.isEmpty then throw (.emptyArgument .chain) else pure (.phrases p phrases)

def chainOfLinks (p : Particle) (links : List Chain) : m Chain :=
  if links.isEmpty then throw (.emptyArgument .links) else pure (.links p links)

section

variable (phrase : List String → m Phrase)

/-- `jan pi ma suli`: phrases joined by `pi`. -/
def piChain (words : List String) : m Chain :=
  if words.isEmpty then throw (.emptyArgument .piChain)
  else if Particle.la.isIn words then throw (.particleInChain .la .piChain (Word.spaced words))
  else Recall.chain (Word.spaced words) do
    let phrases ← (splitDropping isPi words).mapM phrase
    chainOfPhrases .pi phrases

/-- `A pi B en C pi D` as `(A pi B) en (C pi D)`. An `en` with nothing on one side is passed over. -/
def coordinationFirst (words : List String) : m Chain := do
  let links ← ((splitDropping isEn words).filter (!·.isEmpty)).mapM fun piece ↦ do
    let links ← (splitDropping isPi piece).mapM (piChain phrase)
    chainOfLinks .pi links
  chainOfLinks .en links

/-- `A pi B en C` as `A pi (B en C)`. -/
def modificationFirst (words : List String) : m Chain := do
  let links ← ((splitDropping isPi words).filter (!·.isEmpty)).mapM fun piece ↦ do
    let links ← ((splitDropping isEn piece).filter (!·.isEmpty)).mapM (piChain phrase)
    chainOfLinks .en links
  chainOfLinks .pi links

/-- Whether the last `pi` of the first coordinated piece introduces a single word. A numeral of more than one letter
or digit may stand there alone. -/
def hasDanglingModifier : Chain → Bool
  | .links _ (.links _ parts :: _) =>
    match parts.getLast?.bind Chain.singleWord? with
    | some w => 2 ≤ parts.length && !Word.isLongNumeral w
    | none => false
  | _ => false

def coordinationOver (words : List String) : m Chain :=
  if words.isEmpty then throw (.emptyArgument .coordination)
  else if Particle.la.isIn words then throw (.particleInChain .la .coordination (Word.spaced words))
  else if Particle.li.isIn words then throw (.particleInChain .li .coordination (Word.spaced words))
  else do
    let chain ← coordinationFirst phrase words
    if !hasDanglingModifier chain then pure chain
    else if Particle.en.isIn words then modificationFirst phrase words
    else throw (.danglingModifier (Word.spaced words))

end

variable (lex : Lexicon)

def refuseParticles (words : List String) : m Unit :=
  match [Particle.pi, .la, .e, .li, .en, .o].find? (·.isIn words) with
  | some p => throw (.particleInPhrase p (Word.spaced words))
  | none => pure ()

def headed (words : List String) (prepositions : List PrepPhrase) : m Phrase :=
  match lex.lexemes words with
  | head :: modifiers => pure ⟨head, modifiers, prepositions⟩
  | [] => throw (.emptyArgument .phrase)

def plainPhrase (words : List String) : m Phrase :=
  if words.isEmpty then throw (.emptyArgument .phrase)
  else Recall.phrase (Word.spaced words) do
    refuseParticles words
    headed lex words []

def complement : List String → m (Option Chain)
  | [] => pure none
  | words => some <$> coordinationOver (plainPhrase lex) words

/-- Reads pieces that each open with a preposition; any other piece is passed over. -/
def prepPhrases : List (List String) → m (List PrepPhrase)
  | [] => pure []
  | [] :: rest => prepPhrases rest
  | (w :: words) :: rest =>
    if Word.isPreposition w then do
      let governed ← complement lex words
      let phrases ← prepPhrases rest
      pure (⟨Word.bare w, governed⟩ :: phrases)
    else prepPhrases rest

/-- `jan pona ~lon tomo`: head `jan`, modifier `pona` and one prepositional phrase. -/
def phrase (words : List String) : m Phrase :=
  if words.isEmpty then throw (.emptyArgument .phrase)
  else Recall.phrase (Word.spaced words) do
    refuseParticles words
    match splitBefore Word.isPreposition words with
    | (w :: ws) :: pieces =>
      if Word.isPreposition w then throw (.emptySpan .phraseHead (Word.spaced words))
      else do
        let prepositions ← prepPhrases lex pieces
        headed lex (w :: ws) prepositions
    | _ => throw (.emptyArgument .phrase)

def chain (words : List String) : m Chain := piChain (phrase lex) words

def coordination (words : List String) : m Chain := coordinationOver (phrase lex) words

/-- `pona a kin`: an interjection followed by nothing but `a` and `kin`. -/
def exclamation : List String → Option Phrase
  | [] => none
  | w :: rest =>
    if lex.isInterjection w && rest.all (fun v ↦ v == Particle.a.word || v == Particle.kin.word) then
      some ⟨.word w, rest.map .word, []⟩
    else none

end TokiPona.Reading
