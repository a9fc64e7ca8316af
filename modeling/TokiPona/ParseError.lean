import TokiPona.Particle

namespace TokiPona

/-- The step that was given nothing to read, or a particle it cannot read. -/
inductive Stage where
  | chain | links | piChain | coordination | phrase | predicate
  deriving DecidableEq, Repr

def Stage.name : Stage → String
  | chain => "chain"
  | links => "complex chain"
  | piChain => "pi chain"
  | coordination => "coordination chain"
  | phrase => "headed phrase"
  | predicate => "predicate"

inductive Part where
  | predicate | phraseHead | laClause | imperative | sentence
  deriving DecidableEq, Repr

def Part.name : Part → String
  | predicate => "predicate"
  | phraseHead => "phrase head"
  | laClause => "la clause"
  | imperative => "imperative"
  | sentence => "sentence"

inductive Malformation where
  | surroundingBlanks | leadingMarker
  deriving DecidableEq, Repr

def Malformation.name : Malformation → String
  | surroundingBlanks => "leading or trailing whitespace"
  | leadingMarker => "sentence starts with a bare marker"

inductive ParseError where
  | doubleParticle (particle : Particle) (fragment : String)
  | illegalPair (first second : Particle) (fragment : String)
  | trailingLi (fragment : String)
  | particleInPhrase (particle : Particle) (fragment : String)
  | missingGovernor (found fragment : String)
  | danglingModifier (fragment : String)
  | leftoverLa (fragment : String)
  | degenerateObject (fragment : String)
  | emptySpan (part : Part) (fragment : String)
  | missingPredicate (fragment : String)
  | unexpectedMark (mark : Char) (fragment : String)
  | headless (fragment : String)
  | misplacedMark (fragment : String)
  | emptyInput
  | malformed (why : Malformation) (fragment : String)
  | emptyArgument (stage : Stage)
  | particleInChain (particle : Particle) (stage : Stage) (fragment : String)
  deriving DecidableEq, Repr

/-- Particles in places they cannot have, spans too short for their rule, or input that is no sentence at all. -/
inductive ErrorKind where
  | placement | shortage | argument
  deriving DecidableEq, Repr

def ErrorKind.name : ErrorKind → String
  | placement => "Syntax"
  | shortage => "Grammar"
  | argument => "Argument"

namespace ParseError

def kind : ParseError → ErrorKind
  | illegalPair .. | trailingLi .. | particleInPhrase .. | missingGovernor .. | danglingModifier ..
  | leftoverLa .. => .placement
  | doubleParticle .. | degenerateObject .. | emptySpan .. | missingPredicate .. | unexpectedMark ..
  | headless .. | misplacedMark .. => .shortage
  | emptyInput | malformed .. | emptyArgument .. | particleInChain .. => .argument

def fragment? : ParseError → Option String
  | doubleParticle _ f | illegalPair _ _ f | trailingLi f | particleInPhrase _ f | missingGovernor _ f
  | danglingModifier f | leftoverLa f | degenerateObject f | emptySpan _ f | missingPredicate f
  | unexpectedMark _ f | headless f | misplacedMark f | malformed _ f | particleInChain _ _ f => some f
  | emptyInput | emptyArgument _ => none

def message : ParseError → String
  | doubleParticle p f => s!"double particle: {p.word} {p.word} in '{f}'"
  | illegalPair p q f => s!"illegal series of particles: {p.word} {q.word} in '{f}'"
  | trailingLi f => s!"sentence ends with li: '{f}'"
  | particleInPhrase p f =>
    s!"headed phrases have no particles, this one has {p.word}: '{f}' (missing li between subject and verb?)"
  | missingGovernor found f => s!"expected li or o to govern the predicate, found '{found}' in '{f}'"
  | danglingModifier f =>
    s!"final pi in a pi chain must be followed by 2 words, otherwise use juxtaposition: '{f}'"
  | leftoverLa f => s!"la left over in a simple sentence: '{f}'"
  | degenerateObject f => s!"degenerate e phrase (e with nothing after it, missing 'e ni'?): '{f}'"
  | emptySpan part f => s!"empty {part.name} in '{f}'"
  | missingPredicate f => s!"no predicate in '{f}'"
  | unexpectedMark c f => s!"unexpected punctuation '{c}' inside '{f}'"
  | headless f => s!"sentence is headed by a fragment: '{f}'"
  | misplacedMark f => s!"conclusions need punctuation and preconditions must have none: '{f}'"
  | emptyInput => "cannot parse an empty sentence"
  | malformed why f => s!"malformed input ({why.name}): '{f}'"
  | emptyArgument stage => s!"{stage.name} was handed an empty span"
  | particleInChain p stage f => s!"{p.word} cannot occur in a {stage.name}: '{f}'"

end ParseError

end TokiPona
