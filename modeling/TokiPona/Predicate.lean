import TokiPona.Phrase

namespace TokiPona

/-- Modals, the head verb if there is one, and its adverbs. -/
structure VerbPhrase where
  modals : List Lexeme := []
  head : Option Lexeme := none
  adverbs : List Lexeme := []
  deriving DecidableEq

namespace VerbPhrase

def lexemes (verb : VerbPhrase) : List Lexeme := verb.modals ++ verb.head.toList ++ verb.adverbs

def isEmpty (verb : VerbPhrase) : Bool := verb.lexemes.isEmpty

def words (verb : VerbPhrase) : List String := verb.lexemes.flatMap Lexeme.words

def text (verb : VerbPhrase) : String := Word.spaced verb.words

def alike (a b : VerbPhrase) : Bool :=
  a.modals == b.modals && a.head == b.head && Lexeme.alike a.adverbs b.adverbs

end VerbPhrase

/-- The core of a predicate: `li moku`, `li jan pi ma suli`, or `li pi jan pona`. -/
inductive PredicateKind where
  | verb (verb : VerbPhrase)
  | nominal (chain : Chain)
  | pi (chain : Chain)

namespace PredicateKind

def words : PredicateKind → List String
  | verb v => v.words
  | nominal chain | pi chain => chain.words

def spelling : PredicateKind → List String
  | verb v => v.words
  | nominal chain => chain.spelling
  | pi chain => Particle.pi.word :: chain.spelling

def alike : PredicateKind → PredicateKind → Bool
  | verb v, verb v' => v.alike v'
  | nominal chain, nominal chain' => chain.alike chain'
  | pi chain, pi chain' => chain.alike chain'
  | _, _ => false

end PredicateKind

/-- One clause governed by `li` or `o`. -/
structure Predicate where
  particle : Particle
  kind : PredicateKind
  objects : Option Chain
  prepositions : List PrepPhrase

namespace Predicate

def isTransitive (p : Predicate) : Bool := p.objects.isSome

def words (p : Predicate) : List String :=
  p.kind.words ++ p.objects.toList.flatMap Chain.words ++ p.prepositions.flatMap PrepPhrase.words

def spelling (p : Predicate) : List String :=
  p.particle.word :: p.kind.spelling ++ p.objects.toList.flatMap Chain.spelling ++
    p.prepositions.flatMap PrepPhrase.spelling

def text (p : Predicate) : String := Word.spaced p.spelling

def alike (a b : Predicate) : Bool :=
  a.particle == b.particle && a.kind.alike b.kind && Chain.alikeOption a.objects b.objects &&
    PrepPhrase.allAlike a.prepositions b.prepositions

end Predicate

end TokiPona
