import TokiPona.Predicate
import TokiPona.Punctuation

namespace TokiPona

inductive Mood where
  | declarative
  /-- `o moku!` -/
  | imperative
  /-- `o mi mute li moku.` -/
  | hortative
  deriving DecidableEq, Repr

/-- What stands before a `la` without being a sentence: `tenpo pini la`, `~lon tomo la`. -/
inductive Context where
  | chain (chain : Chain)
  | prepositional (phrases : List PrepPhrase)

namespace Context

def words : Context → List String
  | chain c => c.words
  | prepositional phrases => phrases.flatMap PrepPhrase.words

def spelling : Context → List String
  | chain c => c.spelling
  | prepositional phrases => phrases.flatMap PrepPhrase.spelling

def text (context : Context) : String := Word.spaced context.spelling

def alike : Context → Context → Bool
  | chain c, chain c' => c.alike c'
  | prepositional phrases, prepositional phrases' => PrepPhrase.allAlike phrases phrases'
  | _, _ => false

end Context

structure SimpleSentence where
  /-- None for a command without a stated subject. -/
  subject : Option Chain
  predicates : List Predicate
  punctuation : Option Punctuation
  conjunction : Option Particle := none
  /-- Those called before the sentence proper. -/
  vocatives : List Chain := []
  /-- Ends in `anu seme`. -/
  tagQuestion : Bool := false
  mood : Mood := .declarative
  /-- The subject stands in for the one called and is not written. -/
  placeholder : Bool := false
  contexts : List Context := []

namespace SimpleSentence

def words (s : SimpleSentence) : List String :=
  s.vocatives.flatMap Chain.words ++ s.contexts.flatMap Context.words ++ s.subject.toList.flatMap Chain.words ++
    s.predicates.flatMap Predicate.words

def writtenSubject (s : SimpleSentence) : Option Chain := if s.placeholder then none else s.subject

def spelling (s : SimpleSentence) : List String :=
  s.contexts.flatMap (·.spelling ++ [Particle.la.word]) ++ s.vocatives.flatMap (·.spelling ++ [Particle.o.word]) ++
    s.conjunction.toList.map Particle.word ++ (if s.mood = .hortative then [Particle.o.word] else []) ++
    s.writtenSubject.toList.flatMap Chain.spelling ++ s.predicates.flatMap Predicate.spelling ++
    (if s.tagQuestion then [Particle.anu.word, "seme"] else [])

def alike (a b : SimpleSentence) : Bool :=
  Chain.alikeOption a.subject b.subject &&
    a.predicates.isEqv b.predicates Predicate.alike && a.punctuation == b.punctuation &&
    a.conjunction == b.conjunction && Chain.allAlike a.vocatives b.vocatives && a.tagQuestion == b.tagQuestion &&
    a.mood == b.mood && a.placeholder == b.placeholder && a.contexts.isEqv b.contexts Context.alike

end SimpleSentence

inductive Sentence where
  | simple (sentence : SimpleSentence)
  /-- Every clause but the last is a condition of the last. -/
  | conditional (preconditions : List Sentence) (conclusion : Sentence)
  /-- `jan pona o!` -/
  | vocative (addressee : Chain) (punctuation : Option Punctuation)
  /-- A context that nothing follows: `tenpo pini la.` -/
  | fragment (context : Chain) (punctuation : Option Punctuation)
  /-- `pona a!` -/
  | exclamation (phrase : Phrase) (punctuation : Option Punctuation)
  | comment (text : String)

namespace Sentence

def simple? : Sentence → Option SimpleSentence
  | simple s => some s
  | _ => none

def punctuation : Sentence → Option Punctuation
  | simple s => s.punctuation
  | conditional _ conclusion => conclusion.punctuation
  | vocative _ p | fragment _ p | exclamation _ p => p
  | comment _ => none

def withoutPunctuation : Sentence → Sentence
  | simple s => simple { s with punctuation := none }
  | conditional preconditions conclusion => conditional preconditions conclusion.withoutPunctuation
  | vocative addressee _ => vocative addressee none
  | fragment context _ => fragment context none
  | exclamation phrase _ => exclamation phrase none
  | comment text => comment text

mutual

/-- The words in order, particles apart. A comment has none. -/
def words : Sentence → List String
  | simple s => s.words
  | conditional preconditions conclusion => (wordLists preconditions).flatten ++ conclusion.words
  | vocative chain _ | fragment chain _ => chain.words
  | exclamation phrase _ => phrase.words
  | comment _ => []

def wordLists : List Sentence → List (List String)
  | [] => []
  | s :: rest => s.words :: wordLists rest

end

@[simp] theorem wordLists_eq_map (ss : List Sentence) : wordLists ss = ss.map words := by
  induction ss with
  | nil => rfl
  | cons s ss ih => simp [wordLists, ih]

mutual

/-- The words of each subject and each predicate in turn, those of a conclusion last. -/
def segments : Sentence → List (List String)
  | simple s => s.subject.toList.map Chain.words ++ s.predicates.map Predicate.words
  | conditional preconditions conclusion => (segmentLists preconditions).flatten ++ conclusion.segments
  | vocative chain _ | fragment chain _ => [chain.words]
  | exclamation phrase _ => [phrase.words]
  | comment _ => []

def segmentLists : List Sentence → List (List (List String))
  | [] => []
  | s :: rest => s.segments :: segmentLists rest

end

@[simp] theorem segmentLists_eq_map (ss : List Sentence) : segmentLists ss = ss.map segments := by
  induction ss with
  | nil => rfl
  | cons s ss ih => simp [segmentLists, ih]

def marked (words : List String) (p : Option Punctuation) : String :=
  Word.spaced words ++ String.ofList (p.toList.map Punctuation.mark)

mutual

def text : Sentence → String
  | simple s => marked s.spelling s.punctuation
  | conditional preconditions conclusion => String.join (preconditionTexts preconditions) ++ conclusion.text
  | vocative addressee p => marked (addressee.spelling ++ [Particle.o.word]) p
  | fragment context p => marked (context.spelling ++ [Particle.la.word]) p
  | exclamation phrase p => marked phrase.spelling p
  | comment text => text

def preconditionTexts : List Sentence → List String
  | [] => []
  | s :: rest => (s.text ++ " la ") :: preconditionTexts rest

end

mutual

/-- Whether two sentences differ at most in the order of modifiers and adverbs, at any depth. -/
def alike : Sentence → Sentence → Bool
  | simple s, simple s' => s.alike s'
  | conditional preconditions conclusion, conditional preconditions' conclusion' =>
    allAlike preconditions preconditions' && conclusion.alike conclusion'
  | vocative addressee p, vocative addressee' p' => addressee.alike addressee' && p == p'
  | fragment context p, fragment context' p' => context.alike context' && p == p'
  | exclamation phrase p, exclamation phrase' p' => phrase.alike phrase' && p == p'
  | comment text, comment text' => text == text'
  | _, _ => false

def allAlike : List Sentence → List Sentence → Bool
  | [], [] => true
  | a :: as, b :: bs => a.alike b && allAlike as bs
  | _, _ => false

end

end Sentence

end TokiPona
