import TokiPona.Lexeme
import TokiPona.Particle

namespace TokiPona

mutual

/-- A head and its modifiers in the order they stand, then the prepositional phrases that hang off it. -/
structure Phrase where
  head : Lexeme
  modifiers : List Lexeme
  prepositions : List PrepPhrase

/-- A preposition, without its mark, and what it governs. -/
structure PrepPhrase where
  preposition : String
  complement : Option Chain

/-- Phrases, or chains, joined by one particle. -/
inductive Chain where
  | phrases (particle : Particle) (phrases : List Phrase)
  | links (particle : Particle) (links : List Chain)

end

def Chain.particle : Chain → Particle
  | phrases p _ => p
  | links p _ => p

def Phrase.singleWord? (phrase : Phrase) : Option String :=
  if phrase.modifiers.isEmpty && phrase.prepositions.isEmpty then phrase.head.word? else none

/-- The word of a chain that is nothing else, seen through chains of one link. -/
def Chain.singleWord? : Chain → Option String
  | phrases _ [phrase] => phrase.singleWord?
  | links _ [chain] => chain.singleWord?
  | _ => none

mutual

/-- The words of a phrase in order, particles apart. -/
def Phrase.words : Phrase → List String
  | ⟨head, modifiers, prepositions⟩ =>
    head.words ++ modifiers.flatMap Lexeme.words ++ (PrepPhrase.wordLists prepositions).flatten

def PrepPhrase.words : PrepPhrase → List String
  | ⟨preposition, none⟩ => [preposition]
  | ⟨preposition, some complement⟩ => preposition :: complement.words

def Chain.words : Chain → List String
  | .phrases _ phrases => (Phrase.wordLists phrases).flatten
  | .links _ links => (Chain.wordLists links).flatten

def Phrase.wordLists : List Phrase → List (List String)
  | [] => []
  | phrase :: rest => phrase.words :: Phrase.wordLists rest

def PrepPhrase.wordLists : List PrepPhrase → List (List String)
  | [] => []
  | phrase :: rest => phrase.words :: PrepPhrase.wordLists rest

def Chain.wordLists : List Chain → List (List String)
  | [] => []
  | chain :: rest => chain.words :: Chain.wordLists rest

end

@[simp] theorem Phrase.wordLists_eq_map (xs : List Phrase) : Phrase.wordLists xs = xs.map Phrase.words := by
  induction xs with
  | nil => rfl
  | cons x xs ih => simp [Phrase.wordLists, ih]

@[simp] theorem PrepPhrase.wordLists_eq_map (xs : List PrepPhrase) : PrepPhrase.wordLists xs = xs.map PrepPhrase.words := by
  induction xs with
  | nil => rfl
  | cons x xs ih => simp [PrepPhrase.wordLists, ih]

@[simp] theorem Chain.wordLists_eq_map (xs : List Chain) : Chain.wordLists xs = xs.map Chain.words := by
  induction xs with
  | nil => rfl
  | cons x xs ih => simp [Chain.wordLists, ih]

mutual

/-- The words of a phrase as it is written, particles and marks of prepositions included. -/
def Phrase.spelling : Phrase → List String
  | ⟨head, modifiers, prepositions⟩ =>
    head.words ++ modifiers.flatMap Lexeme.words ++ (PrepPhrase.spellings prepositions).flatten

def PrepPhrase.spelling : PrepPhrase → List String
  | ⟨preposition, none⟩ => ["~" ++ preposition]
  | ⟨preposition, some complement⟩ => ("~" ++ preposition) :: complement.spelling

/-- The particle stands between neighbours; but every link of a chain of objects has an `e` of its own. -/
def Chain.spelling : Chain → List String
  | .phrases p phrases => [p.word].intercalate (Phrase.spellings phrases)
  | .links .e links => (Chain.spellings links).flatMap (Particle.e.word :: ·)
  | .links p links => [p.word].intercalate (Chain.spellings links)

def Phrase.spellings : List Phrase → List (List String)
  | [] => []
  | phrase :: rest => phrase.spelling :: Phrase.spellings rest

def PrepPhrase.spellings : List PrepPhrase → List (List String)
  | [] => []
  | phrase :: rest => phrase.spelling :: PrepPhrase.spellings rest

def Chain.spellings : List Chain → List (List String)
  | [] => []
  | chain :: rest => chain.spelling :: Chain.spellings rest

end

@[simp] theorem Phrase.spellings_eq_map (xs : List Phrase) : Phrase.spellings xs = xs.map Phrase.spelling := by
  induction xs with
  | nil => rfl
  | cons x xs ih => simp [Phrase.spellings, ih]

@[simp] theorem PrepPhrase.spellings_eq_map (xs : List PrepPhrase) : PrepPhrase.spellings xs = xs.map PrepPhrase.spelling := by
  induction xs with
  | nil => rfl
  | cons x xs ih => simp [PrepPhrase.spellings, ih]

@[simp] theorem Chain.spellings_eq_map (xs : List Chain) : Chain.spellings xs = xs.map Chain.spelling := by
  induction xs with
  | nil => rfl
  | cons x xs ih => simp [Chain.spellings, ih]

def Phrase.text (phrase : Phrase) : String := Word.spaced phrase.spelling
def PrepPhrase.text (phrase : PrepPhrase) : String := Word.spaced phrase.spelling
def Chain.text (chain : Chain) : String := Word.spaced chain.spelling

/-- The same lexemes, in whatever order. -/
def Lexeme.alike (as bs : List Lexeme) : Bool := sort as == sort bs

mutual

/-- Whether two phrases differ at most in the order of modifiers, at any depth. -/
def Phrase.alike : Phrase → Phrase → Bool
  | ⟨head, modifiers, prepositions⟩, ⟨head', modifiers', prepositions'⟩ =>
    head == head' && Lexeme.alike modifiers modifiers' && PrepPhrase.allAlike prepositions prepositions'

def PrepPhrase.alike : PrepPhrase → PrepPhrase → Bool
  | ⟨preposition, none⟩, ⟨preposition', none⟩ => preposition == preposition'
  | ⟨preposition, some complement⟩, ⟨preposition', some complement'⟩ =>
    preposition == preposition' && complement.alike complement'
  | _, _ => false

def Chain.alike : Chain → Chain → Bool
  | .phrases p phrases, .phrases p' phrases' => p == p' && Phrase.allAlike phrases phrases'
  | .links p links, .links p' links' => p == p' && Chain.allAlike links links'
  | _, _ => false

def Phrase.allAlike : List Phrase → List Phrase → Bool
  | [], [] => true
  | a :: as, b :: bs => a.alike b && Phrase.allAlike as bs
  | _, _ => false

def PrepPhrase.allAlike : List PrepPhrase → List PrepPhrase → Bool
  | [], [] => true
  | a :: as, b :: bs => a.alike b && PrepPhrase.allAlike as bs
  | _, _ => false

def Chain.allAlike : List Chain → List Chain → Bool
  | [], [] => true
  | a :: as, b :: bs => a.alike b && Chain.allAlike as bs
  | _, _ => false

end

def Chain.alikeOption : Option Chain → Option Chain → Bool
  | none, none => true
  | some a, some b => a.alike b
  | _, _ => false

end TokiPona
