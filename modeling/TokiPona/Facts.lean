import TokiPona.Sentence

namespace TokiPona

def seme : String := "seme"

namespace Sentence

def equivalent (a b : Sentence) : Bool := a.withoutPunctuation.alike b.withoutPunctuation

def mentions (s : Sentence) (w : String) : Bool := s.words.contains w

/-- Whether the words of a question match the words of a fact, one for one. -/
def matchWords (known asked : List String) : Bool :=
  known.length == asked.length && (known.zip asked).all fun (k, a) ↦ a == seme || k == a

/-- Whether a fact fills in the question, subject by subject and predicate by predicate. -/
def fillsIn (fact question : Sentence) : Bool :=
  fact.segments.length == question.segments.length &&
    (fact.segments.zip question.segments).all fun (known, asked) ↦ matchWords known asked

/-- An equivalent fact answers any question; another only one that asks for something. -/
def answers (fact question : Sentence) : Bool :=
  fact.equivalent question || (question.mentions seme && fact.fillsIn question)

end Sentence

structure Unanswered where
  question : Sentence

def Unanswered.message (u : Unanswered) : String := "nothing known answers '" ++ u.question.text ++ "'"

structure Facts where
  sentences : List Sentence := []

namespace Facts

def tell (facts : Facts) (s : Sentence) : Facts := ⟨facts.sentences ++ [s]⟩

def size (facts : Facts) : Nat := facts.sentences.length

/-- The first fact that answers the question. -/
def ask (facts : Facts) (question : Sentence) : Except Unanswered Sentence :=
  match facts.sentences.find? (·.answers question) with
  | some fact => .ok fact
  | none => .error ⟨question⟩

end Facts

end TokiPona
