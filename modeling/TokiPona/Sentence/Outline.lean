import TokiPona.Outline
import TokiPona.Sentence
import TokiPona.Text.Quoted

namespace TokiPona

def wordOutline (w : String) : Outline := .record "Word" [("text", .atom (Text.quoted w))]

def Lexeme.outline : Lexeme → Outline
  | word w => .tuple "Simple" [wordOutline w]
  | compound head tail =>
    .tuple "Tagged"
      [.record "TaggedWord" [("head", wordOutline head), ("tail", .list (tail.map wordOutline))]]

def Lexeme.setOutline (ls : List Lexeme) : Outline := .tuple "WordSet" [.list (ls.map Lexeme.outline)]

def Particle.outline : Particle → Outline
  | li => .atom "Li"
  | e => .atom "E"
  | la => .atom "La"
  | pi => .atom "Pi"
  | en => .atom "En"
  | o => .atom "O"
  | anu => .atom "Anu"
  | taso => .atom "Taso"
  | ante => .atom "Ante"
  | a => .atom "A"
  | kin => .atom "Kin"

def Punctuation.outline : Punctuation → Outline
  | colon => .atom "Colon"
  | period => .atom "Period"
  | question => .atom "Question"
  | exclamation => .atom "Exclamation"

mutual

def Phrase.outline : Phrase → Outline
  | ⟨head, modifiers, prepositions⟩ =>
    .record "HeadedPhrase"
      [("head", head.outline), ("modifiers", Lexeme.setOutline modifiers),
       ("prepositions", .list (PrepPhrase.outlines prepositions))]

def PrepPhrase.outline : PrepPhrase → Outline
  | ⟨preposition, none⟩ =>
    .record "PrepositionalPhrase" [("preposition", wordOutline preposition), ("complement", .atom "None")]
  | ⟨preposition, some complement⟩ =>
    .record "PrepositionalPhrase"
      [("preposition", wordOutline preposition), ("complement", .tuple "Some" [complement.outline])]

def Chain.outline : Chain → Outline
  | .phrases p phrases =>
    .record "Chain" [("particle", p.outline), ("phrases", .list (Phrase.outlines phrases))]
  | .links p links =>
    .record "ComplexChain" [("particle", p.outline), ("links", .list (Chain.linkOutlines links))]

def Phrase.outlines : List Phrase → List Outline
  | [] => []
  | phrase :: rest => phrase.outline :: Phrase.outlines rest

def PrepPhrase.outlines : List PrepPhrase → List Outline
  | [] => []
  | phrase :: rest => phrase.outline :: PrepPhrase.outlines rest

def Chain.linkOutlines : List Chain → List Outline
  | [] => []
  | .phrases p phrases :: rest =>
    .tuple "Simple" [(Chain.phrases p phrases).outline] :: Chain.linkOutlines rest
  | .links p links :: rest => .tuple "Complex" [(Chain.links p links).outline] :: Chain.linkOutlines rest

end

def VerbPhrase.outline (verb : VerbPhrase) : Outline :=
  .record "VerbPhrase"
    [("modals", .list (verb.modals.map Lexeme.outline)), ("head", .ofOption Lexeme.outline verb.head),
     ("adverbs", Lexeme.setOutline verb.adverbs)]

def PredicateKind.outline : PredicateKind → Outline
  | verb v => .tuple "Verb" [v.outline]
  | nominal chain => .tuple "Nominal" [chain.outline]
  | pi chain => .tuple "Pi" [chain.outline]

def Predicate.outline (p : Predicate) : Outline :=
  .record "Predicate"
    [("particle", p.particle.outline), ("kind", p.kind.outline),
     ("direct_objects", .ofOption Chain.outline p.objects),
     ("prepositions", .list (p.prepositions.map PrepPhrase.outline))]

def Mood.title : Mood → String
  | declarative => "Declarative"
  | imperative => "Imperative"
  | hortative => "Hortative"

def Context.outline : Context → Outline
  | chain c => .tuple "Chain" [c.outline]
  | prepositional phrases => .tuple "Prepositional" [.list (phrases.map PrepPhrase.outline)]

def SimpleSentence.outline (s : SimpleSentence) : Outline :=
  .record "SimpleSentence"
    [("subject", .ofOption Chain.outline s.subject), ("predicates", .list (s.predicates.map Predicate.outline)),
     ("punctuation", .ofOption Punctuation.outline s.punctuation),
     ("conjunction", .ofOption Particle.outline s.conjunction),
     ("head_vocatives", .list (s.vocatives.map Chain.outline)), ("tag_question", .ofBool s.tagQuestion),
     ("mood", .atom s.mood.title), ("placeholder_subject", .ofBool s.placeholder),
     ("la_fragments", .list (s.contexts.map Context.outline))]

mutual

def Sentence.outline : Sentence → Outline
  | .simple s => .tuple "Simple" [s.outline]
  | .conditional preconditions conclusion =>
    .tuple "Conditional"
      [.record "ConditionalSentence"
        [("preconditions", .list (Sentence.outlines preconditions)), ("conclusion", conclusion.outline)]]
  | .vocative addressee p =>
    .record "Vocative" [("addressee", addressee.outline), ("punctuation", .ofOption Punctuation.outline p)]
  | .fragment context p =>
    .record "Fragment" [("fragment", context.outline), ("punctuation", .ofOption Punctuation.outline p)]
  | .exclamation phrase p =>
    .record "Exclamation" [("phrase", phrase.outline), ("punctuation", .ofOption Punctuation.outline p)]
  | .comment text => .record "Comment" [("text", .atom (Text.quoted text))]

def Sentence.outlines : List Sentence → List Outline
  | [] => []
  | s :: rest => s.outline :: Sentence.outlines rest

end

end TokiPona
