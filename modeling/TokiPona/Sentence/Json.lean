import TokiPona.Json
import TokiPona.Sentence

/-!
Sentences as JSON. The kind of a sentence is its field `type`; chains of phrases and chains of chains are told apart by
the name of their last field, contexts by being an object or an array.
-/

namespace TokiPona

def Lexeme.toJson : Lexeme → Json
  | word w => .string w
  | compound head tail => .object [("head", .string head), ("tail", .ofStrings tail)]

def Particle.toJson (p : Particle) : Json := .string p.word

def Punctuation.toJson (p : Punctuation) : Json := .string p.name

mutual

def Phrase.toJson : Phrase → Json
  | ⟨head, modifiers, prepositions⟩ =>
    .object
      [("head", head.toJson), ("modifiers", .array (modifiers.map Lexeme.toJson)),
       ("prepositions", .array (PrepPhrase.toJsons prepositions))]

def PrepPhrase.toJson : PrepPhrase → Json
  | ⟨preposition, none⟩ => .object [("preposition", .string preposition), ("complement", .null)]
  | ⟨preposition, some complement⟩ =>
    .object [("preposition", .string preposition), ("complement", complement.toJson)]

def Chain.toJson : Chain → Json
  | .phrases p phrases => .object [("particle", p.toJson), ("phrases", .array (Phrase.toJsons phrases))]
  | .links p links => .object [("particle", p.toJson), ("links", .array (Chain.toJsons links))]

def Phrase.toJsons : List Phrase → List Json
  | [] => []
  | phrase :: rest => phrase.toJson :: Phrase.toJsons rest

def PrepPhrase.toJsons : List PrepPhrase → List Json
  | [] => []
  | phrase :: rest => phrase.toJson :: PrepPhrase.toJsons rest

def Chain.toJsons : List Chain → List Json
  | [] => []
  | chain :: rest => chain.toJson :: Chain.toJsons rest

end

def VerbPhrase.toJson (verb : VerbPhrase) : Json :=
  .object
    [("modals", .array (verb.modals.map Lexeme.toJson)), ("head", .ofOption Lexeme.toJson verb.head),
     ("adverbs", .array (verb.adverbs.map Lexeme.toJson))]

def PredicateKind.toJson : PredicateKind → Json
  | verb v => .object [("kind", .string "verb"), ("body", v.toJson)]
  | nominal chain => .object [("kind", .string "nominal"), ("body", chain.toJson)]
  | pi chain => .object [("kind", .string "pi"), ("body", chain.toJson)]

def Predicate.toJson (p : Predicate) : Json :=
  .object
    [("particle", p.particle.toJson), ("kind", p.kind.toJson),
     ("direct_objects", .ofOption Chain.toJson p.objects),
     ("prepositions", .array (p.prepositions.map PrepPhrase.toJson))]

def Mood.name : Mood → String
  | declarative => "declarative"
  | imperative => "imperative"
  | hortative => "hortative"

def Context.toJson : Context → Json
  | chain c => c.toJson
  | prepositional phrases => .array (phrases.map PrepPhrase.toJson)

def SimpleSentence.jsonFields (s : SimpleSentence) : List (String × Json) :=
  [("subject", .ofOption Chain.toJson s.subject), ("predicates", .array (s.predicates.map Predicate.toJson)),
   ("punctuation", .ofOption Punctuation.toJson s.punctuation),
   ("conjunction", .ofOption Particle.toJson s.conjunction),
   ("head_vocatives", .array (s.vocatives.map Chain.toJson)), ("tag_question", .bool s.tagQuestion),
   ("mood", .string s.mood.name), ("placeholder_subject", .bool s.placeholder),
   ("la_fragments", .array (s.contexts.map Context.toJson))]

mutual

def Sentence.toJson : Sentence → Json
  | .simple s => .object (("type", .string "simple") :: s.jsonFields)
  | .conditional preconditions conclusion =>
    .object
      [("type", .string "conditional"), ("preconditions", .array (Sentence.toJsons preconditions)),
       ("conclusion", conclusion.toJson)]
  | .vocative addressee p =>
    .object
      [("type", .string "vocative"), ("addressee", addressee.toJson),
       ("punctuation", .ofOption Punctuation.toJson p)]
  | .fragment context p =>
    .object
      [("type", .string "fragment"), ("fragment", context.toJson),
       ("punctuation", .ofOption Punctuation.toJson p)]
  | .exclamation phrase p =>
    .object
      [("type", .string "exclamation"), ("phrase", phrase.toJson),
       ("punctuation", .ofOption Punctuation.toJson p)]
  | .comment text => .object [("type", .string "comment"), ("text", .string text)]

def Sentence.toJsons : List Sentence → List Json
  | [] => []
  | s :: rest => s.toJson :: Sentence.toJsons rest

end

end TokiPona
