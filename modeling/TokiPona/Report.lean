import TokiPona.Grammar
import TokiPona.Sentence.Json

namespace TokiPona

structure Report where
  /-- Each token, with the class of the word it is, if it is one. -/
  tokens : List (Token × Option WordClass)
  result : Except ParseError Sentence
  dialect : Dialect

namespace Report

def tokenClass (lex : Lexicon) (t : Token) : Option WordClass :=
  if t.isWord then some (lex.classify t.bare) else none

def of (g : Grammar) (text : String) : Report :=
  { tokens := (tokenize text).map fun t ↦ (t, tokenClass g.lexicon t)
    result := g.parse text text
    dialect := g.dialect }

def kindName : TokenKind → String
  | .word => "Word"
  | .preposition => "Preposition"
  | .punctuation _ => "Punctuation"
  | .quote _ => "Quote"

def tokenJson : Token × Option WordClass → Json
  | (t, c) =>
    .object
      [("text", .string t.text), ("start", .natural t.start), ("end", .natural t.stop),
       ("kind", .string (kindName t.kind)), ("class", .string ((c.map WordClass.text).getD "None"))]

def errorJson (e : ParseError) : Json :=
  .object
    [("kind", .string e.kind.name), ("message", .string e.message), ("fragment", .ofOption .string e.fragment?)]

def toJson (r : Report) : Json :=
  let sentence := r.result.toOption
  let error := match r.result with
    | .ok _ => none
    | .error e => some e
  .object
    [("tokens", .array (r.tokens.map tokenJson)), ("sentence", .ofOption Sentence.toJson sentence),
     ("rendered", .ofOption (fun s ↦ .string s.text) sentence), ("error", .ofOption errorJson error),
     ("debug_info", .string s!"li pi valid: {r.dialect.liPi}")]

end Report

end TokiPona
