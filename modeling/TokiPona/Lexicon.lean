import TokiPona.Dictionary
import TokiPona.Word

namespace TokiPona

/-- What the grammar asks of a dictionary: the class of a word, and whether a run of words is one compound. Lexicons are
those that keep the default answers to the other questions: `isParticle`, `isModal` and `isInterjection` go by the class,
and a numeral literal is known by its spelling, as `Word.isNumeral` says. -/
structure Lexicon where
  classify : String → WordClass
  /-- Whether a head followed by a tail is a single compound. -/
  licenses : String → List String → Bool

namespace Lexicon

def isParticle (lex : Lexicon) (w : String) : Bool := (lex.classify w).contains .particle
def isModal (lex : Lexicon) (w : String) : Bool := (lex.classify w).contains .modal
def isInterjection (lex : Lexicon) (w : String) : Bool := (lex.classify w).contains .interjection
def isNumeral (lex : Lexicon) (w : String) : Bool := (lex.classify w).contains .numeral

def unlisted (w : String) : WordClass :=
  if Word.isNumeral w then .numeral
  else if Word.isProper w then .proper ||| .content
  else .empty

/-- The lexicon of a listing. Proper words after a head that is no particle make a name, listed or not. -/
def ofListing (listed : String → Option WordClass) (isCompound : String → List String → Bool) : Lexicon where
  classify w := (listed w).getD (unlisted w)
  licenses head tail :=
    !tail.isEmpty && !((listed head).getD (unlisted head)).contains .particle &&
      (tail.all Word.isProper || isCompound head tail)

theorem classify_ofListing (listed : String → Option WordClass) (isCompound : String → List String → Bool) (w : String) :
    (ofListing listed isCompound).classify w = (listed w).getD (unlisted w) := rfl

end Lexicon

/-- Looks words up entry by entry; of several entries for a word the first counts. -/
def Dictionary.lexicon (d : Dictionary) : Lexicon :=
  .ofListing (fun w ↦ (d.entries.find? (·.text == w)).map Entry.wordClass)
    (fun head tail ↦ d.compounds.any (·.isMadeOf head tail))

end TokiPona
