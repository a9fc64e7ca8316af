import TokiPona.Lexicon

namespace TokiPona

inductive Lexeme where
  | word (text : String)
  | compound (head : String) (tail : List String)
  deriving DecidableEq, Repr

namespace Lexeme

def head : Lexeme → String
  | word w => w
  | compound h _ => h

def word? : Lexeme → Option String
  | word w => some w
  | compound _ _ => none

def words : Lexeme → List String
  | word w => [w]
  | compound h t => h :: t

def text (l : Lexeme) : String := Word.spaced l.words

/-- Lone words come before compounds; each kind is ordered word by word, words by their characters. -/
def le : Lexeme → Lexeme → Bool
  | word a, word b => a ≤ b
  | word _, compound _ _ => true
  | compound _ _, word _ => false
  | compound h t, compound h' t' => !(h' :: t').lex (h :: t)

def sort (ls : List Lexeme) : List Lexeme := ls.mergeSort le

end Lexeme

inductive CompoundError where
  | emptyTail (head : String)
  | particleHead (head : String)
  | notLicensed (head : String) (tail : List String)
  deriving DecidableEq, Repr

def CompoundError.message : CompoundError → String
  | emptyTail h => s!"'{h}' has no tail to compound with"
  | particleHead h => s!"particle '{h}' cannot head a compound"
  | notLicensed h t => s!"'{h} " ++ Word.spaced t ++ "' is not a licensed compound"

namespace Lexicon

/-- The compound of a head and a tail, if the lexicon has it. -/
def join (lex : Lexicon) (head : String) (tail : List String) : Except CompoundError Lexeme :=
  if tail.isEmpty then .error (.emptyTail head)
  else if lex.isParticle head then .error (.particleHead head)
  else if lex.licenses head tail then .ok (.compound head tail)
  else .error (.notLicensed head tail)

/-- The length of the longest tail, of at most `n` words, that `head` takes in; 0 if it takes none. -/
def longestTail (lex : Lexicon) (head : String) (rest : List String) : Nat → Nat
  | 0 => 0
  | n + 1 =>
    match lex.join head (rest.take (n + 1)) with
    | .ok _ => n + 1
    | .error _ => longestTail lex head rest n

/-- Cuts a run of words into lexemes, each as long as the lexicon allows. -/
def lexemes (lex : Lexicon) : List String → List Lexeme
  | [] => []
  | w :: rest =>
    match lex.longestTail w rest rest.length with
    | 0 => .word w :: lexemes lex rest
    | n + 1 => .compound w (rest.take (n + 1)) :: lexemes lex (rest.drop (n + 1))
termination_by words => words.length

@[simp] theorem flatMap_words_lexemes (lex : Lexicon) (words : List String) :
    (lex.lexemes words).flatMap Lexeme.words = words := by
  fun_induction lexemes lex words with
  | case1 => rfl
  | case2 w rest h ih => simp [Lexeme.words, ih]
  | case3 w rest n h ih => simp [Lexeme.words, ih]

theorem lexemes_ne_nil (lex : Lexicon) {words : List String} (hne : words ≠ []) : lex.lexemes words ≠ [] := by
  intro hnil
  have hwords := lex.flatMap_words_lexemes words
  rw [hnil] at hwords
  exact hne hwords.symm

end Lexicon

end TokiPona
