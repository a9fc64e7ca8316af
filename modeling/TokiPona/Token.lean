import TokiPona.Particle
import TokiPona.Punctuation
import TokiPona.Word
import TokiPona.Text.Blank

namespace TokiPona

inductive TokenKind where
  /-- Any word, particles included. -/
  | word
  /-- A word with the mark `~`. -/
  | preposition
  | punctuation (mark : Char)
  | quote (mark : Char)
  deriving DecidableEq, Repr

structure Token where
  text : String
  kind : TokenKind
  /-- Where the token starts, in bytes. -/
  start : Nat
  deriving DecidableEq, Repr

namespace Token

/-- The length in bytes. -/
def size (t : Token) : Nat := t.text.utf8ByteSize

def stop (t : Token) : Nat := t.start + t.size

def ofWord (start : Nat) (w : String) : Token :=
  ⟨w, if Word.isPreposition w then .preposition else .word, start⟩

def is (t : Token) (p : Particle) : Bool := t.kind = .word && t.text = p.word

def particle? (t : Token) : Option Particle :=
  match t.kind with
  | .word => Particle.ofWord? t.text
  | _ => none

def isPreposition (t : Token) : Bool := t.kind = .preposition

def isWord (t : Token) : Bool :=
  match t.kind with
  | .word | .preposition => true
  | _ => false

def isQuote (t : Token) : Bool :=
  match t.kind with
  | .quote _ => true
  | _ => false

/-- The terminal mark that a token is, if it is one; a comma or semicolon is none. -/
def terminal? (t : Token) : Option Punctuation :=
  match t.kind with
  | .punctuation c => Punctuation.ofChar? c
  | _ => none

def bare (t : Token) : String :=
  match t.kind with
  | .preposition => Word.bare t.text
  | _ => t.text

def isMark (c : Char) : Bool := c ∈ [',', ';', ':', '.', '?', '!']

def isQuoteMark (c : Char) : Bool := c ∈ ['«', '»']

def isWordChar (c : Char) : Bool := !Text.isBlank c && !isMark c && !isQuoteMark c

/-- The tokens of a text that starts at byte `pos`. Blanks only separate. -/
def scan (pos : Nat) : List Char → List Token
  | [] => []
  | c :: rest =>
    if isWordChar c then
      let w := String.ofList (c :: rest.takeWhile isWordChar)
      ofWord pos w :: scan (pos + w.utf8ByteSize) (rest.dropWhile isWordChar)
    else
      let tokens := scan (pos + c.utf8Size) rest
      if isMark c then ⟨String.singleton c, .punctuation c, pos⟩ :: tokens
      else if isQuoteMark c then ⟨String.singleton c, .quote c, pos⟩ :: tokens
      else tokens
termination_by cs => cs.length
decreasing_by
  · have h : (rest.dropWhile isWordChar).length ≤ rest.length := (List.dropWhile_sublist _).length_le
    simp only [List.length_cons]
    omega
  · simp

def fragment (tokens : List Token) : String := Word.spaced (tokens.map text)

end Token

def tokenize (text : String) : List Token := Token.scan 0 text.toList

end TokiPona
