
namespace TokiPona

inductive Punctuation where
  | colon | period | question | exclamation
  deriving DecidableEq, Repr

namespace Punctuation

def mark : Punctuation → Char
  | colon => ':'
  | period => '.'
  | question => '?'
  | exclamation => '!'

def name : Punctuation → String
  | colon => "colon"
  | period => "period"
  | question => "question"
  | exclamation => "exclamation"

def all : List Punctuation := [colon, period, question, exclamation]

def ofChar? (c : Char) : Option Punctuation :=
  all.find? (·.mark == c)

@[simp] theorem ofChar?_mark (p : Punctuation) : ofChar? p.mark = some p := by
  cases p <;> decide

theorem mark_of_ofChar? {c : Char} {p : Punctuation} (h : ofChar? c = some p) : p.mark = c := by
  simpa using List.find?_some h

def isIn (text : String) : Bool := text.toList.any fun c ↦ (ofChar? c).isSome

end Punctuation

structure UnknownPunctuation where
  char : Char

def UnknownPunctuation.message (u : UnknownPunctuation) : String :=
  s!"Punctuation must be : or . or ? or !, got '{u.char}'"

def Punctuation.ofChar (c : Char) : Except UnknownPunctuation Punctuation :=
  match ofChar? c with
  | some p => .ok p
  | none => .error ⟨c⟩

end TokiPona
