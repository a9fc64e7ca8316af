
namespace TokiPona

/-- `li` marks a predicate, `e` an object, `la` a context, `pi` regroups modifiers, `en` coordinates, `o` calls
and commands; the others join sentences or emphasise. -/
inductive Particle where
  | li | e | la | pi | en | o | anu | taso | ante | a | kin
  deriving DecidableEq, Repr

namespace Particle

def word : Particle → String
  | li => "li"
  | e => "e"
  | la => "la"
  | pi => "pi"
  | en => "en"
  | o => "o"
  | anu => "anu"
  | taso => "taso"
  | ante => "ante"
  | a => "a"
  | kin => "kin"

def all : List Particle := [li, e, la, pi, en, o, anu, taso, ante, a, kin]

def ofWord? (w : String) : Option Particle :=
  all.find? (·.word == w)

@[simp] theorem ofWord?_word (p : Particle) : ofWord? p.word = some p := by
  cases p <;> decide

theorem word_of_ofWord? {w : String} {p : Particle} (h : ofWord? w = some p) : p.word = w := by
  simpa using List.find?_some h

/-- The particles that may not stand next to each other, `li pi` apart. -/
def isStructural : Particle → Bool
  | li | la | e | pi => true
  | _ => false

/-- The particles that may open a sentence. -/
def isConjunction : Particle → Bool
  | taso | anu | en | ante => true
  | _ => false

/-- The particles that may govern a predicate. -/
def isGoverning : Particle → Bool
  | li | o => true
  | _ => false

def isIn (p : Particle) (words : List String) : Bool := words.contains p.word

end Particle

structure UnknownParticle where
  word : String

def UnknownParticle.message (u : UnknownParticle) : String := s!"'{u.word}' is not a grammatical particle"

def Particle.ofWord (w : String) : Except UnknownParticle Particle :=
  match ofWord? w with
  | some p => .ok p
  | none => .error ⟨w⟩

end TokiPona
