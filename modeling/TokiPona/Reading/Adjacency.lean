import TokiPona.Dialect
import TokiPona.ParseError
import TokiPona.Token

namespace TokiPona.Reading

/-- The particle of a token, if it is one of `li`, `la`, `e` and `pi`. -/
def structural? (t : Token) : Option Particle := t.particle?.filter Particle.isStructural

def neighbours (tokens : List Token) : List (Token × Token) := tokens.zip (tokens.drop 1)

def doubled? (tokens : List Token) : Option Particle :=
  (neighbours tokens).findSome? fun (s, t) ↦ do
    let p ← structural? s
    let q ← structural? t
    if p = q then some p else none

def afterO? (tokens : List Token) : Option Particle :=
  (neighbours tokens).findSome? fun (s, t) ↦ if s.is .o then structural? t else none

/-- The first two structural particles side by side; `li pi` only where the dialect forbids it. -/
def clash? (dialect : Dialect) (tokens : List Token) : Option (Particle × Particle) :=
  (neighbours tokens).findSome? fun (s, t) ↦ do
    let p ← structural? s
    let q ← structural? t
    if p = .li && q = .pi && dialect.liPi then none else some (p, q)

/-- A particle said twice is reported before one after an `o`, and that before any other pair. -/
def adjacencyError? (dialect : Dialect) (text : String) (tokens : List Token) : Option ParseError :=
  ((doubled? tokens).map (.doubleParticle · text)).or
    (((afterO? tokens).map (.illegalPair .o · text)).or
      ((clash? dialect tokens).map fun (p, q) ↦ .illegalPair p q text))

end TokiPona.Reading
