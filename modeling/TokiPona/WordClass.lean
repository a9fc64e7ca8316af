namespace TokiPona

/-- A set of word classes, one bit each: a word may have several, as `tawa` is content and preposition. Only seven bits
have a meaning, and the others are kept. -/
structure WordClass where
  bits : BitVec 32
  deriving DecidableEq, Repr

namespace WordClass

def empty : WordClass := ⟨0⟩
def particle : WordClass := ⟨1⟩
def content : WordClass := ⟨2⟩
def modal : WordClass := ⟨4⟩
def preposition : WordClass := ⟨8⟩
def interjection : WordClass := ⟨16⟩
def numeral : WordClass := ⟨32⟩
def proper : WordClass := ⟨64⟩

def known : BitVec 32 := 0x7f

/-- The class without the bits that have no meaning. -/
def truncated (a : WordClass) : WordClass := ⟨a.bits &&& known⟩

def ofBits (n : UInt32) : WordClass := truncated ⟨n.toBitVec⟩

def union (a b : WordClass) : WordClass := ⟨a.bits ||| b.bits⟩

instance : OrOp WordClass := ⟨union⟩

def contains (a b : WordClass) : Bool := a.bits &&& b.bits == b.bits

def roles : List (String × WordClass) :=
  [("PARTICLE", particle), ("CONTENT", content), ("MODAL", modal), ("PREPOSITION", preposition),
   ("INTERJECTION", interjection), ("NUMERAL", numeral), ("PROPER", proper)]

def hexadecimal (n : Nat) : String := "0x" ++ String.ofList (Nat.toDigits 16 n)

/-- The classes by name and then what is left of the bits as a number, joined by bars. -/
def text (a : WordClass) : String :=
  let rest := a.bits &&& ~~~known
  let names := (roles.filter (a.contains ·.2)).map (·.1)
  let parts := if rest = 0 then names else names ++ [hexadecimal rest.toNat]
  "WordClass(" ++ (if parts.isEmpty then hexadecimal 0 else " | ".intercalate parts) ++ ")"

end WordClass

end TokiPona
