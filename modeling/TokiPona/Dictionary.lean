import TokiPona.WordClass

namespace TokiPona

structure Entry where
  text : String
  /-- As written; bits that name no role are kept here and dropped by `wordClass`. -/
  bits : UInt32
  deriving DecidableEq, Repr

def Entry.wordClass (entry : Entry) : WordClass := .ofBits entry.bits

structure Compound where
  head : String
  tail : List String
  deriving DecidableEq, Repr

def Compound.words (compound : Compound) : List String := compound.head :: compound.tail

def Compound.isMadeOf (compound : Compound) (head : String) (tail : List String) : Bool :=
  compound.head == head && compound.tail.length == tail.length && (compound.tail.zip tail).all fun (v, w) ↦ v == w

theorem Compound.isMadeOf_iff {compound : Compound} {head : String} {tail : List String} :
    compound.isMadeOf head tail = true ↔ compound.words = head :: tail := by
  have htail (words : List String) :
      words.length = tail.length ∧ ((words.zip tail).all fun (v, w) ↦ v == w) = true ↔ words = tail := by
    induction words generalizing tail with
    | nil => cases tail <;> simp
    | cons v words ih =>
      cases tail with
      | nil => simp
      | cons w tail => simp [← ih, and_left_comm]
  simp [Compound.isMadeOf, Compound.words, and_assoc, ← htail compound.tail]

structure Dictionary where
  version : UInt32
  entries : List Entry
  compounds : List Compound
  deriving DecidableEq, Repr

/-- A way to write dictionaries as bytes and to read them again, either of which may fail. -/
structure Dictionary.Codec where
  compile : Dictionary → Except String ByteArray
  load : ByteArray → Except String Dictionary

end TokiPona
