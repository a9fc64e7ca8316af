
namespace TokiPona.Text

def isWithin (ranges : List (Nat × Nat)) (c : Char) : Bool :=
  ranges.any fun (first, last) ↦ first ≤ c.toNat && c.toNat ≤ last

/-- Whether a character is the first of one of the ranges or an even number of places after it. -/
def isEvenlyWithin (ranges : List (Nat × Nat)) (c : Char) : Bool :=
  ranges.any fun (first, last) ↦ first ≤ c.toNat && c.toNat ≤ last && (c.toNat - first) % 2 == 0

end TokiPona.Text
