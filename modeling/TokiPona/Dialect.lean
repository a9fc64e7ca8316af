
namespace TokiPona

structure Dialect where
  /-- Whether `li` may stand directly before `pi`. -/
  liPi : Bool := true
  deriving DecidableEq, Repr

def Dialect.strict : Dialect := ⟨false⟩

end TokiPona
