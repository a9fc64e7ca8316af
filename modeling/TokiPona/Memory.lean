import TokiPona.ParseError
import TokiPona.Phrase

/-!
What a reader remembers: the chains and phrases it has resolved, by the text they were resolved from. The grammar is
written once for readers of either kind, those that remember nothing and those that carry a memory along.
-/

namespace TokiPona

/-- An entry is written once and never replaced. -/
structure Memory where
  chains : List (String × Chain) := []
  phrases : List (String × Phrase) := []
  hits : Nat := 0

namespace Memory

def empty : Memory := {}

def size (memory : Memory) : Nat := memory.chains.length + memory.phrases.length

def isEmpty (memory : Memory) : Bool := memory.chains.isEmpty && memory.phrases.isEmpty

def hit (memory : Memory) : Memory := { memory with hits := memory.hits + 1 }

def record {α : Type} (key : String) (value : α) (entries : List (String × α)) : List (String × α) :=
  match entries.lookup key with
  | some _ => entries
  | none => (key, value) :: entries

theorem lookup_record_self {α : Type} (key : String) (value : α) (entries : List (String × α)) :
    (record key value entries).lookup key = some ((entries.lookup key).getD value) := by
  cases h : entries.lookup key with
  | none => simp [record, h]
  | some old => simp [record, h]

theorem lookup_record_of_ne {α : Type} {key other : String} (h : other ≠ key) (value : α)
    (entries : List (String × α)) : (record key value entries).lookup other = entries.lookup other := by
  cases hk : entries.lookup key with
  | none => simp [record, hk, List.lookup_cons, beq_false_of_ne h]
  | some old => simp [record, hk]

def recordChain (key : String) (chain : Chain) (memory : Memory) : Memory :=
  { memory with chains := record key chain memory.chains }

def recordPhrase (key : String) (phrase : Phrase) (memory : Memory) : Memory :=
  { memory with phrases := record key phrase memory.phrases }

end Memory

/-- Readers that may answer from what they resolved before. -/
class Recall (m : Type → Type) where
  chain : String → m Chain → m Chain
  phrase : String → m Phrase → m Phrase

instance : Recall (Except ParseError) where
  chain _ read := read
  phrase _ read := read

/-- Readers with a memory, which a failure leaves as it was when it arose. -/
abbrev Remembering := ExceptT ParseError (StateM Memory)

instance : Recall Remembering where
  chain key read := do
    match (← get).chains.lookup key with
    | some chain =>
      modify Memory.hit
      return chain
    | none =>
      let chain ← read
      modify (Memory.recordChain key chain)
      return chain
  phrase key read := do
    match (← get).phrases.lookup key with
    | some phrase =>
      modify Memory.hit
      return phrase
    | none =>
      let phrase ← read
      modify (Memory.recordPhrase key phrase)
      return phrase

end TokiPona
