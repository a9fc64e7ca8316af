import TokiPona.Dialect
import TokiPona.Dictionary
import TokiPona.Json.Reader
import TokiPona.Json.Writer

namespace TokiPona

variable {α : Type}

def Json.word32? (j : Json) : Option UInt32 := do
  let n ← j.natural?
  if n < UInt32.size then some (UInt32.ofNat n) else none

def Json.list? (f : Json → Option α) (j : Json) : Option (List α) := do (← j.array?).mapM f

def Entry.ofJson? (j : Json) : Option Entry := do
  match ← j.record? ["text", "class"] with
  | [text, bits] => some ⟨← text.string?, ← bits.word32?⟩
  | _ => none

def Entry.toJson (entry : Entry) : Json :=
  .object [("text", .string entry.text), ("class", .natural entry.bits.toNat)]

def Compound.ofJson? (j : Json) : Option Compound := do
  match ← j.record? ["head", "tail"] with
  | [head, tail] => some ⟨← head.string?, ← tail.strings?⟩
  | _ => none

def Compound.toJson (compound : Compound) : Json :=
  .object [("head", .string compound.head), ("tail", .ofStrings compound.tail)]

namespace Dictionary

def ofJson? (j : Json) : Option Dictionary := do
  match ← j.record? ["version", "entries", "compounds"] with
  | [version, entries, compounds] =>
    some ⟨← version.word32?, ← entries.list? Entry.ofJson?, ← compounds.list? Compound.ofJson?⟩
  | _ => none

def toJson (d : Dictionary) : Json :=
  .object
    [("version", .natural d.version.toNat), ("entries", .array (d.entries.map Entry.toJson)),
     ("compounds", .array (d.compounds.map Compound.toJson))]

end Dictionary

/-- A field that is left out has its default. -/
def Dialect.ofJson? : Json → Option Dialect
  | .array [] => some {}
  | .array [j] => do some ⟨← j.bool?⟩
  | .object fields =>
    match fields.filter (·.1 == "li_pi_is_valid") with
    | [] => some {}
    | [(_, j)] => do some ⟨← j.bool?⟩
    | _ => none
  | _ => none

end TokiPona
