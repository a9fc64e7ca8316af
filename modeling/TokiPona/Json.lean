
namespace TokiPona

inductive Json where
  | null
  | bool (value : Bool)
  /-- A number written with digits alone. -/
  | natural (value : Nat)
  /-- Any other number, as it is written. -/
  | numeral (literal : String)
  | string (value : String)
  | array (items : List Json)
  | object (fields : List (String × Json))
  /-- A string with half a surrogate pair, which no text can stand for, or an object with a field of such a name. -/
  | undecodable
  deriving Inhabited

namespace Json

variable {α : Type}

def bool? : Json → Option Bool
  | bool b => some b
  | _ => none

def natural? : Json → Option Nat
  | natural n => some n
  | _ => none

def string? : Json → Option String
  | string s => some s
  | _ => none

def array? : Json → Option (List Json)
  | array items => some items
  | _ => none

def strings? (j : Json) : Option (List String) := do (← j.array?).mapM string?

/-- The value of a field that an object has exactly once. -/
def field? (name : String) : Json → Option Json
  | object fields =>
    match fields.filter (·.1 == name) with
    | [(_, value)] => some value
    | _ => none
  | _ => none

/-- The values of a record, written either as an object with these fields among others, or as an array of them. -/
def record? (names : List String) : Json → Option (List Json)
  | array items => if items.length = names.length then some items else none
  | j => names.mapM (j.field? ·)

def ofOption (f : α → Json) : Option α → Json
  | some a => f a
  | none => null

def ofStrings (items : List String) : Json := array (items.map string)

end Json

end TokiPona
