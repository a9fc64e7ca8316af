import TokiPona.Json

namespace TokiPona.Json

def hexByte (n : Nat) : List Char :=
  [Nat.digitChar (n / 16), Nat.digitChar (n % 16)]

/-- Escapes quotes, backslashes and control characters; all else stands for itself. -/
def escapeChar (c : Char) : List Char :=
  if c = '"' then ['\\', '"']
  else if c = '\\' then ['\\', '\\']
  else if c = '\n' then ['\\', 'n']
  else if c = '\r' then ['\\', 'r']
  else if c = '\t' then ['\\', 't']
  else if c = '\x08' then ['\\', 'b']
  else if c = '\x0c' then ['\\', 'f']
  else if c.toNat < 0x20 then ['\\', 'u', '0', '0'] ++ hexByte c.toNat
  else [c]

def quoted (s : String) : String :=
  String.ofList ('"' :: s.toList.flatMap escapeChar ++ ['"'])

mutual

def compact : Json → String
  | null | undecodable => "null"
  | bool b => if b then "true" else "false"
  | natural n => toString n
  | numeral literal => literal
  | string s => quoted s
  | array items => "[" ++ ",".intercalate (compactAll items) ++ "]"
  | object fields => "\x7b" ++ ",".intercalate (compactFields fields) ++ "\x7d"

def compactAll : List Json → List String
  | [] => []
  | j :: rest => j.compact :: compactAll rest

def compactFields : List (String × Json) → List String
  | [] => []
  | (name, j) :: rest => (quoted name ++ ":" ++ j.compact) :: compactFields rest

end

def margin (depth : Nat) : String := String.ofList (List.replicate (2 * depth) ' ')

/-- Items on lines of their own between two brackets, which stand together if there are none. -/
def block (depth : Nat) (opening closing : String) : List String → String
  | [] => opening ++ closing
  | items =>
    opening ++ "\n" ++ ",\n".intercalate (items.map (margin (depth + 1) ++ ·)) ++ "\n" ++ margin depth ++ closing

mutual

def indentedAt (depth : Nat) : Json → String
  | array items => block depth "[" "]" (indentedAll (depth + 1) items)
  | object fields => block depth "\x7b" "\x7d" (indentedFields (depth + 1) fields)
  | j => j.compact

def indentedAll (depth : Nat) : List Json → List String
  | [] => []
  | j :: rest => j.indentedAt depth :: indentedAll depth rest

def indentedFields (depth : Nat) : List (String × Json) → List String
  | [] => []
  | (name, j) :: rest => (quoted name ++ ": " ++ j.indentedAt depth) :: indentedFields depth rest

end

def indented (j : Json) : String := j.indentedAt 0

end TokiPona.Json
