import TokiPona.Json
import TokiPona.Split

/-!
Reading JSON. A first machine takes the text character by character and gives words of JSON, a second takes those and
builds the value on a stack of the arrays and objects that are still open.
-/

namespace TokiPona.Json

/-- A bracket, comma or colon; a string, with its text if there is one; or any other value without parts. -/
inductive Piece where
  | sign (c : Char)
  | text (s : Option String)
  | atom (j : Json)

def isSpace (c : Char) : Bool := c ∈ [' ', '\t', '\n', '\r']

def isSign (c : Char) : Bool := c ∈ ['[', ']', '\x7b', '\x7d', ',', ':']

def hexDigit? (c : Char) : Option Nat :=
  if '0' ≤ c && c ≤ '9' then some (c.toNat - '0'.toNat)
  else if 'a' ≤ c && c ≤ 'f' then some (c.toNat - 'a'.toNat + 10)
  else if 'A' ≤ c && c ≤ 'F' then some (c.toNat - 'A'.toNat + 10)
  else none

def hex4? (a b c d : Char) : Option Nat := do
  let a ← hexDigit? a
  let b ← hexDigit? b
  let c ← hexDigit? c
  let d ← hexDigit? d
  some (((a * 16 + b) * 16 + c) * 16 + d)

def shortEscape? : Char → Option Char
  | '"' => some '"'
  | '\\' => some '\\'
  | '/' => some '/'
  | 'b' => some '\x08'
  | 'f' => some '\x0c'
  | 'n' => some '\n'
  | 'r' => some '\r'
  | 't' => some '\t'
  | _ => none

/-- Whether what stands between quotes has only escapes that there are and no bare control characters. -/
def isWellEscaped : List Char → Bool
  | [] => true
  | '\\' :: 'u' :: a :: b :: c :: d :: rest => (hex4? a b c d).isSome && isWellEscaped rest
  | '\\' :: c :: rest => (shortEscape? c).isSome && isWellEscaped rest
  | c :: rest => c ≠ '\\' && 0x20 ≤ c.toNat && isWellEscaped rest

/-- What stands between quotes, with its escapes resolved. Half a surrogate pair and a bare control character are
refused. -/
def unescape? : List Char → Option (List Char)
  | [] => some []
  | '\\' :: 'u' :: a :: b :: c :: d :: rest => do
    let n ← hex4? a b c d
    if 0xdc00 ≤ n && n < 0xe000 then none
    else if 0xd800 ≤ n && n < 0xdc00 then
      match rest with
      | '\\' :: 'u' :: a :: b :: c :: d :: rest => do
        let low ← hex4? a b c d
        if 0xdc00 ≤ low && low < 0xe000 then
          let rest ← unescape? rest
          some (Char.ofNat (0x10000 + (n - 0xd800) * 0x400 + (low - 0xdc00)) :: rest)
        else none
      | _ => none
    else
      let rest ← unescape? rest
      some (Char.ofNat n :: rest)
  | '\\' :: c :: rest => do
    let c ← shortEscape? c
    let rest ← unescape? rest
    some (c :: rest)
  | c :: rest => if c = '\\' || c.toNat < 0x20 then none else (c :: ·) <$> unescape? rest

def digitsValue (digits : List Char) : Nat :=
  digits.foldl (fun n c ↦ 10 * n + (c.toNat - '0'.toNat)) 0

def skipDigits? (cs : List Char) : Option (List Char) :=
  if cs.head?.any Char.isDigit then some (cs.dropWhile Char.isDigit) else none

def skipFraction? : List Char → Option (List Char)
  | '.' :: rest => skipDigits? rest
  | cs => some cs

def skipExponent? : List Char → Option (List Char)
  | c :: rest =>
    if c = 'e' || c = 'E' then skipDigits? (stripLeading (fun s ↦ s = '+' || s = '-') rest) else some (c :: rest)
  | [] => some []

def number? (cs : List Char) : Option Json := do
  let body := stripLeading (· = '-') cs
  let digits := body.takeWhile Char.isDigit
  let rest ← skipDigits? body
  if digits.length ≠ 1 && digits.head? = some '0' then none
  else
    match ← (skipFraction? rest).bind skipExponent? with
    | [] => some (if cs = digits then natural (digitsValue digits) else numeral (String.ofList cs))
    | _ :: _ => none

def atom? (cs : List Char) : Option Json :=
  if cs = "null".toList then some null
  else if cs = "true".toList then some (bool true)
  else if cs = "false".toList then some (bool false)
  else number? cs

/-- Where the first machine stands: between words, inside a string, or inside a word of another kind. -/
inductive Place where
  | between
  | quoted (escaped : Bool) (reversed : List Char)
  | bare (reversed : List Char)

structure Scan where
  /-- Last first. -/
  pieces : List Piece := []
  place : Place := .between

def Scan.between (pieces : List Piece) (c : Char) : Scan :=
  if isSpace c then ⟨pieces, .between⟩
  else if c = '"' then ⟨pieces, .quoted false []⟩
  else if isSign c then ⟨.sign c :: pieces, .between⟩
  else ⟨pieces, .bare [c]⟩

def Scan.step (s : Scan) (c : Char) : Option Scan :=
  match s.place with
  | .between => some (.between s.pieces c)
  | .quoted true reversed => some ⟨s.pieces, .quoted false (c :: reversed)⟩
  | .quoted false reversed =>
    if c = '"' then
      let cs := reversed.reverse
      if isWellEscaped cs then some ⟨.text ((unescape? cs).map String.ofList) :: s.pieces, .between⟩ else none
    else some ⟨s.pieces, .quoted (c = '\\') (c :: reversed)⟩
  | .bare reversed =>
    if isSpace c || isSign c || c = '"' then do
      let j ← atom? reversed.reverse
      some (.between (.atom j :: s.pieces) c)
    else some ⟨s.pieces, .bare (c :: reversed)⟩

def Scan.finish (s : Scan) : Option (List Piece) :=
  match s.place with
  | .between => some s.pieces.reverse
  | .quoted _ _ => none
  | .bare reversed => do
    let j ← atom? reversed.reverse
    some (.atom j :: s.pieces).reverse

def pieces? (text : String) : Option (List Piece) :=
  (text.toList.foldlM Scan.step {}).bind Scan.finish

/-- An array or object that is still open, with what it has so far, last first. An object has no fields to show once
one of their names cannot be decoded. -/
inductive Frame where
  | array (items : List Json)
  | object (fields : Option (List (String × Json))) (name : Option String)

inductive Expected where
  | value
  | itemOrEnd
  | name
  | nameOrEnd
  | colon
  | next
  | nothing (value : Json)

structure Build where
  frames : List Frame := []
  expected : Expected := .value

def Build.take (frames : List Frame) (j : Json) : Build :=
  match frames with
  | [] => ⟨[], .nothing j⟩
  | .array items :: outer => ⟨.array (j :: items) :: outer, .next⟩
  | .object fields name :: outer => ⟨.object (do some ((← name, j) :: (← fields))) name :: outer, .next⟩

def Build.close : List Frame → Char → Option Build
  | .array items :: outer, ']' => some (.take outer (.array items.reverse))
  | .object fields _ :: outer, '\x7d' => some (.take outer ((fields.map (.object ·.reverse)).getD .undecodable))
  | _, _ => none

def Build.openValue (frames : List Frame) : Piece → Option Build
  | .atom j => some (.take frames j)
  | .text s => some (.take frames ((s.map .string).getD .undecodable))
  | .sign c =>
    if c = '[' then some ⟨.array [] :: frames, .itemOrEnd⟩
    else if c = '\x7b' then some ⟨.object (some []) none :: frames, .nameOrEnd⟩
    else none

def Build.step (b : Build) (p : Piece) : Option Build :=
  match b.expected, p, b.frames with
  | .itemOrEnd, .sign ']', frames => close frames ']'
  | .value, p, frames | .itemOrEnd, p, frames => openValue frames p
  | .nameOrEnd, .sign '\x7d', frames => close frames '\x7d'
  | .name, .text s, .object fields _ :: outer | .nameOrEnd, .text s, .object fields _ :: outer =>
    some ⟨.object fields s :: outer, .colon⟩
  | .colon, .sign ':', frames => some ⟨frames, .value⟩
  | .next, .sign ',', .array items :: outer => some ⟨.array items :: outer, .value⟩
  | .next, .sign ',', .object fields name :: outer => some ⟨.object fields name :: outer, .name⟩
  | .next, .sign c, frames => close frames c
  | _, _, _ => none

/-- Reads a text that is one JSON value. -/
def parse? (text : String) : Option Json := do
  let pieces ← pieces? text
  match (← pieces.foldlM Build.step {}).expected with
  | .nothing j => some j
  | _ => none

end TokiPona.Json
