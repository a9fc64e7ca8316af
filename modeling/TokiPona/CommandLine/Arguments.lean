/-!
Arguments of a command: options with a long name and perhaps a letter, some of which take a value, and the words
between them. They are read from left to right, and the first that is out of place ends the reading.
-/

namespace TokiPona.CommandLine

inductive Operand where
  | nothing
  | text
  | path
  deriving DecidableEq

structure Spec where
  name : String
  letter : Option Char := none
  operand : Operand := .nothing
  repeatable : Bool := false

inductive Item where
  | word (text : String)
  | flag (name : String)
  /-- An option and its value, which stands in the same argument or in the next one. -/
  | value (name text : String) (isNext : Bool)
  | unknown

inductive Ending where
  | complete
  /-- The last option is still without its value. -/
  | pending (name : String)
  | words
  | wrong

/-- A lone dash is a word. -/
def isOptionLike (arg : String) : Bool :=
  match arg.toList with
  | '-' :: _ :: _ => true
  | _ => false

/-- The letters after a single dash. Once a letter takes a value, the rest is that value. -/
def letters (specs : List Spec) : List Char → List Item × Ending
  | [] => ([], .complete)
  | c :: rest =>
    match specs.find? (·.letter == some c) with
    | none => ([], .wrong)
    | some spec =>
      if spec.operand = .nothing then
        let (items, ending) := letters specs rest
        (.flag spec.name :: items, ending)
      else
        match rest with
        | [] => ([], .pending spec.name)
        | '=' :: value => ([.value spec.name (String.ofList value) false], .complete)
        | value => ([.value spec.name (String.ofList value) false], .complete)

def named (specs : List Spec) (text : List Char) : List Item × Ending :=
  let name := String.ofList (text.takeWhile (· ≠ '='))
  match specs.find? (·.name == name), text.dropWhile (· ≠ '=') with
  | some spec, [] => if spec.operand = .nothing then ([.flag name], .complete) else ([], .pending name)
  | some spec, _ :: value =>
    if spec.operand = .nothing then ([], .wrong) else ([.value name (String.ofList value) false], .complete)
  | none, _ => ([], .wrong)

def said (specs : List Spec) (arg : String) : List Item × Ending :=
  match arg.toList with
  | ['-', '-'] => ([], .words)
  | '-' :: '-' :: text => named specs text
  | '-' :: c :: rest => letters specs (c :: rest)
  | _ => ([.word arg], .complete)

def items (specs : List Spec) : List String → List Item
  | [] => []
  | arg :: rest =>
    let (first, ending) := said specs arg
    first ++
      match ending, rest with
      | .complete, rest => items specs rest
      | .words, rest => rest.map .word
      | .pending name, value :: rest =>
        if isOptionLike value then [.unknown] else .value name value true :: items specs rest
      | .pending _, [] | .wrong, _ => [.unknown]

/-- How many arguments stand before the first word that may name a command. -/
def leadingCount (specs : List Spec) : List String → Nat
  | [] => 0
  | arg :: rest =>
    if isOptionLike arg then
      match (said specs arg).2, rest with
      | .words, rest => rest.length + 1
      | .pending _, _ :: rest => leadingCount specs rest + 2
      | _, rest => leadingCount specs rest + 1
    else 0

def words (items : List Item) : List String :=
  items.filterMap fun
    | .word text => some text
    | _ => none

def values (name : String) (items : List Item) : List String :=
  items.filterMap fun
    | .value n text _ => if n == name then some text else none
    | _ => none

def isGiven (name : String) (items : List Item) : Bool :=
  items.any fun
    | .flag n | .value n _ _ => n == name
    | _ => false

def mayRepeat (specs : List Spec) (before : List Item) (name : String) : Bool :=
  !isGiven name before || specs.any fun spec ↦ spec.name == name && spec.repeatable

/-- Whether an item may stand after others, where so many words are asked for at most. -/
def Item.fits (specs : List Spec) (maxWords : Option Nat) (before : List Item) : Item → Bool
  | word _ => maxWords.all ((words before).length < ·)
  | flag name => mayRepeat specs before name
  | value name text _ =>
    mayRepeat specs before name &&
      !(text.isEmpty && specs.any fun spec ↦ spec.name == name && spec.operand = .path)
  | unknown => false

/-- Arguments that ask for nothing that can be run. -/
inductive Usage where
  | help
  | version
  | wrong
  deriving DecidableEq, Repr

/-- Goes through items that follow others, up to one that does not fit or that asks for help or the version. -/
def check (specs : List Spec) (maxWords : Option Nat) (before : List Item) : List Item → Except Usage Unit
  | [] => .ok ()
  | item :: rest =>
    if !item.fits specs maxWords before then .error .wrong
    else
      match item with
      | .flag "help" => .error .help
      | .flag "version" => .error .version
      | _ => check specs maxWords (before ++ [item]) rest

/-- The items of which the last is set apart if its value is an argument of its own. -/
def setApart (items : List Item) : List Item × List Item :=
  match items.getLast? with
  | some (.value name text true) => (items.dropLast, [.value name text true])
  | _ => (items, [])

end TokiPona.CommandLine
