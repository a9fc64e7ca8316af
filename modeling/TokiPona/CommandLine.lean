import TokiPona.CommandLine.Arguments
import TokiPona.Dictionary.Json
import TokiPona.Facts
import TokiPona.Files.Path
import TokiPona.Grammar
import TokiPona.Sentence.Json
import TokiPona.Sentence.Outline
import TokiPona.Vocabulary

namespace TokiPona

inductive Command where
  | compile (input output : String)
  | parse (sentences : List String) (json : Bool)
  | ask (facts : List String) (question : String)
  deriving DecidableEq, Repr

structure Invocation where
  lexicon : Option String := none
  strict : Bool := false
  command : Command
  deriving DecidableEq, Repr

namespace Invocation

open CommandLine

def helpSpec : Spec := { name := "help", letter := some 'h' }

/-- Options that may stand before the command or after it. -/
def globalSpecs : List Spec :=
  [{ name := "lexicon", letter := some 'l', operand := .path }, { name := "strict" },
   { name := "verbose", letter := some 'v', repeatable := true }, helpSpec]

def leadingSpecs : List Spec := { name := "version", letter := some 'V' } :: globalSpecs

/-- The arguments that a command takes, and how it is made of them if none is lacking. -/
structure Form where
  specs : List Spec
  maxWords : Option Nat
  command? : List Item → Option Command

def parseForm : Form where
  specs := { name := "json" } :: globalSpecs
  maxWords := none
  command? items :=
    match words items with
    | [] => none
    | sentences => some (.parse sentences (isGiven "json" items))

def askForm : Form where
  specs := { name := "fact", letter := some 'f', operand := .text, repeatable := true } :: globalSpecs
  maxWords := some 1
  command? items :=
    match values "fact" items, words items with
    | fact :: facts, [question] => some (.ask (fact :: facts) question)
    | _, _ => none

def compileForm : Form where
  specs :=
    { name := "input", letter := some 'i', operand := .path } ::
      { name := "output", letter := some 'o', operand := .path } :: globalSpecs
  maxWords := some 0
  command? items :=
    match values "input" items, values "output" items with
    | [input], [output] => some (.compile input output)
    | _, _ => none

def forms : List (String × Form) := [("compile", compileForm), ("parse", parseForm), ("ask", askForm)]

/-- Help is given on all commands or on one, itself included. -/
def help : List String → Usage
  | [] => .help
  | [name] => if name == "help" || (forms.lookup name).isSome then .help else .wrong
  | _ => .wrong

/-- A global option after the command counts before one in front of it. -/
def ofItems (leading trailing : List Item) (command : Command) : Invocation where
  lexicon := (values "lexicon" leading ++ values "lexicon" trailing).getLast?
  strict := isGiven "strict" (leading ++ trailing)
  command

/-- The value of the last option before the command is looked at only after the arguments of the command. -/
def ofArgs (args : List String) : Except Usage Invocation := do
  let count := leadingCount leadingSpecs args
  let leading := items leadingSpecs (args.take count)
  let (first, last) := setApart leading
  check leadingSpecs (some 0) [] first
  match args.drop count with
  | [] => throw .wrong
  | name :: args =>
    if name == "help" then throw (help args)
    else
      match forms.lookup name with
      | none => throw .wrong
      | some form =>
        let trailing := items form.specs args
        check form.specs form.maxWords [] trailing
        match form.command? trailing with
        | none => throw .wrong
        | some command =>
          check leadingSpecs (some 0) first last
          pure (ofItems leading trailing command)

end Invocation

structure Outcome where
  exit : UInt32 := 0
  stdout : String := ""
  stderr : String := ""
  deriving DecidableEq, Repr

inductive Failure where
  | file (error : FileError)
  | invalidDictionary (path : String)
  /-- A dictionary cannot be compiled, or a file that should hold a compiled one does not. -/
  | codec (message : String)
  | unparsed (failed total : Nat)
  | refused (error : ParseError)
  | unanswered (question : Unanswered)

def Failure.message : Failure → String
  | file e => e.message
  | invalidDictionary path =>
    Text.quoted path ++ " is not a valid dictionary\n\nCaused by:\n    no dictionary in JSON"
  | codec message => message
  | unparsed failed total => s!"{failed} of {total} sentences failed to parse"
  | refused e => e.message
  | unanswered u => u.message

def Outcome.failed (outcome : Outcome) (failure : Failure) : Outcome :=
  { outcome with exit := 1, stderr := outcome.stderr ++ "Error: " ++ failure.message ++ "\n" }

namespace Invocation

variable {m : Type → Type} [Monad m]

def readBytes (files : Files m) (path : String) : ExceptT Failure m ByteArray := do
  match ← files.read path with
  | .ok bytes => pure bytes
  | .error e => throw (.file e)

def readDictionary (files : Files m) (path : String) : ExceptT Failure m Dictionary := do
  match String.fromUTF8? (← readBytes files path) with
  | none => throw (.file .notText)
  | some text =>
    match (Json.parse? text).bind Dictionary.ofJson? with
    | some d => pure d
    | none => throw (.invalidDictionary path)

/-- The dictionary of a file, which is JSON if its name says so and compiled otherwise. -/
def loadDictionary (files : Files m) (codec : Dictionary.Codec) (path : String) : ExceptT Failure m Dictionary :=
  if Path.isJson path then readDictionary files path
  else do
    match codec.load (← readBytes files path) with
    | .ok d => pure d
    | .error e => throw (.codec ("Corrupt lexicon: " ++ e))

def grammar (files : Files m) (codec : Dictionary.Codec) (inv : Invocation) : ExceptT Failure m Grammar := do
  let vocabulary ← match inv.lexicon with
    | some path => Vocabulary.ofDictionary <$> loadDictionary files codec path
    | none => pure .standard
  pure { lexicon := vocabulary.lexicon, dialect := if inv.strict then .strict else {} }

/-- Reads sentences one after the other with one memory. -/
def parseAll (g : Grammar) (memory : Memory) : List String → List (Except ParseError Sentence)
  | [] => []
  | text :: rest =>
    let (result, memory) := g.parseWith text text memory
    result :: parseAll g memory rest

def printed (json : Bool) : Except ParseError Sentence → String
  | .ok s => if json then s.toJson.indented ++ "\n" else s.text ++ "\n" ++ s.outline.text ++ "\n"
  | .error _ => ""

def complaint : Except ParseError Sentence → String
  | .ok _ => ""
  | .error e => s!"❌ {e.kind.name} error: {e.message}\n"

def runParse (g : Grammar) (sentences : List String) (json : Bool) : Outcome :=
  let results := parseAll g .empty sentences
  let outcome : Outcome :=
    { stdout := String.join (results.map (printed json)), stderr := String.join (results.map complaint) }
  let failures := results.countP (!·.isOk)
  if failures = 0 then outcome else outcome.failed (.unparsed failures sentences.length)

def answer (g : Grammar) (facts : List String) (question : String) : Except Failure Sentence := do
  let facts ← facts.mapM fun fact ↦ (g.parse fact fact).mapError Failure.refused
  let question ← (g.parse question question).mapError Failure.refused
  ((⟨facts⟩ : Facts).ask question).mapError Failure.unanswered

def runAsk (g : Grammar) (facts : List String) (question : String) : Outcome :=
  match answer g facts question with
  | .ok fact => { stdout := fact.text ++ "\n" }
  | .error failure => ({} : Outcome).failed failure

def runCompile (files : Files m) (codec : Dictionary.Codec) (input output : String) : m Outcome := do
  let reading := s!"📖 Reading JSON from {Text.quoted input}...\n"
  match ← (readDictionary files input).run with
  | .error failure => pure (({ stdout := reading } : Outcome).failed failure)
  | .ok d =>
    let compiling := s!"⚙️  Compiling Dictionary version {d.version} with {d.entries.length} words " ++
      s!"and {d.compounds.length} compounds...\n"
    match codec.compile d with
    | .error e => pure (({ stdout := reading ++ compiling } : Outcome).failed (.codec ("Failed to rkyv serialize: " ++ e)))
    | .ok bytes =>
      match ← files.write output bytes with
      | .error e => pure (({ stdout := reading ++ compiling } : Outcome).failed (.file e))
      | .ok _ =>
        let success := s!"✅ Success! Binary written to {Text.quoted output}\n"
        pure { stdout := reading ++ compiling ++ success }

def run (files : Files m) (codec : Dictionary.Codec) (inv : Invocation) : m Outcome := do
  match inv.command with
  | .compile input output => runCompile files codec input output
  | .parse sentences json =>
    match ← (inv.grammar files codec).run with
    | .ok g => pure (runParse g sentences json)
    | .error failure => pure (({} : Outcome).failed failure)
  | .ask facts question =>
    match ← (inv.grammar files codec).run with
    | .ok g => pure (runAsk g facts question)
    | .error failure => pure (({} : Outcome).failed failure)

end Invocation

def CommandLine.Usage.outcome : CommandLine.Usage → Outcome
  | help => { stdout := usage }
  | version => { stdout := "sona-cli 0.1.0\n" }
  | wrong => { exit := 2, stderr := usage }
where
  usage : String :=
    "usage: [-l FILE] [--strict] [-v] parse [--json] SENTENCE... | ask -f SENTENCE... QUESTION | " ++
      "compile -i FILE -o FILE\n"

def runCommandLine {m : Type → Type} [Monad m] (files : Files m) (codec : Dictionary.Codec) (args : List String) :
    m Outcome :=
  match Invocation.ofArgs args with
  | .ok inv => inv.run files codec
  | .error usage => pure usage.outcome

end TokiPona
