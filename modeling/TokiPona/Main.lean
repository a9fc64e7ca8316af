import TokiPona.CommandLine

namespace TokiPona

/-- Whether the number of a failure is the given one, with either sign. -/
def isNumbered (code number : UInt32) : Bool := code == number || code == 0 - number

def fileError (e : IO.Error) : FileError :=
  match e with
  | .noFileOrDirectory .. => .missing
  | .inappropriateType _ code _ =>
    if isNumbered code 20 then .notFolder else if isNumbered code 21 then .isFolder else .other (toString e)
  | .invalidArgument _ code _ => if isNumbered code 36 then .nameTooLong else .other (toString e)
  | _ => .other (toString e)

def attempt {α : Type} (action : IO α) : IO (Except FileError α) := do
  try .ok <$> action catch e => pure (.error (fileError e))

def machineFiles : Files IO where
  read path := attempt (IO.FS.readBinFile path)
  write path content := attempt (IO.FS.writeBinFile path content)

/-- What a compiled dictionary starts with. No text has this byte in it, so no text is taken for a compiled dictionary
and no compiled dictionary for text. -/
def mark : UInt8 := 0xff

def archive : Dictionary.Codec where
  compile d := .ok (⟨#[mark]⟩ ++ d.toJson.compact.toUTF8)
  load bytes :=
    if bytes.data[0]? = some mark then
      match (String.fromUTF8? (bytes.extract 1 bytes.size)).bind Json.parse? |>.bind Dictionary.ofJson? with
      | some d => .ok d
      | none => .error "no dictionary in JSON"
    else .error "no compiled dictionary"

end TokiPona

open TokiPona in
def main (args : List String) : IO UInt32 := do
  let outcome ← runCommandLine machineFiles archive args
  IO.print outcome.stdout
  IO.eprint outcome.stderr
  return outcome.exit
