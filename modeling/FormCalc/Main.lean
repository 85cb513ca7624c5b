import FormCalc.Command.Arguments

/-!
# The program

Carries out a command line on the real files, standard input and environment.  All
decisions are made by `FormCalc.Request.ofArguments` and `FormCalc.Action`.
-/

namespace FormCalc

/-- The number of a failure of the system, which some operations give negated. -/
def systemCode (code : UInt32) : UInt32 := min code (0 - code)

/-- A failure of the system as the error of a file. -/
def FileError.ofSystem : IO.Error → FileError
  | .noFileOrDirectory .. => .missing
  | error@(.inappropriateType _ code _) =>
    if systemCode code = 20 then .notFolder
    else if systemCode code = 21 then .isFolder
    else .other (toString error)
  | error@(.invalidArgument _ code _) =>
    if systemCode code = 36 then .nameTooLong else .other (toString error)
  | error => .other (toString error)

/-- What an operation on a file gives, or why it fails. -/
def attempt {α : Type} (operation : IO α) : IO (Except FileError α) := do
  try return .ok (← operation)
  catch error => return .error (.ofSystem error)

/-- Everything on standard input. -/
partial def readAll (stream : IO.FS.Stream) (read : ByteArray) : IO ByteArray := do
  let chunk ← stream.read 65536
  if chunk.isEmpty then return read else readAll stream (read ++ chunk)

/-- Prints an outcome, with a line on standard error for a failure that is not reported
as JSON. -/
def finish (json : Bool) (outcome : Outcome) (failure : Option Failure) : IO UInt32 := do
  IO.print outcome.stdout
  if let some failure := failure then
    unless json do IO.eprintln (failure.code ++ ": " ++ failure.message)
  return outcome.exit.toUInt32

/-- Carries out the compile action. -/
def perform (action : Action) : IO UInt32 := do
  let input ← match action.input with
    | some path => attempt (return (← IO.FS.readBinFile path).toList)
    | none => attempt (return (← readAll (← IO.getStdin) .empty).toList)
  match action.compile input with
  | .error failure => finish action.json (action.failed failure) failure
  | .ok javascript =>
    match action.output with
    | none => finish action.json (action.succeeded javascript) none
    | some path =>
      match ← attempt (IO.FS.writeBinFile path (Action.fileBytes javascript).toByteArray) with
      | .ok _ => finish action.json (action.succeeded javascript) none
      | .error error =>
        let failure := Action.writeFailure path error
        finish action.json (action.failed failure) failure

end FormCalc

def main (arguments : List String) : IO UInt32 := do
  let parseDepth ← IO.getEnv "FM2JS_MAX_PARSE_DEPTH"
  let codegenDepth ← IO.getEnv "FM2JS_MAX_CODEGEN_DEPTH"
  let environment := fun name =>
    if name = "FM2JS_MAX_PARSE_DEPTH" then parseDepth
    else if name = "FM2JS_MAX_CODEGEN_DEPTH" then codegenDepth
    else none
  match FormCalc.Request.ofArguments environment arguments with
  | .error error =>
    IO.eprintln ("error: " ++ error.message)
    return FormCalc.usageStatus.toUInt32
  | .ok .version =>
    IO.print FormCalc.versionText
    return 0
  | .ok .help =>
    IO.print FormCalc.helpText
    return 0
  | .ok (.run action) => FormCalc.perform action
