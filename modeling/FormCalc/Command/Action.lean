import FormCalc.Command.Files
import FormCalc.Command.Report
import FormCalc.Command.Script

/-!
# The compile action

One run of the compiler: a script is read, decoded, compiled, and written to a file or
to standard output.  A failure at any step ends the run, and nothing is written before
all the steps in front of it have succeeded.

* `Action.compile`: from the bytes of the input to JavaScript.
* `Action.succeeded`, `Action.failed`: what a run prints and how it exits.
* `Action.run`: a run on given files and a given standard input.
-/

namespace FormCalc

/-- What a run is asked to do. -/
structure Action where
  /-- The file with the script.  Without one it comes from standard input. -/
  input : Option String := none
  /-- The file for the JavaScript.  Without one it goes to standard output. -/
  output : Option String := none
  /-- Whether the outcome is reported as JSON. -/
  json : Bool := false
  options : Options := {}
  deriving DecidableEq, Repr

/-- How a run ended: its exit status and what it printed. -/
structure Outcome where
  exit : Nat
  stdout : String
  deriving DecidableEq, Repr

namespace Action

/-- The name of the input in reports. -/
def inputName (action : Action) : String := action.input.getD "<stdin>"

/-! ### Failures -/

/-- What is said about an input that cannot be read. -/
def readMessage (action : Action) (error : FileError) : String :=
  "failed to read " ++ action.input.getD "stdin" ++ ": " ++ error.message

/-- The failure to read or decode the input. -/
def readFailure (message : String) : Failure := ⟨"FM2JS_READ_FAILED", message, none⟩

/-- The failure to write the output. -/
def writeFailure (path : String) (error : FileError) : Failure :=
  ⟨"FM2JS_WRITE_FAILED", "failed to write " ++ path ++ ": " ++ error.message, none⟩

/-- The failure to compile a script, at the position where its error starts. -/
def compileFailure (script : Script) (error : Error) : Failure :=
  ⟨error.cause.code.text, error.cause.message,
    some ((LineIndex.ofText script.shown).position error.span.start)⟩

/-! ### Steps -/

/-- From the bytes of the input to JavaScript. -/
def compile (action : Action) (input : Except FileError (List UInt8)) :
    Except Failure String :=
  match input with
  | .error error => .error (readFailure (action.readMessage error))
  | .ok bytes =>
    match Script.decode bytes with
    | .error error => .error (readFailure error.message)
    | .ok script =>
      match script.compile action.options with
      | .error error => .error (compileFailure script error)
      | .ok javascript => .ok javascript

/-- The outcome of a run that has done its work. -/
def succeeded (action : Action) (javascript : String) : Outcome :=
  let printed := if action.output.isNone then some javascript else none
  if action.json then
    ⟨0, Report.json ⟨action.inputName, action.output, printed, none⟩ ++ "\n"⟩
  else match printed with
    | some javascript => ⟨0, javascript ++ "\n"⟩
    | none => ⟨0, ""⟩

/-- The outcome of a run that has failed. -/
def failed (action : Action) (failure : Failure) : Outcome :=
  if action.json then
    ⟨1, Report.json ⟨action.inputName, action.output, none, some failure⟩ ++ "\n"⟩
  else ⟨1, ""⟩

/-- The bytes of JavaScript in a file, which is UTF-8 without a byte order mark. -/
def fileBytes (javascript : String) : List UInt8 :=
  javascript.toList.flatMap String.utf8EncodeChar

/-- A run on some files and a standard input: its outcome, and the files after it.  Standard input
comes with its bytes, or with the reason why it cannot be read. -/
def run (action : Action) (fs : Files) (stdin : Except FileError (List UInt8)) :
    Outcome × Files :=
  let input := match action.input with
    | some path => fs.read path
    | none => stdin
  match action.compile input with
  | .error failure => (action.failed failure, fs)
  | .ok javascript =>
    match action.output with
    | none => (action.succeeded javascript, fs)
    | some path =>
      match fs.write path (fileBytes javascript) with
      | .error error => (action.failed (writeFailure path error), fs)
      | .ok after => (action.succeeded javascript, after)

end Action

end FormCalc
