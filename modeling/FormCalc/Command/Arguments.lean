import FormCalc.Command.Action

/-!
# Arguments

The command line.  Arguments are read from left to right, and the first one that makes
no sense, or that asks for the version or for help, decides.  An option has its value
attached or in the next argument, which must not look like an option.

* `Argument.classify`: the form of an argument.
* `Settings.read`: what the arguments ask for.
* `Request.ofArguments`: the same with the environment, which supplies limits that no
  argument gives.
-/

namespace FormCalc

/-- The options that take a value. -/
inductive Valued where
  | output | maxParseDepth | maxCodegenDepth
  deriving DecidableEq, Repr

/-- The name of an option on the command line. -/
def Valued.name : Valued → String
  | .output => "--output"
  | .maxParseDepth => "--max-parse-depth"
  | .maxCodegenDepth => "--max-codegen-depth"

/-- Why a command line makes no sense. -/
inductive UsageError where
  | unknownArgument (argument : String)
  | missingValue (option : Valued)
  | invalidValue (name value : String)
  | repeated (name : String)
  | unneededValue (name : String)
  deriving DecidableEq, Repr

/-- What is said about a command line that makes no sense. -/
def UsageError.message : UsageError → String
  | .unknownArgument argument => "unexpected argument '" ++ argument ++ "' found"
  | .missingValue option => "a value is required for '" ++ option.name ++ "'"
  | .invalidValue name value => "invalid value '" ++ value ++ "' for '" ++ name ++ "'"
  | .repeated name => "the argument '" ++ name ++ "' cannot be used multiple times"
  | .unneededValue name => "unexpected value for '" ++ name ++ "'"

/-- What the arguments have set so far. -/
structure Settings where
  input : Option String := none
  output : Option String := none
  json : Bool := false
  maxParseDepth : Option Nat := none
  maxCodegenDepth : Option Nat := none
  deriving DecidableEq, Repr

/-- What a command line asks for. -/
inductive Request where
  | run (action : Action)
  | version
  | help
  deriving DecidableEq, Repr

/-! ### Values -/

/-- The value of decimal digits, behind the value of those in front of them. -/
def digitsValue (value : Nat) : List Char → Option Nat
  | [] => some value
  | c :: cs => if c.isDigit then digitsValue (value * 10 + (c.toNat - 48)) cs else none

/-- A number that fits into 64 bits, with a plus sign in front or not. -/
def limitValue (s : String) : Option Nat :=
  let digits := match s.toList with
    | '+' :: rest => rest
    | chars => chars
  if digits.isEmpty then none
  else (digitsValue 0 digits).filter (· < UInt64.size)

namespace Settings

/-- Sets the limit that an option stands for. -/
def setLimit (option : Valued) (current : Option Nat) (value : String) :
    Except UsageError (Option Nat) :=
  if current.isSome then .error (.repeated option.name)
  else match limitValue value with
    | some n => .ok (some n)
    | none => .error (.invalidValue option.name value)

/-- Gives an option its value.  No option is given twice. -/
def set (settings : Settings) (option : Valued) (value : String) :
    Except UsageError Settings :=
  match option with
  | .output =>
    if settings.output.isSome then .error (.repeated option.name)
    else if value.isEmpty then .error (.invalidValue option.name value)
    else .ok { settings with output := some value }
  | .maxParseDepth => do
    let limit ← setLimit option settings.maxParseDepth value
    return { settings with maxParseDepth := limit }
  | .maxCodegenDepth => do
    let limit ← setLimit option settings.maxCodegenDepth value
    return { settings with maxCodegenDepth := limit }

/-- Asks for a report, at most once. -/
def setJson (settings : Settings) : Except UsageError Settings :=
  if settings.json then .error (.repeated "--json") else .ok { settings with json := true }

/-- Names the input, of which there is only one. -/
def setInput (settings : Settings) (name : String) : Except UsageError Settings :=
  if settings.input.isSome then .error (.unknownArgument name)
  else if name.isEmpty then .error (.invalidValue "FILE" name)
  else .ok { settings with input := some name }

end Settings

/-! ### Forms -/

/-- The form of an argument. -/
inductive Argument where
  /-- `--`, behind which everything is an input. -/
  | divider
  /-- `--name` or `--name=value` -/
  | long (name : String) (value : Option String)
  /-- Letters behind one dash. -/
  | short (letters : List Char)
  /-- Anything else, and the dash alone. -/
  | plain
  deriving DecidableEq, Repr

/-- The form of an argument. -/
def Argument.classify (argument : String) : Argument :=
  match argument.toList with
  | ['-', '-'] => .divider
  | '-' :: '-' :: rest =>
    let name := String.ofList (rest.takeWhile (· != '='))
    match rest.dropWhile (· != '=') with
    | [] => .long name none
    | _ :: value => .long name (some (String.ofList value))
  | ['-'] => .plain
  | '-' :: letters => .short letters
  | _ => .plain

/-- What a single argument does. -/
inductive Effect where
  /-- It is settled. -/
  | settle (settings : Settings)
  /-- It decides the request. -/
  | decide (request : Request)
  /-- It takes the next argument as the value of an option. -/
  | await (option : Valued)
  /-- It makes inputs of all the arguments behind it. -/
  | divide

namespace Effect

/-- An option with the value attached to it, or with none yet. -/
def value (settings : Settings) (option : Valued) : Option String → Except UsageError Effect
  | none => .ok (.await option)
  | some value => (settings.set option value).map .settle

/-- A flag, which takes no value. -/
def flag (name : String) (effect : Except UsageError Effect) :
    Option String → Except UsageError Effect
  | none => effect
  | some _ => .error (.unneededValue name)

/-- The effect of a long option. -/
def ofLong (settings : Settings) (name : String) (attached : Option String) :
    Except UsageError Effect :=
  match name with
  | "output" => value settings .output attached
  | "max-parse-depth" => value settings .maxParseDepth attached
  | "max-codegen-depth" => value settings .maxCodegenDepth attached
  | "json" => flag "--json" (settings.setJson.map .settle) attached
  | "verbose" => flag "--verbose" (.ok (.settle settings)) attached
  | "version" => flag "--version" (.ok (.decide .version)) attached
  | "help" => flag "--help" (.ok (.decide .help)) attached
  | _ => .error (.unknownArgument ("--" ++ name))

/-- The effect of short options in a row.  The value of an option may follow it at once,
with an equals sign in front or not. -/
def ofShort (settings : Settings) (letters : List Char) : Except UsageError Effect :=
  match letters.dropWhile (· == 'v') with
  | [] => .ok (.settle settings)
  | ['o'] => .ok (.await .output)
  | 'o' :: '=' :: attached => value settings .output (some (String.ofList attached))
  | 'o' :: attached => value settings .output (some (String.ofList attached))
  | 'V' :: _ => .ok (.decide .version)
  | 'h' :: _ => .ok (.decide .help)
  | c :: _ => .error (.unknownArgument (String.ofList ['-', c]))

/-- The effect of an argument. -/
def ofArgument (settings : Settings) (argument : String) : Except UsageError Effect :=
  match Argument.classify argument with
  | .divider => .ok .divide
  | .long name attached => ofLong settings name attached
  | .short letters => ofShort settings letters
  | .plain => (settings.setInput argument).map .settle

end Effect

/-! ### Command lines -/

namespace Settings

/-- Reads arguments that are all inputs. -/
def readInputs (settings : Settings) : List String → Except UsageError Settings
  | [] => .ok settings
  | name :: rest => do readInputs (← settings.setInput name) rest

/-- Reads arguments.  The result is what they set, or a request that one of them
decides. -/
def read (settings : Settings) : List String → Except UsageError (Settings ⊕ Request)
  | [] => .ok (.inl settings)
  | argument :: rest => do
    match ← Effect.ofArgument settings argument with
    | .settle settings => read settings rest
    | .decide request => return .inr request
    | .divide => return .inl (← settings.readInputs rest)
    | .await option =>
      match rest with
      | [] => .error (.missingValue option)
      | value :: rest =>
        if Argument.classify value = .plain then read (← settings.set option value) rest
        else .error (.missingValue option)

/-- A limit from an argument, else from the environment, else the usual one. -/
def limit (option : Valued) (given : Option Nat) (environment : Option String) (usual : Nat) :
    Except UsageError Nat :=
  match given, environment with
  | some n, _ => .ok n
  | none, none => .ok usual
  | none, some value =>
    match limitValue value with
    | some n => .ok n
    | none => .error (.invalidValue option.name value)

/-- The action that settings ask for in an environment.  A dash stands for standard
input. -/
def action (settings : Settings) (environment : String → Option String) :
    Except UsageError Action := do
  let parseDepth ← limit .maxParseDepth settings.maxParseDepth
    (environment "FM2JS_MAX_PARSE_DEPTH") defaultParseDepth
  let codegenDepth ← limit .maxCodegenDepth settings.maxCodegenDepth
    (environment "FM2JS_MAX_CODEGEN_DEPTH") ({} : OutputLimits).maxDepth
  return {
    input := settings.input.filter (· != "-")
    output := settings.output
    json := settings.json
    options := { maxParseDepth := parseDepth, output := { maxDepth := codegenDepth } } }

end Settings

/-- What a command line asks for in an environment. -/
def Request.ofArguments (environment : String → Option String) (arguments : List String) :
    Except UsageError Request := do
  match ← ({} : Settings).read arguments with
  | .inr request => return request
  | .inl settings => return .run (← settings.action environment)

/-! ### Answers -/

/-- What is printed for the version. -/
def versionText : String := "fm2js 0.2.0\n"

/-- What is printed for help. -/
def helpText : String :=
  "Compile FormCalc scripts to JavaScript\n\n" ++
  "Usage: fm2js [OPTIONS] [FILE]\n\n" ++
  "Arguments:\n" ++
  "  [FILE]  FormCalc script to compile (`-` or omitted reads stdin)\n\n" ++
  "Options:\n" ++
  "  -o, --output <FILE>          Write JavaScript to this file instead of stdout\n" ++
  "  -v, --verbose...             Increase logging verbosity (-v for DEBUG, -vv for TRACE)\n" ++
  "      --json                   Emit JSON formatted output (stable, machine-readable)\n" ++
  "      --max-parse-depth <N>    Maximum parser nesting depth\n" ++
  "      --max-codegen-depth <N>  Maximum code generator nesting depth\n" ++
  "  -h, --help                   Print help\n" ++
  "  -V, --version                Print version\n"

/-- The exit status of a command line that makes no sense. -/
def usageStatus : Nat := 2

/-- A command line on some files, a standard input that can be read, and an environment: its
outcome, and the files after it. -/
def runCommand (environment : String → Option String) (arguments : List String) (fs : Files)
    (stdin : List UInt8) : Outcome × Files :=
  match Request.ofArguments environment arguments with
  | .error _ => (⟨usageStatus, ""⟩, fs)
  | .ok .version => (⟨0, versionText⟩, fs)
  | .ok .help => (⟨0, helpText⟩, fs)
  | .ok (.run action) => action.run fs (.ok stdin)

end FormCalc
