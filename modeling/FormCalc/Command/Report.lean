import FormCalc.Text.Position

/-!
# Reports

What a run reports on request: one line of JSON, with its fields in a fixed order and
those that do not apply left out.
-/

namespace FormCalc

/-- A digit of a hexadecimal number, in lower case. -/
def hexDigit (n : Nat) : Char := Nat.digitChar (n % 16)

/-- A character inside a JSON string.  Quotes, backslashes and control characters are
escaped and nothing else is. -/
def jsonEscaped (c : Char) : List Char :=
  if c = '"' then ['\\', '"']
  else if c = '\\' then ['\\', '\\']
  else if c = '\x08' then ['\\', 'b']
  else if c = '\x0c' then ['\\', 'f']
  else if c = '\n' then ['\\', 'n']
  else if c = '\r' then ['\\', 'r']
  else if c = '\t' then ['\\', 't']
  else if c.toNat < 0x20 then ['\\', 'u', '0', '0', hexDigit (c.toNat / 16), hexDigit c.toNat]
  else [c]

/-- A JSON string. -/
def jsonString (s : String) : String :=
  "\"" ++ String.ofList (s.toList.flatMap jsonEscaped) ++ "\""

/-- A JSON object, of fields given as written values. -/
def jsonObject (fields : List (String × String)) : String :=
  "\x7b" ++ ",".intercalate (fields.map fun field => jsonString field.1 ++ ":" ++ field.2) ++ "\x7d"

/-- Why a run failed.  Only an error in the script has a position. -/
structure Failure where
  code : String
  message : String
  position : Option Position
  deriving DecidableEq, Repr

/-- A field that may not apply. -/
def optionalField (name : String) (value : Option String) : List (String × String) :=
  match value with
  | none => []
  | some value => [(name, value)]

/-- A failure as a JSON object. -/
def Failure.json (failure : Failure) : String :=
  jsonObject ([("code", jsonString failure.code), ("message", jsonString failure.message)] ++
    optionalField "line" (failure.position.map fun p => toString p.line) ++
    optionalField "column" (failure.position.map fun p => toString p.column))

/-- What a run reports. -/
structure Report where
  input : String
  output : Option String
  /-- The JavaScript, unless it went to a file. -/
  javascript : Option String
  failure : Option Failure
  deriving DecidableEq, Repr

/-- A report as one line of JSON. -/
def Report.json (report : Report) : String :=
  jsonObject ([("ok", if report.failure.isNone then "true" else "false"),
      ("input", jsonString report.input)] ++
    optionalField "output" (report.output.map jsonString) ++
    optionalField "javascript" (report.javascript.map jsonString) ++
    optionalField "error" (report.failure.map Failure.json))

end FormCalc
