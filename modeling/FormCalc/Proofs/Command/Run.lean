import FormCalc.Command.Action
import FormCalc.Proofs.Command.Files
import FormCalc.Proofs.Command.Json
import FormCalc.Proofs.Text.Encoding

/-!
# Runs are all or nothing

A run reads a script, decodes it, compiles it and writes it, and any of these steps may fail.

* `Action.Reads`, `Action.Compiles`, `Action.Refuses`: how far a run comes.
* `Files.Saves`: whether a file is written that holds a text, told by who reads the file.
* `Action.Ends`: all the ways in which a run can end.

Every run ends in one of these ways (`Action.ends_run`), and what is true of a run is said of each
of them.  The result of the module is `run_all_or_nothing`: a run that does not do all of its work
leaves the files as they were, and one that does changes no file but the one it was asked to write.
What it prints is read as text, or as a JSON value if that was asked for, and the file that it
writes is read as UTF-8.
-/

namespace FormCalc.Action

variable {action : Action} {fs after : Files} {stdin : Except FileError (List UInt8)}
  {script : Script} {js : String}

/-! ### How far a run comes -/

/-- The bytes that a run starts from, or why there are none. -/
def inputBytes (action : Action) (fs : Files) (stdin : Except FileError (List UInt8)) :
    Except FileError (List UInt8) :=
  match action.input with
  | some path => fs.read path
  | none => stdin

/-- Whether a script is read and decoded. -/
def Reads (action : Action) (fs : Files) (stdin : Except FileError (List UInt8))
    (script : Script) : Prop :=
  ∃ bytes, action.inputBytes fs stdin = .ok bytes ∧ Script.decode bytes = .ok script

/-- Whether a script is read and decoded, and compiles. -/
def Compiles (action : Action) (fs : Files) (stdin : Except FileError (List UInt8))
    (js : String) : Prop :=
  ∃ script, action.Reads fs stdin script ∧ script.compile action.options = .ok js

/-- Whether a script is read and decoded, but does not compile. -/
def Refuses (action : Action) (fs : Files) (stdin : Except FileError (List UInt8)) : Prop :=
  ∃ script error, action.Reads fs stdin script ∧ script.compile action.options = .error error

theorem Reads.eq {script' : Script} (h : action.Reads fs stdin script)
    (h' : action.Reads fs stdin script') : script' = script := by
  obtain ⟨bytes, hbytes, hdecode⟩ := h
  obtain ⟨bytes', hbytes', hdecode'⟩ := h'
  obtain rfl := Except.ok.inj (hbytes.symm.trans hbytes')
  exact Except.ok.inj (hdecode'.symm.trans hdecode)

theorem Compiles.eq {js' : String} (h : action.Compiles fs stdin js)
    (h' : action.Compiles fs stdin js') : js' = js := by
  obtain ⟨script, hreads, hjs⟩ := h
  obtain ⟨script', hreads', hjs'⟩ := h'
  obtain rfl := hreads.eq hreads'
  exact Except.ok.inj (hjs'.symm.trans hjs)

theorem Compiles.not_refuses (h : action.Compiles fs stdin js) : ¬action.Refuses fs stdin := by
  rintro ⟨script', error, hreads', herror⟩
  obtain ⟨script, hreads, hjs⟩ := h
  obtain rfl := hreads.eq hreads'
  cases hjs.symm.trans herror

/-! ### What is in a file -/

/-- The bytes of JavaScript are the only ones that hold it. -/
theorem decode_eq_ok_iff {bytes : List UInt8} :
    Text.Utf8.decode bytes = .ok js ↔ bytes = fileBytes js :=
  Text.Utf8.decode_eq_ok_iff

/-- **The bytes of JavaScript are read as JavaScript.** -/
theorem decode_fileBytes (js : String) : Text.Utf8.decode (fileBytes js) = .ok js :=
  decode_eq_ok_iff.mpr rfl

end Action

/-- Whether a file can be written that holds a text in UTF-8, and the files after that. -/
def Files.Saves (fs : Files) (path text : String) (after : Files) : Prop :=
  ∃ bytes, Text.Utf8.decode bytes = .ok text ∧ fs.write path bytes = .ok after

/-- A run writes the bytes that hold the text. -/
theorem Files.saves_iff {fs after : Files} {path js : String} :
    fs.Saves path js after ↔ fs.write path (Action.fileBytes js) = .ok after := by
  constructor
  · rintro ⟨bytes, hdecode, hwrite⟩
    rwa [← Action.decode_eq_ok_iff.mp hdecode]
  · intro hwrite
    exact ⟨_, Action.decode_fileBytes js, hwrite⟩

namespace Action

variable {action : Action} {fs after : Files} {stdin : Except FileError (List UInt8)}
  {script : Script} {js : String}

/-! ### How a run ends -/

/-- The ways in which a run can end: what it prints, and the files it leaves. -/
inductive Ends (action : Action) (fs : Files) (stdin : Except FileError (List UInt8)) :
    Outcome × Files → Prop where
  /-- The input cannot be read or decoded. -/
  | unread (message : String) (h : ∀ script, ¬action.Reads fs stdin script) :
      Ends action fs stdin (action.failed (readFailure message), fs)
  /-- The script does not compile. -/
  | refused {script : Script} {error : Error} (h : action.Reads fs stdin script)
      (herror : script.compile action.options = .error error) :
      Ends action fs stdin (action.failed (compileFailure script error), fs)
  /-- The JavaScript is printed. -/
  | printed {js : String} (h : action.Compiles fs stdin js) (houtput : action.output = none) :
      Ends action fs stdin (action.succeeded js, fs)
  /-- The JavaScript cannot be written. -/
  | unwritten {js path : String} {error : FileError} (h : action.Compiles fs stdin js)
      (houtput : action.output = some path) (hwrite : fs.write path (fileBytes js) = .error error) :
      Ends action fs stdin (action.failed (writeFailure path error), fs)
  /-- The JavaScript is written. -/
  | written {js path : String} {after : Files} (h : action.Compiles fs stdin js)
      (houtput : action.output = some path) (hwrite : fs.write path (fileBytes js) = .ok after) :
      Ends action fs stdin (action.succeeded js, after)

/-- A run in terms of its input. -/
theorem run_eq (action : Action) (fs : Files) (stdin : Except FileError (List UInt8)) :
    action.run fs stdin = match action.compile (action.inputBytes fs stdin) with
    | .error failure => (action.failed failure, fs)
    | .ok javascript =>
      match action.output with
      | none => (action.succeeded javascript, fs)
      | some path =>
        match fs.write path (fileBytes javascript) with
        | .error error => (action.failed (writeFailure path error), fs)
        | .ok after => (action.succeeded javascript, after) := rfl

/-- **Every run ends in one of these ways.** -/
theorem ends_run (action : Action) (fs : Files) (stdin : Except FileError (List UInt8)) :
    action.Ends fs stdin (action.run fs stdin) := by
  rw [run_eq]
  unfold compile
  cases hinput : action.inputBytes fs stdin with
  | error error =>
    refine .unread _ ?_
    rintro script ⟨bytes, hbytes, -⟩
    cases hinput.symm.trans hbytes
  | ok bytes =>
    dsimp only
    cases hdecode : Script.decode bytes with
    | error error =>
      refine .unread _ ?_
      rintro script ⟨bytes', hbytes, hscript⟩
      obtain rfl := Except.ok.inj (hinput.symm.trans hbytes)
      cases hdecode.symm.trans hscript
    | ok script =>
      have hreads : action.Reads fs stdin script := ⟨bytes, hinput, hdecode⟩
      dsimp only
      cases hcompile : script.compile action.options with
      | error error => exact .refused hreads hcompile
      | ok js =>
        have hcompiles : action.Compiles fs stdin js := ⟨script, hreads, hcompile⟩
        dsimp only
        cases houtput : action.output with
        | none => exact .printed hcompiles houtput
        | some path =>
          dsimp only
          cases hwrite : fs.write path (fileBytes js) with
          | error error => exact .unwritten hcompiles houtput hwrite
          | ok after => exact .written hcompiles houtput hwrite

/-! ### What a run prints -/

section Printed

variable (action)

theorem exit_failed (failure : Failure) : (action.failed failure).exit = 1 := by
  unfold failed
  split <;> rfl

theorem exit_succeeded (js : String) : (action.succeeded js).exit = 0 := by
  unfold succeeded
  dsimp only
  split
  · rfl
  · split <;> rfl

theorem stdout_failed (failure : Failure) (h : action.json = false) :
    (action.failed failure).stdout = "" := by
  rw [failed, h]
  rfl

theorem stdout_succeeded (js : String) (h : action.json = false) :
    (action.succeeded js).stdout = if action.output.isNone then js ++ "\n" else "" := by
  rw [succeeded, h]
  cases action.output <;> rfl

/-- The report of a failure. -/
def failureReport (failure : Failure) : Json :=
  Report.value ⟨action.inputName, action.output, none, some failure⟩

/-- The report of a run that has done its work. -/
def successReport (js : String) : Json :=
  Report.value ⟨action.inputName, action.output,
    if action.output.isNone then some js else none, none⟩

theorem read_failed (failure : Failure) (h : action.json = true) :
    Json.read (action.failed failure).stdout = some (action.failureReport failure) := by
  rw [failed, h]
  exact Report.read_json _

theorem read_succeeded (js : String) (h : action.json = true) :
    Json.read (action.succeeded js).stdout = some (action.successReport js) := by
  rw [succeeded, h]
  exact Report.read_json _

/-- What a run that has done its work prints. -/
theorem printed_succeeded (js : String) :
    if action.json then Json.read (action.succeeded js).stdout = some (action.successReport js)
    else (action.succeeded js).stdout = if action.output.isNone then js ++ "\n" else "" := by
  cases hjson : action.json with
  | true => exact action.read_succeeded js hjson
  | false => exact action.stdout_succeeded js hjson

end Printed

end FormCalc.Action

namespace FormCalc

open FormCalc.Action

/-- A field of what a report says about a failure. -/
def Json.errorField (name : String) (report : Json) : Option Json :=
  (report.field "error").bind (·.field name)

section Fields

variable (action : Action) (failure : Failure)

theorem ok_failureReport : (action.failureReport failure).field "ok" = some (.bool false) := rfl

theorem error_failureReport :
    (action.failureReport failure).field "error" = some failure.value := by
  unfold failureReport
  cases action.output <;> rfl

/-- A line and a column are there exactly if there is a position. -/
theorem isSome_errorField {name : String} (hname : name = "line" ∨ name = "column") :
    ((action.failureReport failure).errorField name).isSome = failure.position.isSome := by
  rw [Json.errorField, error_failureReport]
  obtain ⟨code, message, position⟩ := failure
  rcases hname with rfl | rfl <;> cases position <;> rfl

end Fields

/-! ### All or nothing -/

/-- What a run promises about its outcome and the files it leaves. -/
structure Action.AllOrNothing (action : Action) (fs : Files) (stdin : Except FileError (List UInt8))
    (outcome : Outcome) (after : Files) : Prop where
  /-- The status is zero exactly if the input is read, decoded and compiled, and written where it
  is to be written. -/
  exit_eq_zero : outcome.exit = 0 ↔ ∃ js, action.Compiles fs stdin js ∧
    ∀ path ∈ action.output, ∃ fs', fs.Saves path js fs'
  /-- Otherwise it is one. -/
  exit_eq_one : outcome.exit ≠ 0 → outcome.exit = 1
  /-- A failure changes no file, the output and the input included. -/
  unchanged : outcome.exit ≠ 0 → after = fs
  /-- A failure prints nothing but a report. -/
  silent : outcome.exit ≠ 0 → action.json = false → outcome.stdout = ""
  /-- Without an output, no file changes, and the JavaScript is printed on lines of its own or in
  the report. -/
  printed : ∀ js, outcome.exit = 0 → action.Compiles fs stdin js → action.output = none →
    after = fs ∧
      if action.json then
        Json.read outcome.stdout = some (.object [("ok", .bool true),
          ("input", .string action.inputName), ("javascript", .string js)])
      else outcome.stdout = js ++ "\n"
  /-- With an output, this file changes and no other, what is read from it is the JavaScript, and no
  JavaScript is printed. -/
  written : ∀ js path, outcome.exit = 0 → action.Compiles fs stdin js →
    action.output = some path →
      (∃ place bytes, fs.place path = .ok place ∧ fs.Written place bytes after ∧
        after.read path = .ok bytes ∧ Text.Utf8.decode bytes = .ok js) ∧
      if action.json then
        Json.read outcome.stdout = some (.object [("ok", .bool true),
          ("input", .string action.inputName), ("output", .string path)])
      else outcome.stdout = ""
  /-- A report says whether the run succeeded, and it has a line and a column exactly if the script
  did not compile. -/
  reported : action.json = true → ∃ report, Json.read outcome.stdout = some report ∧
    report.field "ok" = some (.bool (outcome.exit == 0)) ∧
    ((report.errorField "line").isSome = true ↔ action.Refuses fs stdin) ∧
    ((report.errorField "column").isSome = true ↔ action.Refuses fs stdin)

namespace Action

variable {action : Action} {fs after : Files} {stdin : Except FileError (List UInt8)} {js : String}

/-- A failure keeps the promise, if it has a position exactly if the script did not compile. -/
theorem allOrNothing_failed {failure : Failure}
    (hfails : ∀ js, action.Compiles fs stdin js →
      ∃ path ∈ action.output, ∃ error, fs.write path (fileBytes js) = .error error)
    (hposition : failure.position.isSome = true ↔ action.Refuses fs stdin) :
    action.AllOrNothing fs stdin (action.failed failure) fs := by
  have hexit := action.exit_failed failure
  have hnonzero : (action.failed failure).exit ≠ 0 := by rw [hexit]; decide
  refine ⟨⟨fun hzero => absurd hzero hnonzero, ?_⟩, fun _ => hexit, fun _ => rfl,
    fun _ => action.stdout_failed failure, fun _ hzero => absurd hzero hnonzero,
    fun _ _ hzero => absurd hzero hnonzero, fun hjson => ?_⟩
  · rintro ⟨js, hcompiles, hwrites⟩
    obtain ⟨path, hpath, error, herror⟩ := hfails js hcompiles
    obtain ⟨fs', hsaves⟩ := hwrites path hpath
    cases herror.symm.trans (Files.saves_iff.mp hsaves)
  · refine ⟨_, action.read_failed failure hjson, ?_, ?_, ?_⟩
    · rw [hexit]
      exact ok_failureReport action failure
    · rw [isSome_errorField action failure (.inl rfl), hposition]
    · rw [isSome_errorField action failure (.inr rfl), hposition]

/-- The report of a success has no failure in it. -/
theorem reported_succeeded (hcompiles : action.Compiles fs stdin js) (hjson : action.json = true) :
    ∃ report, Json.read (action.succeeded js).stdout = some report ∧
      report.field "ok" = some (.bool ((action.succeeded js).exit == 0)) ∧
      ((report.errorField "line").isSome = true ↔ action.Refuses fs stdin) ∧
      ((report.errorField "column").isSome = true ↔ action.Refuses fs stdin) := by
  have hnone : ∀ name, (action.successReport js).errorField name = none := by
    intro name
    unfold successReport
    cases action.output <;> rfl
  refine ⟨_, action.read_succeeded js hjson, ?_, ?_, ?_⟩
  · rw [action.exit_succeeded]
    rfl
  · rw [hnone]
    exact iff_of_false Bool.false_ne_true hcompiles.not_refuses
  · rw [hnone]
    exact iff_of_false Bool.false_ne_true hcompiles.not_refuses

theorem allOrNothing_printed (hcompiles : action.Compiles fs stdin js)
    (houtput : action.output = none) :
    action.AllOrNothing fs stdin (action.succeeded js) fs := by
  have hexit := action.exit_succeeded js
  refine ⟨⟨fun _ => ⟨js, hcompiles, ?_⟩, fun _ => hexit⟩, fun h => absurd hexit h,
    fun h => absurd hexit h, fun h => absurd hexit h, ?_, ?_, reported_succeeded hcompiles⟩
  · rw [houtput]
    exact nofun
  · intro js' _ hcompiles' _
    obtain rfl := hcompiles.eq hcompiles'
    have hprinted := action.printed_succeeded js'
    rw [successReport, houtput] at hprinted
    exact ⟨rfl, hprinted⟩
  · intro _ path _ _ hpath
    cases houtput.symm.trans hpath

theorem allOrNothing_written {path : String} (hcompiles : action.Compiles fs stdin js)
    (houtput : action.output = some path) (hwrite : fs.write path (fileBytes js) = .ok after) :
    action.AllOrNothing fs stdin (action.succeeded js) after := by
  have hexit := action.exit_succeeded js
  refine ⟨⟨fun _ => ⟨js, hcompiles, ?_⟩, fun _ => hexit⟩, fun h => absurd hexit h,
    fun h => absurd hexit h, fun h => absurd hexit h, ?_, ?_, reported_succeeded hcompiles⟩
  · rw [houtput]
    intro path' hpath
    obtain rfl := Option.some.inj hpath
    exact ⟨after, Files.saves_iff.mpr hwrite⟩
  · intro _ _ _ hnone
    cases houtput.symm.trans hnone
  · intro js' path' _ hcompiles' hpath
    obtain rfl := hcompiles.eq hcompiles'
    obtain rfl := Option.some.inj (houtput.symm.trans hpath)
    obtain ⟨place, hplace, hwritten, hread⟩ := Files.written_of_write hwrite
    have hprinted := action.printed_succeeded js'
    rw [successReport, houtput] at hprinted
    exact ⟨⟨place, _, hplace, hwritten, hread, decode_fileBytes js'⟩, hprinted⟩

end Action

/-- **Runs are all or nothing.**  The status of a run is zero if every step succeeds, and one
otherwise.  A run that fails changes no file, even where the output is there already or is the input
itself.  One that succeeds changes the file it was asked to write and no other, or none.  What it
prints is the JavaScript or nothing, or the report that was asked for. -/
theorem run_all_or_nothing (action : Action) (fs : Files) (stdin : Except FileError (List UInt8)) :
    action.AllOrNothing fs stdin (action.run fs stdin).1 (action.run fs stdin).2 := by
  have hends := action.ends_run fs stdin
  generalize action.run fs stdin = ending at hends
  cases hends with
  | unread message h =>
    refine allOrNothing_failed ?_ (iff_of_false Bool.false_ne_true ?_)
    · rintro js ⟨script, hreads, -⟩
      exact absurd hreads (h script)
    · rintro ⟨script, error, hreads, -⟩
      exact h script hreads
  | @refused script error h herror =>
    refine allOrNothing_failed ?_ (iff_of_true rfl ⟨script, error, h, herror⟩)
    rintro js hcompiles
    exact absurd ⟨script, error, h, herror⟩ hcompiles.not_refuses
  | printed h houtput => exact allOrNothing_printed h houtput
  | @unwritten js path error h houtput hwrite =>
    refine allOrNothing_failed ?_ (iff_of_false Bool.false_ne_true h.not_refuses)
    intro js' hcompiles
    obtain rfl := h.eq hcompiles
    exact ⟨path, houtput, error, hwrite⟩
  | written h houtput hwrite => exact allOrNothing_written h houtput hwrite

end FormCalc
