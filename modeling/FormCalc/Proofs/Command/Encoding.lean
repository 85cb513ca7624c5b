import FormCalc.Proofs.Command.Run

/-!
# One script in every encoding

A script may come as UTF-8, with a byte order mark or without, or as little-endian UTF-16 behind the
mark of that encoding.

* `Encoding.bytes`: the bytes of a file with a script.
* `Encoding.Holds`: whether a script can be kept in an encoding.  Only a text that itself starts
  with the character of the mark cannot go without one.

Whatever the encoding, the script that is read compiles as its text does, and is shown as its text
when it does not (`Encoding.decode_bytes`).  So no run can tell the encodings apart
(`run_encodings`).
-/

namespace FormCalc

open Text

/-- The ways in which a file can hold a script. -/
inductive Encoding where
  | utf8
  /-- UTF-8 behind its byte order mark. -/
  | markedUtf8
  /-- Little-endian UTF-16 behind its byte order mark. -/
  | utf16
  deriving DecidableEq, Repr

/-- Units as bytes, the low byte first. -/
def Text.Utf16.bytes (units : List UInt16) : List UInt8 :=
  units.flatMap fun u : UInt16 => [u.toUInt8, (u >>> 8).toUInt8]

/-- The character of the byte order mark. -/
def markCharacter : Char := Char.ofNat 0xFEFF

namespace Encoding

/-- The bytes of a file that holds a script. -/
def bytes : Encoding → String → List UInt8
  | .utf8, text => Utf8.encode text
  | .markedUtf8, text => 0xEF :: 0xBB :: 0xBF :: Utf8.encode text
  | .utf16, text => 0xFF :: 0xFE :: Utf16.bytes (Utf16.encode text)

/-- Whether a file can hold a script in an encoding. -/
def Holds (encoding : Encoding) (text : String) : Prop :=
  encoding = .utf8 → text.toList.head? ≠ some markCharacter

end Encoding

/-! ### Reading the bytes -/

/-- Two bytes make up the unit that they were taken from. -/
theorem unit_of_bytes (u : UInt16) :
    (u >>> 8).toUInt8.toUInt16 <<< 8 ||| u.toUInt8.toUInt16 = u := by
  have hu : u.toNat < 65536 := u.toNat_lt
  have hlow : u.toNat % 256 < 2 ^ 8 := Nat.mod_lt _ (by decide)
  rw [← UInt16.toNat_inj]
  simp only [UInt16.toNat_or, UInt16.toNat_shiftLeft, UInt8.toNat_toUInt16, UInt16.toNat_toUInt8,
    UInt16.toNat_shiftRight]
  have hhigh : u.toNat >>> 8 % 2 ^ 8 = u.toNat / 256 := by
    rw [Nat.shiftRight_eq_div_pow]
    omega
  have hshift : (u.toNat / 256) <<< 8 % 2 ^ 16 = (u.toNat / 256) <<< 8 := by
    rw [Nat.shiftLeft_eq]
    omega
  show (u.toNat >>> 8 % 2 ^ 8) <<< 8 % 2 ^ 16 ||| u.toNat % 2 ^ 8 = u.toNat
  rw [hhigh, hshift, ← Nat.shiftLeft_add_eq_or_of_lt hlow, Nat.shiftLeft_eq]
  omega

theorem unitsOfBytes_bytes (units : List UInt16) :
    Script.unitsOfBytes (Utf16.bytes units) = some units := by
  induction units with
  | nil => rfl
  | cons u units ih =>
    show (Script.unitsOfBytes (Utf16.bytes units)).map
      (((u >>> 8).toUInt8.toUInt16 <<< 8 ||| u.toUInt8.toUInt16) :: ·) = _
    rw [ih, unit_of_bytes]
    rfl

/-- No text starts with a byte that no character starts with. -/
theorem encode_ne_mark16 (text : String) (rest : List UInt8) : Utf8.encode text ≠ 0xFF :: rest := by
  intro h
  have hdecode := Utf8.decode_encode text
  rw [h] at hdecode
  cases hdecode

/-- Only a text that starts with the character of the mark starts with the bytes of the mark. -/
theorem head?_of_encode {text : String} {rest : List UInt8}
    (h : Utf8.encode text = 0xEF :: 0xBB :: 0xBF :: rest) :
    text.toList.head? = some markCharacter := by
  have hdecode := Utf8.decodeFrom_encode 0 text.toList
  rw [show text.toList.flatMap String.utf8EncodeChar = _ from h,
    Utf8.decodeFrom_three 0 rest (by decide) (by decide) (by decide)] at hdecode
  cases hrest : Utf8.decodeFrom (0 + 3) rest with
  | error error =>
    rw [hrest] at hdecode
    cases hdecode
  | ok chars =>
    rw [hrest] at hdecode
    rw [← Except.ok.inj hdecode]
    rfl

theorem withoutMark_encode {text : String} (h : text.toList.head? ≠ some markCharacter) :
    Script.withoutMark (Utf8.encode text) = Utf8.encode text := by
  unfold Script.withoutMark
  split
  · rename_i rest hrest
    exact absurd (head?_of_encode hrest) h
  · rfl

/-- Bytes without the mark of UTF-16 are read as UTF-8. -/
theorem decode_of_utf8 {bytes : List UInt8} {text : String} (hmark : ∀ rest, bytes ≠ 0xFF :: rest)
    (h : Utf8.decode (Script.withoutMark bytes) = .ok text) :
    Script.decode bytes = .ok (.text text) := by
  unfold Script.decode
  split
  · exact absurd rfl (hmark _)
  · rw [h]

namespace Encoding

/-- **Every encoding holds the same script.**  What is read from the bytes compiles as the text
does, and errors are located in the text. -/
theorem decode_bytes {encoding : Encoding} {text : String} (h : encoding.Holds text) :
    ∃ script, Script.decode (encoding.bytes text) = .ok script ∧ script.shown = text ∧
      ∀ options, script.compile options = compile options text := by
  cases encoding with
  | utf8 =>
    refine ⟨.text text, decode_of_utf8 (encode_ne_mark16 text) ?_, rfl, fun _ => rfl⟩
    rw [bytes, withoutMark_encode (h rfl), Utf8.decode_encode]
  | markedUtf8 =>
    refine ⟨.text text, decode_of_utf8 (fun rest hrest => ?_) (Utf8.decode_encode text), rfl,
      fun _ => rfl⟩
    cases hrest
  | utf16 =>
    refine ⟨.units (Utf16.encode text), ?_, Utf16.lossy_encode text, fun options => ?_⟩
    · rw [bytes, Script.decode, unitsOfBytes_bytes]
    · rw [Script.compile, compileUnits, Utf16.text?_encode]

end Encoding

/-! ### Runs -/

namespace Action

variable {action : Action} {text : String} {encoding : Encoding}

/-- What a script in a file comes to is what its text comes to. -/
theorem compile_bytes (h : encoding.Holds text) : action.compile (.ok (encoding.bytes text)) =
    (FormCalc.compile action.options text).mapError (compileFailure (.text text)) := by
  obtain ⟨script, hdecode, hshown, hcompile⟩ := Encoding.decode_bytes h
  have hfailure : compileFailure script = compileFailure (.text text) := by
    funext error
    rw [compileFailure, hshown]
    rfl
  rw [compile.eq_def]
  dsimp only
  rw [hdecode]
  dsimp only
  rw [hcompile, hfailure]
  cases FormCalc.compile action.options text <;> rfl

/-- Runs that come to the same JavaScript, among files that are alike, end in the same way. -/
theorem run_alike {fs fs' : Files} {stdin stdin' : Except FileError (List UInt8)}
    (halike : fs.Alike fs')
    (hcompile : action.compile (action.inputBytes fs' stdin') =
      action.compile (action.inputBytes fs stdin)) :
    ∃ outcome change, action.run fs stdin = (outcome, fs.changed change) ∧
      action.run fs' stdin' = (outcome, fs'.changed change) ∧
      ∀ path ∈ action.output, outcome.exit = 0 → ∃ js,
        (fs.changed change).read path = .ok (fileBytes js) ∧
          (fs'.changed change).read path = .ok (fileBytes js) := by
  have hfailed : ∀ failure, (action.failed failure).exit ≠ 0 := fun failure => by
    rw [action.exit_failed]
    decide
  rw [run_eq, run_eq, hcompile]
  cases action.compile (action.inputBytes fs stdin) with
  | error failure => exact ⟨_, none, rfl, rfl, fun _ _ hexit => absurd hexit (hfailed failure)⟩
  | ok js =>
    cases houtput : action.output with
    | none => exact ⟨_, none, rfl, rfl, nofun⟩
    | some path =>
      dsimp only
      rw [Files.write_eq, Files.write_eq, halike.target_eq]
      cases htarget : fs.target path with
      | error error => exact ⟨_, none, rfl, rfl, fun _ _ hexit => absurd hexit (hfailed _)⟩
      | ok place =>
        refine ⟨_, some (place, fileBytes js), rfl, rfl, fun path' hpath _ => ⟨js, ?_⟩⟩
        obtain rfl := Option.some.inj hpath
        exact ⟨Files.read_put htarget _,
          Files.read_put ((halike.target_eq path).trans htarget) _⟩

end Action

/-- **No run can tell the encodings apart.**  Where the input holds the same text, in whatever
encoding, a run exits with the same status, prints the same, positions of errors included, and
changes the same file to the same bytes or none. -/
theorem run_encodings {action : Action} {text : String} {encoding encoding' : Encoding}
    {fs fs' : Files} {stdin stdin' : Except FileError (List UInt8)} (h : encoding.Holds text)
    (h' : encoding'.Holds text) (halike : fs.Alike fs')
    (hinput : action.inputBytes fs stdin = .ok (encoding.bytes text))
    (hinput' : action.inputBytes fs' stdin' = .ok (encoding'.bytes text)) :
    (action.run fs' stdin').1 = (action.run fs stdin).1 ∧
    (∃ change, (action.run fs stdin).2 = fs.changed change ∧
      (action.run fs' stdin').2 = fs'.changed change) ∧
    ∀ path ∈ action.output, (action.run fs stdin).1.exit = 0 → ∃ js,
      (action.run fs stdin).2.read path = .ok (Action.fileBytes js) ∧
        (action.run fs' stdin').2.read path = .ok (Action.fileBytes js) := by
  have hcompile : action.compile (action.inputBytes fs' stdin') =
      action.compile (action.inputBytes fs stdin) := by
    rw [hinput, hinput', Action.compile_bytes h, Action.compile_bytes h']
  obtain ⟨outcome, change, hrun, hrun', hread⟩ := Action.run_alike halike hcompile
  rw [hrun, hrun']
  exact ⟨rfl, ⟨change, rfl, rfl⟩, hread⟩

/-- A folder with nothing in it but a script of one letter and an assignment, in some encoding. -/
def accentFiles (encoding : Encoding) : Files :=
  ⟨[], [(["s.fc"], encoding.bytes "é = 1")], []⟩

/-- The action that compiles it to a file beside it. -/
def accentAction : Action :=
  { input := some "s.fc", output := some "s.js", json := true, options := ⟨40, {}⟩ }

theorem run_encodings_accent :
    (accentAction.run (accentFiles .utf16) (.ok [])).1.exit = 0 ∧
    (accentAction.run (accentFiles .utf16) (.ok [])).1 =
      (accentAction.run (accentFiles .utf8) (.ok [])).1 ∧
    ∃ js,
      (accentAction.run (accentFiles .utf8) (.ok [])).2.read "s.js" = .ok (Action.fileBytes js) ∧
      (accentAction.run (accentFiles .utf16) (.ok [])).2.read "s.js" =
        .ok (Action.fileBytes js) := by
  have halike : (accentFiles .utf8).Alike (accentFiles .utf16) := by
    refine ⟨rfl, rfl, fun place => ?_⟩
    rw [accentFiles, accentFiles, Files.at?, Files.at?, List.lookup_cons, List.lookup_cons]
    cases place == ["s.fc"] <;> rfl
  have hplain : Encoding.utf8.Holds "é = 1" := fun _ => by decide
  have hunits : Encoding.utf16.Holds "é = 1" := by
    intro h
    cases h
  have hexit : (accentAction.run (accentFiles .utf8) (.ok [])).1.exit = 0 := by decide +kernel
  obtain ⟨houtcome, -, hread⟩ :=
    @run_encodings accentAction "é = 1" .utf8 .utf16 _ _ (.ok []) (.ok []) hplain hunits halike
      rfl rfl
  have hoption : "s.js" ∈ accentAction.output := rfl
  refine ⟨?_, houtcome, hread "s.js" hoption hexit⟩
  rw [houtcome]
  exact hexit

end FormCalc
