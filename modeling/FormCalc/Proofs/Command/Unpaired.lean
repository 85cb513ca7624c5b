import FormCalc.Proofs.Command.Encoding
import FormCalc.Proofs.Text.Lines
import FormCalc.Proofs.Text.Surrogates

/-!
# Where ill-formed UTF-16 goes wrong

A script in UTF-16 with a surrogate that is alone does not compile.  The error is located by the
length of the text that was read up to there, and a run looks that offset up in another text, the
one that it shows.  Both texts begin alike, and what follows in the shown one is no line feed, so
the run reports the line and the column of the unit that is alone.

* `Position.Behind`: the position behind a text.
* `LineIndex.behind_position_append`: what a run reports for the end of a text that goes on.
* `compileUnits_first_alone`: the error, the text that is shown, and the report.
-/

namespace FormCalc

open Text

/-- Whether a position is that of what stands right behind a text: on the line after the last line
terminator of the text, with the rest of the text in front of it. -/
structure Position.Behind (text : String) (position : Position) : Prop where
  line : position.line = terminatorsUpTo text text.utf8ByteSize + 1
  column : ∃ whole line, text.toList = whole ++ line ∧
    LineIndex.Starts text text.utf8ByteSize (utf8Length whole) ∧
    position.column = line.length + 1

/-- The end of a text is behind it. -/
theorem LineIndex.behind_position (text : String) :
    ((ofText text).position text.utf8ByteSize).Behind text := by
  have hmin : min text.utf8ByteSize text.utf8ByteSize = text.utf8ByteSize := Nat.min_self _
  have hline := line_position text text.utf8ByteSize
  obtain ⟨whole, line, back, htext, hlength, hstarts, hcolumn⟩ :=
    column_of_boundary (hmin.symm ▸ isBoundary_end text)
  rw [hmin] at hline hlength hstarts
  have hback : back = [] := by
    rw [← utf8Length_toList, htext, utf8Length_append (whole ++ line)] at hlength
    cases back with
    | nil => rfl
    | cons c back =>
      have hc := c.utf8Size_pos
      rw [utf8Length_cons] at hlength
      omega
  rw [hback, List.append_nil] at htext
  exact ⟨hline, whole, line, htext, hstarts, hcolumn⟩

/-- A text that goes on with no line feed has the same position there. -/
theorem LineIndex.behind_position_append {text rest : String} {c : Char} (hc : c ≠ '\n') :
    ((ofText (text ++ String.singleton c ++ rest)).position text.utf8ByteSize).Behind text := by
  have hshown : (text ++ String.singleton c ++ rest).toList =
      text.toList ++ c :: rest.toList := by
    rw [String.toList_append, String.toList_append, String.toList_singleton, List.append_assoc,
      List.singleton_append]
  have hnext : (c :: rest.toList).head? ≠ some '\n' := fun h => hc (Option.some.inj h)
  have hsame := position_append hshown hnext
  rw [utf8Length_toList] at hsame
  rw [hsame]
  exact behind_position text

/-- What a run does with units that do not compile. -/
theorem Action.run_units_error {action : Action} {fs : Files}
    {stdin : Except FileError (List UInt8)} {units : List UInt16} {error : Error}
    (hinput : action.inputBytes fs stdin = .ok (0xFF :: 0xFE :: Utf16.bytes units))
    (herror : compileUnits action.options units = .error error) :
    action.run fs stdin =
      (action.failed ⟨error.cause.code.text, error.cause.message,
        some ((LineIndex.ofText (Utf16.lossy units)).position error.span.start)⟩, fs) := by
  have hcompile : action.compile (action.inputBytes fs stdin) =
      .error (compileFailure (.units units) error) := by
    rw [hinput, compile.eq_def]
    dsimp only
    rw [Script.decode, unitsOfBytes_bytes]
    dsimp only [Script.compile]
    rw [herror]
  rw [run_eq, hcompile]
  rfl

/-- **Ill-formed UTF-16 is located at its first surrogate that is alone.**  Units with such a
surrogate are the units of a text up to the first one.  Whatever the options, the error names this
surrogate, and its span is one byte behind that text.  The text that a run shows begins with the
same text, and with the replacement character behind it.  So a run reports the position of the
surrogate.  The offsets are natural numbers: where they are kept in 32 bits, the span is this one
for a text of at most `2 ^ 32 - 2` bytes. -/
theorem compileUnits_first_alone {units : List UInt16}
    (h : ∃ before u after, units = before ++ u :: after ∧ Utf16.Alone before u after) :
    ∃ text u after,
      (units = Utf16.encode text ++ u :: after ∧ Utf16.Alone (Utf16.encode text) u after ∧
        ∀ front v back, units = front ++ v :: back → Utf16.Alone front v back →
          (Utf16.encode text).length ≤ front.length) ∧
      Utf16.text? (Utf16.encode text) = .ok text ∧
      (∀ options, compileUnits options units =
        .error ⟨.grammar (.lexical (.invalidCharacter u.toNat)),
          ⟨text.utf8ByteSize, text.utf8ByteSize + 1⟩⟩) ∧
      (∃ rest, Utf16.lossy units = text ++ String.singleton '\uFFFD' ++ rest) ∧
      ∃ position : Position, position.Behind text ∧
        (LineIndex.ofText (Utf16.lossy units)).position text.utf8ByteSize = position ∧
        ∀ (action : Action) (fs : Files) (stdin : Except FileError (List UInt8)),
          action.inputBytes fs stdin = .ok (0xFF :: 0xFE :: Utf16.bytes units) →
          action.run fs stdin =
            (action.failed ⟨Code.invalidCharacter.text,
              "invalid character U+" ++ hexadecimal u.toNat, some position⟩, fs) := by
  rcases Utf16.exists_encode_or_alone units with ⟨text, hunits⟩ | ⟨text, u, after, rfl, halone⟩
  · -- the units of a text have none that is alone
    obtain ⟨before, u, after, hsplit, halone⟩ := h
    have htext : Utf16.encode text ++ [] = before ++ u :: after := by
      rw [List.append_nil, ← hunits, hsplit]
    have hle := halone.length_le htext
    have hlength := congrArg List.length (hunits.symm.trans hsplit)
    rw [List.length_append, List.length_cons] at hlength
    omega
  · have hfirst : ∀ front v back, Utf16.encode text ++ u :: after = front ++ v :: back →
        Utf16.Alone front v back → (Utf16.encode text).length ≤ front.length :=
      fun front v back hsplit hfront => hfront.length_le hsplit
    have herror : ∀ options, compileUnits options (Utf16.encode text ++ u :: after) =
        .error ⟨.grammar (.lexical (.invalidCharacter u.toNat)),
          ⟨text.utf8ByteSize, text.utf8ByteSize + 1⟩⟩ := by
      intro options
      rw [compileUnits, Utf16.text?_alone halone]
      rfl
    have hcode : (Cause.grammar (.lexical (.invalidCharacter u.toNat))).code =
        .invalidCharacter := rfl
    have hmessage : (Cause.grammar (.lexical (.invalidCharacter u.toNat))).message =
        "invalid character U+" ++ hexadecimal u.toNat := rfl
    have hshown := Utf16.lossy_alone halone
    refine ⟨text, u, after, ⟨rfl, halone, hfirst⟩, Utf16.text?_encode text, herror,
      ⟨Utf16.lossy after, hshown⟩,
      (LineIndex.ofText (Utf16.lossy (Utf16.encode text ++ u :: after))).position
        text.utf8ByteSize, ?_, rfl, fun action fs stdin hinput => ?_⟩
    · rw [hshown]
      exact LineIndex.behind_position_append (by decide)
    · rw [Action.run_units_error hinput (herror action.options), hcode, hmessage]

/-- Behind a carriage return and a pair comes a low surrogate with another low one in front of it,
and later a high one at the end. -/
def strayUnits : List UInt16 := [0xE9, 0x0D, 0xD83D, 0xDE00, 0xDC00, 0x0A, 0xD800]

theorem compileUnits_first_alone_low :
    (∃ before u after, strayUnits = before ++ u :: after ∧ Utf16.Alone before u after) ∧
    compileUnits {} strayUnits =
      .error ⟨.grammar (.lexical (.invalidCharacter 0xDC00)), ⟨7, 8⟩⟩ ∧
    (∃ text u after, strayUnits = Utf16.encode text ++ u :: after ∧
      compileUnits {} strayUnits = .error ⟨.grammar (.lexical (.invalidCharacter u.toNat)),
        ⟨text.utf8ByteSize, text.utf8ByteSize + 1⟩⟩ ∧
      ((LineIndex.ofText (Utf16.lossy strayUnits)).position text.utf8ByteSize).Behind text) ∧
    Utf16.lossy strayUnits = "é\r😀\uFFFD\n\uFFFD" ∧
    (LineIndex.ofText (Utf16.lossy strayUnits)).position 7 = ⟨2, 2⟩ := by
  have halone : ∃ before u after, strayUnits = before ++ u :: after ∧
      Utf16.Alone before u after := by
    refine ⟨[0xE9, 0x0D, 0xD83D, 0xDE00], 0xDC00, [0x0A, 0xD800], rfl, .inr ⟨by decide, ?_⟩⟩
    rintro _ ⟨⟩
    decide
  refine ⟨halone, by decide +kernel, ?_, by decide +kernel, by decide +kernel⟩
  obtain ⟨text, u, after, ⟨hunits, -⟩, -, herror, -, position, hbehind, rfl, -⟩ :=
    compileUnits_first_alone halone
  exact ⟨text, u, after, hunits, herror {}, hbehind⟩

end FormCalc
