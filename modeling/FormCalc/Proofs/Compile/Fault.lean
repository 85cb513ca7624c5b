import FormCalc.Compile
import FormCalc.Proofs.Grammar.Fault
import FormCalc.Proofs.Grammar.Placed
import FormCalc.Proofs.Output.Fault
import FormCalc.Proofs.Text.Position

/-!
# Errors point into the script

Lexer, parser and writer each blame a stretch of the script, so every error does
(`inside_of_compile`).  What is shown of an error is the line and the column of its start, which
is an offset between two characters.
-/

namespace FormCalc

variable {text : String}

/-- A parsed tree stands in its text. -/
theorem exists_placed {maxDepth : Nat} {program : Program}
    (h : Program.parse maxDepth text = .ok program) : ∃ tokens, program.Placed text tokens := by
  obtain ⟨tokens, mark, hlexes⟩ := exists_lexes_of_parse h
  obtain ⟨token, k, stmts, k', hstart, hstmts, -, rfl⟩ := parse_eq_ok h
  obtain ⟨hreaches, hplaced, horder⟩ :=
    (Grammar.placing maxDepth _).statements (hlexes.sits hstart) hstmts
  refine ⟨_, Span.holds_of_inOrder (isBoundary_zero text) (isBoundary_end text) ?_, hplaced⟩
  rcases horder with ⟨rfl, rfl⟩ | horder
  · exact Nat.zero_le _
  · exact horder.mono (Nat.zero_le _) hreaches.sits.before.le

/-- Every stage of a compilation blames a stretch of the script. -/
theorem inside_of_compile {options : Options} {error : Error}
    (h : compile options text = .error error) : error.span.Inside text := by
  unfold compile at h
  split at h
  · rename_i fault hparse
    obtain rfl := Except.error.inj h
    exact Program.inside_of_parse hparse
  · rename_i program hparse
    obtain ⟨tokens, hspan, hstmts⟩ := exists_placed hparse
    split at h
    · rename_i fault hwrite
      obtain rfl := Except.error.inj h
      exact Program.inside_of_write hspan.within hstmts hwrite
    · cases h

/-- **Every error points into the script.**  Both ends of its span lie between two characters of
the script, in their order.  So the position of its start is that of an offset between two
characters: its line starts behind the last line terminator in front of the error, and its column
is one more than the number of characters from there to the error. -/
theorem compile_error_inside {options : Options} {error : Error}
    (h : compile options text = .error error) :
    error.span.start ≤ error.span.stop ∧ error.span.stop ≤ text.utf8ByteSize ∧
      IsBoundary text error.span.start ∧ IsBoundary text error.span.stop ∧
      ∃ whole line back, text.toList = whole ++ line ++ back ∧
        utf8Length (whole ++ line) = error.span.start ∧
        LastLine (whole ++ line) back whole line ∧
        (LineIndex.ofText text).starts[
          ((LineIndex.ofText text).position error.span.start).line - 1]? =
            some (utf8Length whole) ∧
        (LineIndex.ofText text).charsBefore? error.span.start = some line.length ∧
        ((LineIndex.ofText text).position error.span.start).column = line.length + 1 := by
  have hinside := inside_of_compile h
  obtain ⟨front, back, htext, hoffset⟩ := hinside.start
  obtain ⟨whole, line, hlast, hstart, hchars⟩ := LineIndex.exists_lastLine htext
  obtain rfl := hlast.split
  rw [hoffset] at hstart hchars
  refine ⟨hinside.start_le_stop, hinside.stop.le, hinside.start, hinside.stop, whole, line, back,
    htext, hoffset, hlast, hstart, hchars, ?_⟩
  rw [LineIndex.column_position, hchars]
  rfl

/-- A number runs into a letter of two bytes, on a line behind both kinds of terminators. -/
theorem compile_error_inside_malformed : ∃ error,
    compile ⟨40, {}⟩ "a = \"ü\"\r\n// é\r\"ä\" & 1é" = .error error ∧ error.span = ⟨23, 26⟩ ∧
      IsBoundary "a = \"ü\"\r\n// é\r\"ä\" & 1é" error.span.start ∧
      IsBoundary "a = \"ü\"\r\n// é\r\"ä\" & 1é" error.span.stop ∧
      ∃ whole line back, "a = \"ü\"\r\n// é\r\"ä\" & 1é".toList = whole ++ line ++ back ∧
        utf8Length (whole ++ line) = 23 ∧ LastLine (whole ++ line) back whole line ∧
        ((LineIndex.ofText "a = \"ü\"\r\n// é\r\"ä\" & 1é").position 23).column =
          line.length + 1 := by
  have hcompile : compile ⟨40, {}⟩ "a = \"ü\"\r\n// é\r\"ä\" & 1é" =
      .error ⟨.grammar (.lexical .malformedNumber), ⟨23, 26⟩⟩ := by
    decide +kernel
  obtain ⟨-, -, hstart, hstop, whole, line, back, htext, hoffset, hlast, -, -, hcolumn⟩ :=
    compile_error_inside hcompile
  exact ⟨_, hcompile, rfl, hstart, hstop, whole, line, back, htext, hoffset, hlast, hcolumn⟩

end FormCalc
