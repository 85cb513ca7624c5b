import FormCalc.Proofs.Compile.Scanned
import FormCalc.Proofs.Output.Length
import FormCalc.Proofs.Output.Size

/-!
# How long compiled scripts are

A parsed tree weighs no more than its script is long, and its text takes at most 100 bytes for each
unit of its weight.  What stands around the statements of a script is always the same.  So the
length of the JavaScript is linear in that of the script (`compile_size_le`).
-/

namespace FormCalc

variable {options : Options} {text js : String}

/-- What stands around the statements of a script takes at most 400 bytes. -/
theorem Program.size_text_le (program : Program) :
    program.text.utf8ByteSize ≤ 400 + (stmtsText true program.stmts).utf8ByteSize := by
  have hfixed : prologue.utf8ByteSize + epilogue.utf8ByteSize ≤ 400 := by decide +kernel
  rw [Program.text, String.utf8ByteSize_append, String.utf8ByteSize_append]
  omega

/-- **The length of the JavaScript is linear in that of the script.** -/
theorem compile_size_le (h : compile options text = .ok js) :
    js.utf8ByteSize ≤ 400 + 100 * text.utf8ByteSize := by
  obtain ⟨program, hparse, hwrite⟩ := exists_write_of_compile h
  by_cases hempty : program.stmts = []
  · rw [Program.write_of_isEmpty hempty] at hwrite
    obtain rfl := Except.ok.inj hwrite
    have hcomments : commentsOnly.utf8ByteSize = 16 := rfl
    omega
  · obtain ⟨rfl, -⟩ := Program.text_of_write hempty hwrite
    have hfixed := program.size_text_le
    have hstmts := size_stmtsText_le _ (shapedStmts_bare_of_parse hparse) true
    have hweight := stmtsWeight_of_parse hparse
    rw [stmtsText_bare] at hstmts
    omega

/-- The target of the assignment stands there four times and its value twice, and in the value a
name is the base of each of two accessors. -/
theorem compile_size_le_assignment : ∃ js,
    compile ⟨40, {}⟩ "a = b.c[d.e] + 1" = .ok js ∧ js.utf8ByteSize ≤ 400 + 100 * 16 := by
  cases hcompile : compile ⟨40, {}⟩ "a = b.c[d.e] + 1" with
  | error error =>
    have hok : (compile ⟨40, {}⟩ "a = b.c[d.e] + 1").isOk = true := by decide +kernel
    rw [hcompile] at hok
    cases hok
  | ok js => exact ⟨js, rfl, compile_size_le hcompile⟩

end FormCalc
