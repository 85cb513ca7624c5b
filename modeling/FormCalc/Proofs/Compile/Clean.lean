import FormCalc.Proofs.Compile.Scanned
import FormCalc.Proofs.Output.Clean

/-!
# Which characters get through

A script that compiles was read up to its end, and the lexer goes over no character that a script
may not hold.  So there is none in the script, comments and strings included, and what is written
is made of names, numbers and strings of the script (`compile_allowed`).
-/

namespace FormCalc

open Text

variable {options : Options} {text js : String}

/-- What parses was read up to its end, so all of it was checked. -/
theorem allowed_of_parse {maxDepth : Nat} {program : Program}
    (h : Program.parse maxDepth text = .ok program) : Allowed text.toList := by
  obtain ⟨tokens, mark, hlexes⟩ := exists_lexes_of_parse h
  obtain ⟨hstop, -⟩ := derives_of_parse hlexes h
  have hmark : .ok mark ∈ (Lexer.ofText text).pulls := by
    rw [hlexes.pulls]
    exact List.mem_append_right _ (List.mem_singleton_self _)
  exact Lexer.allowed_of_mem_pulls hmark hstop

/-- **Only characters of scripts get through.**  Every character of a script that compiles may
stand in a script, wherever it stands, and so may every character of its JavaScript, which has no
carriage return. -/
theorem compile_allowed (h : compile options text = .ok js) :
    (∀ c ∈ text.toList, isAllowed c = true) ∧ ∀ c ∈ js.toList, isAllowed c = true ∧ c ≠ '\r' := by
  obtain ⟨program, hparse, hwrite⟩ := exists_write_of_compile h
  have hclean := Program.clean_of_write (shapedStmts_of_parse hparse) hwrite
  exact ⟨allowed_of_parse hparse, clean_iff.mp hclean⟩

/-- Carriage returns in the layout, in a comment's line and inside a string, and characters of two
and three bytes. -/
theorem compile_allowed_return : ∃ js,
    compile ⟨40, {}⟩ "!é = \"\r\n\"\"€\"\r; ü\r" = .ok js ∧
      (∀ c ∈ "!é = \"\r\n\"\"€\"\r; ü\r".toList, isAllowed c = true) ∧
      ∀ c ∈ js.toList, isAllowed c = true ∧ c ≠ '\r' := by
  cases hcompile : compile ⟨40, {}⟩ "!é = \"\r\n\"\"€\"\r; ü\r" with
  | error error =>
    have hok : (compile ⟨40, {}⟩ "!é = \"\r\n\"\"€\"\r; ü\r").isOk = true := by
      decide +kernel
    rw [hcompile] at hok
    cases hok
  | ok js => exact ⟨js, rfl, compile_allowed hcompile⟩

end FormCalc
