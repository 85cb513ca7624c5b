import FormCalc.Compile
import FormCalc.Proofs.Grammar.Shape
import FormCalc.Proofs.Output.Scanned

/-!
# What can be said of every JavaScript

A script that compiles has been parsed, so its tree has the shape of a parsed one and the scan of
its JavaScript comes to an end (`settled_of_compile`).  Two things follow for whoever runs the
JavaScript: it calls the host in no other way than through its members (`compile_calls_members`),
and no part of a script closes a bracket that was opened around it (`compile_bracketed`).
-/

namespace FormCalc

open Host Markup

variable {options : Options} {text js : String}

/-- The statements of a parsed script have their shape, without their spans. -/
theorem shapedStmts_bare_of_parse {maxDepth : Nat} {program : Program}
    (h : Program.parse maxDepth text = .ok program) : ShapedStmts (bareStmts program.stmts) := by
  obtain ⟨tokens, mark, hlexes⟩ := exists_lexes_of_parse h
  obtain ⟨-, d, hd, hvalue⟩ := derives_of_parse hlexes h
  have hwithin : ¬LimitReached maxDepth text := by
    rintro ⟨fault, herror, -⟩
    rw [h] at herror
    cases herror
  rw [hd.limitReached_iff hlexes, Classical.not_not] at hwithin
  have hlexed : AllLexed d.yield := by
    rw [hd.yield]
    exact hlexes.allLexed
  have hstmts : bareStmts program.stmts = d.value := congrArg Program.stmts hvalue
  rw [hstmts]
  exact d.shaped hwithin.1 hlexed

/-- The statements of a parsed script have their shape. -/
theorem shapedStmts_of_parse {maxDepth : Nat} {program : Program}
    (h : Program.parse maxDepth text = .ok program) : ShapedStmts program.stmts :=
  shapedStmts_of_bare program.stmts (shapedStmts_bare_of_parse h)

/-- What compiles was parsed and then written. -/
theorem exists_write_of_compile (h : compile options text = .ok js) : ∃ program,
    Program.parse options.maxParseDepth text = .ok program ∧
      program.write options.output = .ok js := by
  unfold compile at h
  split at h
  · cases h
  · rename_i program hparse
    split at h
    · cases h
    · rename_i written hwrite
      obtain rfl := Except.ok.inj h
      exact ⟨program, hparse, hwrite⟩

/-- The JavaScript of a script is its marked text, and its scan comes to an end. -/
theorem settled_of_compile (h : compile options text = .ok js) : ∃ program,
    Program.parse options.maxParseDepth text = .ok program ∧ js = program.markup.text ∧
      program.markup.Settled := by
  obtain ⟨program, hparse, hwrite⟩ := exists_write_of_compile h
  exact ⟨program, hparse, Program.eq_text_markup hwrite,
    Program.settled_markup (shapedStmts_of_parse hparse)⟩

/-- **JavaScript calls the host through its members only.**  Wherever the name of the host's object
and a point stand in the JavaScript of a script, they lie inside the text of a string literal, or
the longest word behind them is a member of the object and an opening parenthesis follows. -/
theorem compile_calls_members (h : compile options text = .ok js) : ∃ program,
    Program.parse options.maxParseDepth text = .ok program ∧ js = program.markup.text ∧
      ∀ front back, js.toList = front ++ (objectName ++ ".").toList ++ back →
        program.markup.InLiteral front (objectName ++ ".").toList back ∨
          isMember (String.ofList (back.takeWhile isWordChar)) = true ∧
            (back.dropWhile isWordChar).head? = some '(' := by
  obtain ⟨program, hparse, rfl, hsettled⟩ := settled_of_compile h
  refine ⟨program, hparse, rfl, fun front back htext => ?_⟩
  rcases hsettled.calls htext with hliteral | hcalls
  · exact .inl hliteral
  · obtain ⟨hmember, hparen⟩ := Bool.and_eq_true_iff.mp hcalls
    exact .inr ⟨hmember, beq_iff_eq.mp hparen⟩

/-- A variable with the name of the object, a number that starts with a point, and a string that
holds what looks like a member. -/
theorem compile_calls_members_pfm_rt : ∃ js program,
    compile ⟨40, {}⟩ "pfm_rt = \"pfm_rt.none\" & -.5" = .ok js ∧
      Program.parse 40 "pfm_rt = \"pfm_rt.none\" & -.5" = .ok program ∧
      ∀ front back, js.toList = front ++ (objectName ++ ".").toList ++ back →
        program.markup.InLiteral front (objectName ++ ".").toList back ∨
          isMember (String.ofList (back.takeWhile isWordChar)) = true ∧
            (back.dropWhile isWordChar).head? = some '(' := by
  cases hcompile : compile ⟨40, {}⟩ "pfm_rt = \"pfm_rt.none\" & -.5" with
  | error error =>
    have hok : (compile ⟨40, {}⟩ "pfm_rt = \"pfm_rt.none\" & -.5").isOk = true := by
      decide +kernel
    rw [hcompile] at hok
    cases hok
  | ok js =>
    obtain ⟨program, hparse, -, hcalls⟩ := compile_calls_members hcompile
    exact ⟨js, program, rfl, hparse, hcalls⟩

/-- **JavaScript is properly bracketed.**  With the text of string literals deleted, the brackets
of the JavaScript of a script are balanced and properly nested, and so are those of the text of
each single statement and of each single expression in it. -/
theorem compile_bracketed (h : compile options text = .ok js) : ∃ program,
    Program.parse options.maxParseDepth text = .ok program ∧ js = program.markup.text ∧
      Bracketed program.markup.codeText ∧
      ∀ body ∈ program.markup.parts, Bracketed body.codeText := by
  obtain ⟨program, hparse, hjs, hsettled⟩ := settled_of_compile h
  exact ⟨program, hparse, hjs, hsettled.foldlM_nest, hsettled.bracketed_parts⟩

/-- Closing brackets inside a string, in a method call in the block of a loop. -/
theorem compile_bracketed_loop : ∃ js program,
    compile ⟨40, {}⟩ "while (a) do b.c(\")]\") endwhile" = .ok js ∧
      Program.parse 40 "while (a) do b.c(\")]\") endwhile" = .ok program ∧
      js = program.markup.text ∧ Bracketed program.markup.codeText ∧
      ∀ body ∈ program.markup.parts, Bracketed body.codeText := by
  cases hcompile : compile ⟨40, {}⟩ "while (a) do b.c(\")]\") endwhile" with
  | error error =>
    have hok : (compile ⟨40, {}⟩ "while (a) do b.c(\")]\") endwhile").isOk = true := by
      decide +kernel
    rw [hcompile] at hok
    cases hok
  | ok js =>
    obtain ⟨program, hparse, hjs, hbracketed, hparts⟩ := compile_bracketed hcompile
    exact ⟨js, program, rfl, hparse, hjs, hbracketed, hparts⟩

end FormCalc
