import FormCalc.Proofs.Compile.Scanned
import FormCalc.Proofs.Output.Loops

/-!
# Whose loops share their variables

A loop over collections keeps its array and its place in the array in two variables, and these are
the same for all loops.  Variables of JavaScript belong to a function, so the loops of one function
share them: a loop inside the body of another one declares both of them anew and loses the place of
the other.  Nothing else does (`compile_loops_shared_iff`).
-/

namespace FormCalc

open Markup

variable {options : Options} {text js : String} {program : Program}

/-- **A loop has its variables for itself exactly if no other loop runs inside it.**  In a script
that uses no reserved name, every loop over collections is written around its body.  Functions in
the body left out, this declares or assigns a variable that a loop keeps its state in exactly if
there is a loop over collections in it. -/
theorem compile_loops_shared_iff (hparse : Program.parse options.maxParseDepth text = .ok program)
    (hjs : compile options text = .ok js) (hnames : ∀ name ∈ program.names, ¬IsReserved name) :
    ∀ loop ∈ program.loops,
      (∃ var collections front back,
        js = front ++ eachText var (argumentTexts collections) (loop.2.text loop.1) ++ back) ∧
      ((∃ name ∈ hiddenNames, Writes (codeTokens (loop.2.outer.markup loop.1).codeText) name) ↔
        loop.2.outer.loops loop.1 ≠ []) := by
  intro loop hloop
  have hshaped := shapedStmts_of_parse hparse
  obtain ⟨hbody, hsubset⟩ := body_of_stmtsLoops program.stmts true hshaped loop hloop
  refine ⟨?_, Block.writes_outer_iff loop.1 hbody fun name hname => hnames name (hsubset hname)⟩
  obtain ⟨program', hparse', hwrite⟩ := exists_write_of_compile hjs
  obtain rfl : program = program' := Except.ok.inj (hparse.symm.trans hparse')
  obtain ⟨var, collections, hinside⟩ := program.inside_of_loops loop hloop
  obtain ⟨front, back, htext⟩ :=
    hinside.exists_append (f := Markup.text) (fun _ _ => rfl) fun _ => rfl
  refine ⟨var, collections, front, back, ?_⟩
  rw [Program.eq_text_markup hwrite, htext, text_eachMarkup, loop.2.text_markup]

/-- Three loops inside each other, the innermost in a function. -/
def nestedLoops : String :=
  "foreach a in (b) do foreach c in (d) do func e() do foreach f in (g) do f endfor endfunc " ++
    "endfor endfor"

/-- The first loop shares its variables with the second.  The second shares them with no other,
because the third stands in a function. -/
theorem compile_loops_shared_iff_nested : ∃ program js,
    Program.parse 60 nestedLoops = .ok program ∧ compile ⟨60, {}⟩ nestedLoops = .ok js ∧
      (∀ name ∈ program.names, ¬IsReserved name) ∧
      program.loops.map (fun loop => decide (∃ name ∈ hiddenNames,
        Writes (codeTokens (loop.2.outer.markup loop.1).codeText) name)) =
          [true, false, false] := by
  -- the tree is computed once for all that is said about it
  have htree : ((Program.parse 60 nestedLoops).toOption.map fun program =>
      (program.names.all fun name => !decide (IsReserved name),
        program.loops.map fun loop => !(loop.2.outer.loops loop.1).isEmpty)) =
          some (true, [true, false, false]) := by
    decide +kernel
  cases hparse : Program.parse 60 nestedLoops with
  | error fault =>
    rw [hparse] at htree
    cases htree
  | ok program =>
    cases hjs : compile ⟨60, {}⟩ nestedLoops with
    | error error =>
      have hok : (compile ⟨60, {}⟩ nestedLoops).isOk = true := by decide +kernel
      rw [hjs] at hok
      cases hok
    | ok js =>
      rw [hparse] at htree
      obtain ⟨hreserved, hloops⟩ := Prod.mk.inj (Option.some.inj htree)
      have hnames : ∀ name ∈ program.names, ¬IsReserved name := by simpa using hreserved
      refine ⟨program, js, rfl, rfl, hnames, ?_⟩
      rw [← hloops]
      refine List.map_congr_left fun loop hloop => ?_
      have hshared := @compile_loops_shared_iff ⟨60, {}⟩ nestedLoops js program hparse hjs hnames
      rw [Bool.eq_iff_iff, decide_eq_true_iff, (hshared loop hloop).2]
      simp

end FormCalc
