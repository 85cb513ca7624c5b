import FormCalc.Proofs.Compile.Scanned
import FormCalc.Proofs.Output.Scopes

/-!
# Which references are captured

Statements are written with no functions but those of the script, so the functions around a
reference are those in the text of the expression that stands in its statement.

* `Expr.WrittenIn`: an expression that is written in a text.
* `Program.writtenIn_of_exprs`: every expression that stands in a statement is.
* `compile_captures_iff`: the references that mean something else where they are written.
-/

namespace FormCalc

open Host Markup

/-! ### Expressions in statements -/

/-- Whether an expression can be written and is, as a part of some text. -/
structure Expr.WrittenIn (e : Expr) (m : Markup) : Prop where
  shaped : e.Shaped
  resolved : e.Resolved
  inside : Markup.Inside e.markup m

namespace Expr.WrittenIn

variable {e : Expr} {front back body m : Markup}

theorem first (h : e.WrittenIn front) : e.WrittenIn (front ++ back) :=
  ⟨h.shaped, h.resolved, h.inside.first⟩

theorem second (h : e.WrittenIn back) : e.WrittenIn (front ++ back) :=
  ⟨h.shaped, h.resolved, h.inside.second⟩

theorem part (h : e.WrittenIn body) : e.WrittenIn (.part body) :=
  ⟨h.shaped, h.resolved, h.inside.part⟩

theorem self (h : e.Shaped) (hcalls : e.Resolved) : e.WrittenIn e.markup := ⟨h, hcalls, .refl⟩

theorem call (h : e.WrittenIn m) (helper : Helper) : e.WrittenIn (helper.callMarkup m) :=
  h.second.first

theorem commaSeparated {arg : Markup} (h : e.WrittenIn arg) (args : List Markup)
    (harg : arg ∈ args) : e.WrittenIn (Markup.commaSeparated args) := by
  induction args with
  | nil => exact nomatch harg
  | cons first rest ih =>
    cases rest with
    | nil =>
      rw [List.mem_singleton.mp harg] at h
      exact h
    | cons second rest =>
      rcases List.mem_cons.mp harg with rfl | harg
      · exact h.first.first
      · exact (ih harg).second

end Expr.WrittenIn

open Expr.WrittenIn

/-- Each of some arguments is written where all of them are. -/
theorem writtenIn_arguments : (args : List Expr) → ShapedArguments args →
    ResolvedArguments true args → ∀ e ∈ args, ∃ arg ∈ argumentMarkups args, e.WrittenIn arg
  | [], _, _ => nofun
  | arg :: rest, h, hcalls => by
    refine List.forall_mem_cons.mpr ⟨⟨_, List.mem_cons_self, .self h.1 hcalls.1⟩, fun e he => ?_⟩
    obtain ⟨m, hm, hwritten⟩ := writtenIn_arguments rest h.2 (hcalls.2 rfl) e he
    exact ⟨m, List.mem_cons_of_mem _ hm, hwritten⟩

theorem writtenIn_optional {part : Option Expr} (h : ShapedOptional part)
    (hcalls : ∀ value ∈ part, value.Resolved) :
    ∀ e ∈ part.toList, ∃ m, part.map Expr.markup = some m ∧ e.WrittenIn m := by
  cases part with
  | none => exact nofun
  | some value =>
    intro e he
    rw [List.mem_singleton.mp he]
    exact ⟨_, rfl, .self h (hcalls value rfl)⟩

theorem writtenIn_step {step : Option Expr} (h : ShapedOptional step)
    (hcalls : ∀ value ∈ step, value.Resolved) :
    ∀ e ∈ step.toList, e.WrittenIn ((step.map Expr.valueMarkup).getD (code "1")) := by
  cases step with
  | none => exact nofun
  | some value =>
    intro e he
    rw [List.mem_singleton.mp he]
    exact (self h (hcalls value rfl)).call .getVal

theorem writtenIn_count {e : Expr} {var : String} {start stop step body : Markup}
    {direction : Direction}
    (h : e.WrittenIn start ∨ e.WrittenIn stop ∨ e.WrittenIn step ∨ e.WrittenIn body) :
    e.WrittenIn (countMarkup var start stop direction step body) := by
  rcases h with h | h | h | h
  · exact h.second.first.first.first.first.first.first.first.first.first.first.first
  · exact h.second.first.first.first.first.first.first.first
  · exact h.second.first.first.first
  · exact h.second.first

theorem Expr.writtenIn_sides (keep : Bool) (e : Expr) (h : e.ShapedStatement)
    (hcalls : e.Resolved) : ∀ side ∈ e.sides, side.WrittenIn (e.statementMarkup keep) := by
  -- an expression that is no assignment is written whole, as a value or as it stands
  have hwhole : e.Shaped → e.WrittenIn (keptMarkup keep ++
      (if keep && e.isAccessor then e.valueMarkup else e.markup) ++ code ";\n") := by
    intro h
    refine .first (.second ?_)
    split
    · exact (self h hcalls).call _
    · exact self h hcalls
  cases e with
  | assign target value span =>
    refine List.forall_mem_cons.mpr ⟨?_, List.forall_mem_singleton.mpr ?_⟩
    · have htarget := (self h.1 hcalls.1).call .isObj
      exact htarget.second.first.first.first.first.first.part
    · have hvalue := (self h.2 hcalls.2).commaSeparated [target.markup, value.markup]
        (by simp)
      exact (hvalue.call .asgnValOp).second.first.first.part
  | null | number | string | identifier | unary | binary | call | dot | element | descendant
  | method => exact List.forall_mem_singleton.mpr (hwhole h)

mutual

/-- Every expression that stands in a statement is written in its text. -/
theorem Stmt.writtenIn_of_exprs : (stmt : Stmt) → (keep : Bool) → stmt.Shaped → stmt.Resolved →
    ∀ e ∈ stmt.exprs, e.WrittenIn (stmt.markup keep)
  | .function name params body _, _, h, hcalls => fun e he =>
    (writtenIn_of_stmtsExprs body true h.2.2.1 hcalls e he).second.first.part
  | .var name init _, keep, h, hcalls => by
    intro e he
    obtain ⟨m, hm, hwritten⟩ := writtenIn_optional h.2 hcalls e he
    rw [Stmt.markup, hm]
    exact hwritten.first.first.first.first.first.second.first.part
  | .expr expr _, keep, h, hcalls => fun e he => (expr.writtenIn_sides keep h hcalls e he).part
  | .scope body _, keep, h, hcalls => fun e he => (body.writtenIn_of_exprs keep h hcalls e he).part
  | .branch cond body otherwise _, keep, h, hcalls => by
    obtain ⟨hcond, hbody, hrest⟩ := h
    obtain ⟨hcondCalls, hbodyCalls, hrestCalls⟩ := hcalls
    refine List.forall_mem_append.mpr
      ⟨List.forall_mem_cons.mpr ⟨?_, fun e he => ?_⟩, fun e he => ?_⟩
    · exact ((self hcond hcondCalls).call .getVal).second.first.second.first.first.part
    · exact (body.writtenIn_of_exprs keep hbody hbodyCalls e he).second.first.part
    · exact (otherwise.writtenIn_of_exprs keep hrest hrestCalls e he).second.part
  | .loop cond body _, keep, h, hcalls => by
    refine List.forall_mem_cons.mpr ⟨?_, fun e he => ?_⟩
    · exact (self h.1 hcalls.1).second.first.first.part
    · exact (body.writtenIn_of_exprs keep h.2 hcalls.2 e he).second.part
  | .count var start stop direction step body _, keep, h, hcalls => by
    obtain ⟨-, hstart, hstop, hstep, hbody⟩ := h
    obtain ⟨hstartCalls, hstopCalls, hstepCalls, hbodyCalls⟩ := hcalls
    refine List.forall_mem_append.mpr ⟨List.forall_mem_cons.mpr
      ⟨?_, List.forall_mem_cons.mpr ⟨?_, fun e he => ?_⟩⟩, fun e he => ?_⟩
    · exact (writtenIn_count (.inl ((self hstart hstartCalls).call .getVal))).second.part
    · exact (writtenIn_count (.inr (.inl ((self hstop hstopCalls).call .getVal)))).second.part
    · have hwritten := writtenIn_step hstep hstepCalls e he
      exact (writtenIn_count (.inr (.inr (.inl hwritten)))).second.part
    · have hbody := body.writtenIn_of_exprs keep hbody hbodyCalls e he
      exact (writtenIn_count (.inr (.inr (.inr hbody)))).second.part
  | .each var collections body _, keep, h, hcalls => by
    obtain ⟨-, -, hcollections, -, hbody⟩ := h
    refine List.forall_mem_append.mpr ⟨fun e he => ?_, fun e he => ?_⟩
    · obtain ⟨m, hm, hwritten⟩ := writtenIn_arguments collections hcollections hcalls.1 e he
      have hcall := (hwritten.commaSeparated _ hm).call .concatObj
      exact hcall.second.first.first.first.first.first.second.part
    · exact (body.writtenIn_of_exprs keep hbody hcalls.2 e he).second.first.second.part
  | .leave _, _, _, _ | .skip _, _, _, _ => nofun

theorem Block.writtenIn_of_exprs : (body : Block) → (keep : Bool) → body.Shaped →
    body.Resolved → ∀ e ∈ body.exprs, e.WrittenIn (body.markup keep)
  | .mk stmts _, keep, h, hcalls => fun e he =>
    (writtenIn_of_stmtsExprs stmts keep h.1 hcalls e he).second.first

theorem Otherwise.writtenIn_of_exprs : (rest : Otherwise) → (keep : Bool) → rest.Shaped →
    rest.Resolved → ∀ e ∈ rest.exprs, e.WrittenIn (rest.markup keep)
  | .nothing, _, _, _ => nofun
  | .last body, keep, h, hcalls => fun e he => (body.writtenIn_of_exprs keep h hcalls e he).second
  | .elseIf cond body rest, keep, h, hcalls => by
    obtain ⟨hcond, hbody, hrest⟩ := h
    obtain ⟨hcondCalls, hbodyCalls, hrestCalls⟩ := hcalls
    refine List.forall_mem_append.mpr
      ⟨List.forall_mem_cons.mpr ⟨?_, fun e he => ?_⟩, fun e he => ?_⟩
    · exact ((self hcond hcondCalls).call .getVal).second.first.first.first
    · exact (body.writtenIn_of_exprs keep hbody hbodyCalls e he).second.first
    · exact (rest.writtenIn_of_exprs keep hrest hrestCalls e he).second

theorem writtenIn_of_stmtsExprs : (stmts : List Stmt) → (keep : Bool) → ShapedStmts stmts →
    ResolvedStmts stmts → ∀ e ∈ stmtsExprs stmts, e.WrittenIn (stmtsMarkup keep stmts)
  | [], _, _, _ => nofun
  | stmt :: rest, keep, h, hcalls => List.forall_mem_append.mpr
    ⟨fun e he => (stmt.writtenIn_of_exprs _ h.1 hcalls.1 e he).first,
      fun e he => (writtenIn_of_stmtsExprs rest keep h.2 hcalls.2 e he).second⟩

end

theorem Program.writtenIn_of_exprs {program : Program} (h : ShapedStmts program.stmts)
    (hcalls : program.Resolved) : ∀ e ∈ program.exprs, e.WrittenIn program.markup := by
  intro e he
  have hempty : ¬program.isEmpty = true := by
    intro hempty
    rw [Program.exprs, List.isEmpty_iff.mp hempty] at he
    cases he
  rw [Program.markup, if_neg hempty]
  exact (writtenIn_of_stmtsExprs program.stmts true h hcalls e he).second.first

/-! ### Captured references -/

variable {options : Options} {text js : String} {program : Program}

/-- **Exactly the arguments of method calls lose `obj` and `this`.**  Every expression that stands
in a statement is written as it is, and the only functions in it are the marked ones.  In each place
where it is written, its references have one place each, in their order.  A function around that
place gives the reference another meaning exactly if the reference stands in an argument of a method
call and is written as `obj` or as `this`. -/
theorem compile_captures_iff (hparse : Program.parse options.maxParseDepth text = .ok program)
    (hjs : compile options text = .ok js) :
    ∀ e ∈ program.exprs,
      (∃ front back, js = front ++ e.text ++ back) ∧
      e.scoped.text = e.text ∧ e.scoped.Plain ∧
      ∀ front back, js = front ++ e.text ++ back →
        (∀ place ∈ e.scoped.places front [] back,
          js = place.before ++ referencedName place.name ++ place.after ∧
          ∀ w ∈ place.wrappers, w.Around place.before place.after) ∧
        List.Forall₂ (fun place r => place.name = r.name ∧ place.span = r.span ∧
            ((∃ w ∈ place.wrappers, w.Captures (referencedName r.name)) ↔
              r.inMethod = true ∧ referencedName r.name ∈ capturedNames))
          (e.scoped.places front [] back) (e.references false) := by
  intro e he
  obtain ⟨program', hparse', hwrite⟩ := exists_write_of_compile hjs
  obtain rfl : program = program' := Except.ok.inj (hparse.symm.trans hparse')
  have hstmts : program.stmts ≠ [] := by
    intro hnil
    rw [Program.exprs, hnil] at he
    cases he
  have hwritten := Program.writtenIn_of_exprs (shapedStmts_of_parse hparse)
    (Program.text_of_write hstmts hwrite).2 e he
  refine ⟨?_, e.text_scoped, e.plain_scoped, fun front back hsplit => ⟨fun place hplace => ?_, ?_⟩⟩
  · obtain ⟨front, back, htext⟩ :=
      hwritten.inside.exists_append (f := Markup.text) (fun _ _ => rfl) fun _ => rfl
    refine ⟨front, back, ?_⟩
    rw [Program.eq_text_markup hwrite, htext, e.text_markup]
  · refine ⟨?_, Scoped.around_of_mem_places hplace nofun⟩
    rw [← Scoped.eq_of_mem_places hplace, e.text_scoped, hsplit]
  · have hplaces := e.places_scoped hwritten.shaped hwritten.resolved CapturesIn.nil front back
    exact hplaces.imp fun place r h => ⟨h.name, h.span, h.captured⟩

/-- A method call on `obj` whose arguments refer to `obj` and `$` again, one of them inside a test
for existence, and both once more outside. -/
def capturedArguments : String := "obj.m(Exists(x.n($)), y[obj]) + obj + $"

/-- The references inside the call are captured, the receiver and those outside are not. -/
theorem compile_captures_iff_arguments : ∃ program js,
    Program.parse 60 capturedArguments = .ok program ∧
    compile ⟨60, {}⟩ capturedArguments = .ok js ∧
    ∃ e ∈ program.exprs, ∃ front back, js = front ++ e.text ++ back ∧
      (e.scoped.places front [] back).map (fun place => (place.name,
          decide (∃ w ∈ place.wrappers, w.Captures (referencedName place.name)))) =
        [("obj", false), ("x", false), ("$", true), ("obj", true), ("obj", false),
          ("$", false)] := by
  -- the tree is computed once for all that is said about it
  have htree : ((Program.parse 60 capturedArguments).toOption.map fun program =>
      program.exprs.map fun e => (e.references false).map fun r =>
        (r.name, r.inMethod && decide (referencedName r.name ∈ capturedNames))) =
      some [[("obj", false), ("x", false), ("$", true), ("obj", true), ("obj", false),
        ("$", false)]] := by
    decide +kernel
  cases hparse : Program.parse 60 capturedArguments with
  | error fault =>
    rw [hparse] at htree
    cases htree
  | ok program =>
    cases hjs : compile ⟨60, {}⟩ capturedArguments with
    | error error =>
      have hok : (compile ⟨60, {}⟩ capturedArguments).isOk = true := by decide +kernel
      rw [hjs] at hok
      cases hok
    | ok js =>
      rw [hparse] at htree
      obtain ⟨e, hexprs, hreferences⟩ := List.map_eq_singleton_iff.mp (Option.some.inj htree)
      have he : e ∈ program.exprs := by
        rw [hexprs]
        exact List.mem_singleton_self e
      obtain ⟨⟨front, back, hsplit⟩, -, -, hplaces⟩ :=
        @compile_captures_iff ⟨60, {}⟩ capturedArguments js program hparse hjs e he
      refine ⟨program, js, rfl, rfl, e, he, front, back, hsplit, ?_⟩
      rw [← hreferences, ← List.forall₂_eq_eq_eq, List.forall₂_map_left_iff,
        List.forall₂_map_right_iff]
      refine (hplaces front back hsplit).2.imp ?_
      rintro place r ⟨hname, -, hcaptured⟩
      rw [hname]
      refine Prod.ext rfl ?_
      rw [Bool.eq_iff_iff, decide_eq_true_iff, hcaptured]
      simp

end FormCalc
