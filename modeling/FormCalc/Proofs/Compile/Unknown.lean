import FormCalc.Proofs.Compile.Fault
import FormCalc.Proofs.Compile.Invariance
import FormCalc.Proofs.Compile.Scanned
import FormCalc.Proofs.Output.Unknown

/-!
# Unknown functions

Calls are written one after the other, and the first one of something that is no built-in function
ends a compilation.  Which one that is can be read off the tree: the callees are in the order of
their places there, and a callee names a function or it does not (`compile_unknown_iff`).
-/

namespace FormCalc

/-- Whether a compilation ends with a broken limit. -/
def BreaksLimit (options : Options) (text : String) : Prop :=
  ∃ error, compile options text = .error error ∧ error.cause ∈ options.causes

section Parsed

variable {maxParseDepth : Nat} {text : String} {program : Program} {limits : OutputLimits}

/-- What parses fails to compile for a fault in writing alone. -/
theorem compile_eq_error_iff (hparse : Program.parse maxParseDepth text = .ok program)
    (error : Error) : compile ⟨maxParseDepth, limits⟩ text = .error error ↔
      ∃ fault, program.write limits = .error fault ∧ fault.map .output = error := by
  rw [compile, hparse]
  dsimp only
  cases program.write limits with
  | error fault =>
    constructor
    · intro herror
      exact ⟨fault, rfl, Except.error.inj herror⟩
    · rintro ⟨_, hfault, rfl⟩
      obtain rfl := Except.error.inj hfault
      rfl
  | ok js =>
    constructor
    · intro herror
      cases herror
    · rintro ⟨_, hfault, -⟩
      cases hfault

theorem cause_mem_causes {fault : Fault OutputCause} :
    (fault.map Cause.output).cause ∈ Options.causes ⟨maxParseDepth, limits⟩ ↔
      fault.cause ∈ limits.causes := by
  simp [Options.causes, OutputLimits.causes]

/-- Where no limit is broken, compiling what parses fails for the first unknown callee. -/
theorem compile_error_iff_firstUnknown (hparse : Program.parse maxParseDepth text = .ok program)
    (hlimits : ¬BreaksLimit ⟨maxParseDepth, limits⟩ text) (error : Error) :
    compile ⟨maxParseDepth, limits⟩ text = .error error ↔
      ∃ fault, firstUnknown program.callees = some fault ∧ fault.map .output = error := by
  have hwrite : ∀ fault, program.write limits = .error fault → fault.cause ∉ limits.causes :=
    fun fault hfault hcause => hlimits ⟨_, (compile_eq_error_iff hparse _).mpr ⟨fault, hfault, rfl⟩,
      cause_mem_causes.mpr hcause⟩
  simp only [compile_eq_error_iff hparse, Program.write_eq_error_iff (shapedStmts_of_parse hparse)
    hwrite]

/-- **Unknown functions are reported exactly.**  The callees of a script that parses stand in
it, each behind or around those in front of it.  Under all limits that are loose enough, no limit is
broken.  Where none is, the compilation fails for an unknown function if and only if some callee
names no built-in function, and then the error is about the first one. -/
theorem compile_unknown_iff (hparse : Program.parse maxParseDepth text = .ok program) :
    InSourceOrder program.span.start program.span.stop program.callees ∧
    (∃ room, ∀ limits : OutputLimits, room ≤ limits.maxDepth → room ≤ limits.maxLength →
      ¬BreaksLimit ⟨maxParseDepth, limits⟩ text) ∧
    ∀ limits, ¬BreaksLimit ⟨maxParseDepth, limits⟩ text →
      ((∃ name span, compile ⟨maxParseDepth, limits⟩ text =
          .error ⟨.output (.unknownFunction name), span⟩) ↔
        ∃ callee ∈ program.callees, callee.function? = none) ∧
      ∀ name span, compile ⟨maxParseDepth, limits⟩ text =
          .error ⟨.output (.unknownFunction name), span⟩ →
        ∃ front callee back, program.callees = front ++ callee :: back ∧
          (∀ known ∈ front, known.function? ≠ none) ∧ callee.function? = none ∧
          name = callee.text ∧ span = callee.span := by
  obtain ⟨tokens, hplaced⟩ := exists_placed hparse
  refine ⟨Program.inSourceOrder_callees hplaced, ?_, fun limits hlimits => ⟨⟨?_, ?_⟩, ?_⟩⟩
  · obtain ⟨room, hroom⟩ := Program.exists_room_write (shapedStmts_of_parse hparse)
    refine ⟨room, fun limits hdepth hlength => ?_⟩
    rintro ⟨error, herror, hcause⟩
    obtain ⟨fault, hfault, rfl⟩ := (compile_eq_error_iff hparse error).mp herror
    obtain ⟨front, callee, back, -, -, -, rfl⟩ :=
      firstUnknown_eq_some_iff.mp ((hroom limits hdepth hlength fault).mp hfault)
    rw [cause_mem_causes] at hcause
    simp [OutputLimits.causes] at hcause
  · rintro ⟨name, span, herror⟩
    obtain ⟨fault, hfault, -⟩ := (compile_error_iff_firstUnknown hparse hlimits _).mp herror
    obtain ⟨front, callee, back, hsplit, -, hunknown, -⟩ := firstUnknown_eq_some_iff.mp hfault
    exact ⟨callee, by rw [hsplit]; simp, hunknown⟩
  · rintro ⟨callee, hcallee, hunknown⟩
    cases hfirst : firstUnknown program.callees with
    | none => exact absurd hunknown (firstUnknown_eq_none_iff.mp hfirst callee hcallee)
    | some fault =>
      obtain ⟨front, first, back, -, -, -, rfl⟩ := firstUnknown_eq_some_iff.mp hfirst
      exact ⟨_, _, (compile_error_iff_firstUnknown hparse hlimits _).mpr ⟨_, hfirst, rfl⟩⟩
  · intro name span herror
    obtain ⟨fault, hfault, hsame⟩ := (compile_error_iff_firstUnknown hparse hlimits _).mp herror
    obtain ⟨front, callee, back, hsplit, hknown, hunknown, rfl⟩ :=
      firstUnknown_eq_some_iff.mp hfault
    obtain ⟨hcause, rfl⟩ := Fault.mk.inj hsame
    obtain rfl := OutputCause.unknownFunction.inj (Cause.output.inj hcause)
    exact ⟨front, callee, back, hsplit, hknown, hunknown, rfl, rfl⟩

end Parsed

/-- The second argument of a test for existence is not looked at, and of two unknown functions the
one around the other is the first. -/
theorem compile_unknown_iff_nested : ∃ program,
    Program.parse 40 "Exists(a, foo()) & SUM(bar(qux()))" = .ok program ∧
      compile ⟨40, {}⟩ "Exists(a, foo()) & SUM(bar(qux()))" =
        .error ⟨.output (.unknownFunction "bar"), ⟨23, 26⟩⟩ ∧
      ∃ front callee back, program.callees = front ++ callee :: back ∧
        (∀ known ∈ front, known.function? ≠ none) ∧ callee.function? = none ∧
        "bar" = callee.text ∧ ⟨23, 26⟩ = callee.span := by
  have hcompile : compile ⟨40, {}⟩ "Exists(a, foo()) & SUM(bar(qux()))" =
      .error ⟨.output (.unknownFunction "bar"), ⟨23, 26⟩⟩ := by
    decide +kernel
  have hlimits : ¬BreaksLimit ⟨40, {}⟩ "Exists(a, foo()) & SUM(bar(qux()))" := by
    rintro ⟨error, herror, hcause⟩
    obtain rfl := Except.error.inj (hcompile.symm.trans herror)
    simp [Options.causes] at hcause
  cases hparse : Program.parse 40 "Exists(a, foo()) & SUM(bar(qux()))" with
  | error fault =>
    have hok : (Program.parse 40 "Exists(a, foo()) & SUM(bar(qux()))").isOk = true := by
      decide +kernel
    rw [hparse] at hok
    cases hok
  | ok program =>
    obtain ⟨-, -, hunknown⟩ := compile_unknown_iff hparse
    exact ⟨program, rfl, hcompile, (hunknown {} hlimits).2 _ _ hcompile⟩

end FormCalc
