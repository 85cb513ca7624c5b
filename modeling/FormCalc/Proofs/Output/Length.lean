import FormCalc.Proofs.Output.Nesting

/-!
# How long a script becomes

The length of the text is checked at many places of a draft, and inside a part that is written
aside it is the length of that part alone.  None of this shows: no part that is written aside is
longer than what is made of it, and the last thing a script asks for is a check of the whole text.

* `Draft.peak_le_of_write`: a writer that came to an end stayed within the limit on the depth.
* `Draft.endsOrTooLong_write`: a writer that stays within that limit can be refused only for the
  length of its text.

So the length of the whole text decides (`write_iff_length`).
-/

namespace FormCalc

namespace Draft

variable {limits : OutputLimits} {d : Draft} {writer writer' : Writer}

/-- A writer that comes to an end has been nowhere below the limit on the depth. -/
theorem peak_le_of_write (hdepth : writer.depth ≤ limits.maxDepth)
    (h : d.write limits writer = .ok writer') : d.peak writer.depth ≤ limits.maxDepth := by
  induction d generalizing writer writer' with
  | empty | text | ascend | measure => exact hdepth
  | unknown => cases h
  | descend span =>
    obtain ⟨⟨⟩, hcheck, -⟩ := ok_of_bind h
    unfold Writer.checkDepth at hcheck
    split at hcheck
    · cases hcheck
    · rename_i hwithin
      exact Nat.le_of_not_lt hwithin
  | append first second ihfirst ihsecond =>
    obtain ⟨middle, hfirst, hsecond⟩ := ok_of_bind h
    have hpeak := ihfirst hdepth hfirst
    obtain ⟨-, rfl⟩ := write_eq hfirst
    have hmiddle := Nat.le_trans (first.level_le_peak _) hpeak
    exact Nat.max_le.mpr ⟨hpeak, ihsecond hmiddle hsecond⟩
  | scratch body use ihbody ihuse =>
    obtain ⟨sheet, hbody, huse⟩ := ok_of_bind h
    have hpeak := @ihbody { writer with written := "" } sheet hdepth hbody
    obtain ⟨-, rfl⟩ := write_eq hbody
    rw [written_follow_sheet] at huse
    have hsheet := Nat.le_trans (body.level_le_peak _) hpeak
    have hrest := @ihuse body.plain ⟨writer.written, body.level writer.depth⟩ writer' hsheet huse
    exact Nat.max_le.mpr ⟨hpeak, hrest⟩

/-- Whether writing ends with the text, or with a fault for its length. -/
def EndsOrTooLong (limits : OutputLimits) (writer : Writer)
    (result : Except (Fault OutputCause) Writer) : Prop :=
  result = .ok writer ∨ ∃ span, result = .error ⟨.tooLarge limits.maxLength, span⟩

theorem EndsOrTooLong.bind {middle : Writer} {first : Except (Fault OutputCause) Writer}
    {second : Writer → Except (Fault OutputCause) Writer}
    (hfirst : EndsOrTooLong limits middle first)
    (hsecond : EndsOrTooLong limits writer (second middle)) :
    EndsOrTooLong limits writer (first >>= second) := by
  rcases hfirst with rfl | ⟨span, rfl⟩
  · exact hsecond
  · exact .inr ⟨span, rfl⟩

/-- A check of the length in front of what can be refused only for its length. -/
theorem endsOrTooLong_checkLength (span : Span)
    {result : Except (Fault OutputCause) Writer} (h : EndsOrTooLong limits writer result) :
    EndsOrTooLong limits writer (writer'.checkLength limits span >>= fun _ => result) := by
  unfold Writer.checkLength
  split
  · exact .inr ⟨span, rfl⟩
  · exact h

/-- **Within the limit on the depth only the length can be refused.** -/
theorem endsOrTooLong_write (hwritable : d.Writable)
    (hpeak : d.peak writer.depth ≤ limits.maxDepth) :
    EndsOrTooLong limits (d.follow writer) (d.write limits writer) := by
  induction d generalizing writer with
  | empty => exact .inl (congrArg Except.ok (follow_empty writer).symm)
  | text s => exact .inl rfl
  | ascend => exact .inl (congrArg Except.ok (follow_ascend writer).symm)
  | unknown => exact hwritable.elim
  | descend span =>
    rw [write, follow_descend, checkDepth_ok span hpeak]
    exact endsOrTooLong_checkLength span (.inl rfl)
  | measure span =>
    rw [write, follow_measure]
    exact endsOrTooLong_checkLength span (.inl rfl)
  | append first second ihfirst ihsecond =>
    obtain ⟨hfirst, hsecond⟩ := Nat.max_le.mp hpeak
    rw [follow_append]
    exact (ihfirst hwritable.1 hfirst).bind
      (@ihsecond (first.follow writer) hwritable.2 hsecond)
  | scratch body use ihbody ihuse =>
    obtain ⟨hbody, huse⟩ := Nat.max_le.mp hpeak
    refine (@ihbody { writer with written := "" } hwritable.1 hbody).bind ?_
    rw [written_follow_sheet]
    exact @ihuse body.plain ⟨writer.written, body.level writer.depth⟩ hwritable.2 huse

end Draft

open Draft

/-! ### Scripts -/

/-- The last check is one of the whole text. -/
theorem Program.length_lt_of_write {program : Program} {limits : OutputLimits} {writer : Writer}
    (h : program.draft.write limits {} = .ok writer) :
    program.text.utf8ByteSize < limits.maxLength := by
  have hwhole : writer.written = program.text := by
    obtain ⟨-, rfl⟩ := write_eq h
    rw [← program.plain_draft]
    exact String.empty_append
  obtain ⟨last, -, hlast⟩ := ok_of_bind h
  obtain ⟨⟨⟩, hcheck, hwriter⟩ := ok_of_bind hlast
  obtain rfl := Except.ok.inj hwriter
  unfold Writer.checkLength at hcheck
  split at hcheck
  · cases hcheck
  · rename_i hshort
    rw [hwhole] at hshort
    exact Nat.lt_of_not_le hshort

theorem Program.write_of_isEmpty {program : Program} (h : program.stmts = [])
    (limits : OutputLimits) : program.write limits = .ok commentsOnly := by
  have hempty : program.isEmpty = true := List.isEmpty_iff.mpr h
  rw [Program.write, hempty]
  rfl

/-- **The limit on the length is exact.**  Where a script with at least one statement is written
under some limit on the length, it is written in the same way under every limit that is above the
length of the text in bytes, and under every other limit it is refused for its length.  A script
without a statement is written under all limits. -/
theorem write_iff_length (program : Program) :
    (program.stmts ≠ [] → ∀ depth room js, program.write ⟨depth, room⟩ = .ok js →
      ∀ maxLength,
        (js.utf8ByteSize < maxLength → program.write ⟨depth, maxLength⟩ = .ok js) ∧
        (maxLength ≤ js.utf8ByteSize →
          ∃ span, program.write ⟨depth, maxLength⟩ = .error ⟨.tooLarge maxLength, span⟩)) ∧
    (program.stmts = [] → ∀ limits, program.write limits = .ok commentsOnly) := by
  refine ⟨fun hnonempty depth room js hjs maxLength => ?_, Program.write_of_isEmpty⟩
  obtain ⟨writer, hwriter, rfl⟩ := (Program.write_eq_ok hnonempty).mp hjs
  obtain ⟨htext, hresolved⟩ := Program.text_of_write hnonempty hjs
  have hwritable := program.writable_draft.mpr hresolved
  have hpeak : program.draft.peak 0 ≤ depth := peak_le_of_write (Nat.zero_le depth) hwriter
  rw [htext]
  constructor
  · intro hshort
    have hplain : ("" : String).utf8ByteSize + program.draft.plain.utf8ByteSize < maxLength := by
      rw [program.plain_draft, String.utf8ByteSize_empty, Nat.zero_add]
      exact hshort
    -- the depth was enough under the limit that was not reached, so it is enough here
    rcases @write_cases ⟨depth, maxLength⟩ program.draft {} hwritable
      (Program.nests_draft hresolved).thrifty (Nat.zero_le depth) hplain with
      ⟨-, hwrite⟩ | ⟨hdeep, -⟩
    · refine (Program.write_eq_ok hnonempty).mpr ⟨_, hwrite, ?_⟩
      rw [← program.plain_draft]
      exact String.empty_append
    · exact absurd hpeak (Nat.not_le_of_lt hdeep)
  · intro hlong
    rcases @endsOrTooLong_write ⟨depth, maxLength⟩ program.draft {} hwritable hpeak with
      hwrite | ⟨span, hwrite⟩
    · exact absurd (Program.length_lt_of_write hwrite) (Nat.not_lt_of_le hlong)
    · exact ⟨span, Program.write_of_error hnonempty hwrite⟩

/-- One byte decides: the limit must be above the length of the text. -/
theorem write_iff_length_existenceTest : ∃ js,
    existenceTest.stmts ≠ [] ∧ existenceTest.write ⟨5, 1024⟩ = .ok js ∧
      existenceTest.write ⟨5, js.utf8ByteSize + 1⟩ = .ok js ∧
      ∃ span, existenceTest.write ⟨5, js.utf8ByteSize⟩ =
        .error ⟨.tooLarge js.utf8ByteSize, span⟩ := by
  have hnonempty : existenceTest.stmts ≠ [] := nofun
  cases hwrite : existenceTest.write ⟨5, 1024⟩ with
  | error fault =>
    have hok : (existenceTest.write ⟨5, 1024⟩).isOk = true := by decide +kernel
    rw [hwrite] at hok
    cases hok
  | ok js =>
    have hexact := (write_iff_length existenceTest).1 hnonempty 5 1024 js hwrite
    exact ⟨js, hnonempty, rfl, (hexact _).1 (Nat.lt_succ_self _), (hexact _).2 (Nat.le_refl _)⟩

end FormCalc
