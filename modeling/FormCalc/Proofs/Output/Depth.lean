import FormCalc.Proofs.Output.Plain

/-!
# How deep a writer goes

The limit on the depth is met at one place of a draft only: where a writer goes a level down.  So
the deepest level on the way decides whether a draft is written, as long as its length does not.

* `Draft.peak`: the deepest level on the way through a draft.
* `Draft.Thrifty`: no part that is written aside gets longer than what is made of it.  Then the
  length of the whole text is the only one that counts.
* `Draft.Grounded`: a writer goes up only as many levels as it has gone down.
* `Draft.writeStrict`: a writer that gets stuck where it would have to count below zero.

A writer comes to the end of a draft if no level is below the limit, and otherwise it is refused
for its depth (`Draft.write_cases`).  On grounded drafts a strict writer does what any writer does
(`Draft.writeStrict_eq`).
-/

namespace FormCalc.Draft

/-- The deepest level on the way through a draft. -/
def peak : Draft → Nat → Nat
  | append first second, n => max (first.peak n) (second.peak (first.level n))
  | descend _, n => n + 1
  | scratch body use, n => max (body.peak n) ((use body.plain).peak (body.level n))
  | empty, n | text _, n | ascend, n | measure _, n | unknown .., n => n

/-- Whether what is made of a part that is written aside is at least as long as the part, wherever
there is one in a draft. -/
def Thrifty : Draft → Prop
  | append first second => first.Thrifty ∧ second.Thrifty
  | scratch body use =>
    body.Thrifty ∧ (use body.plain).Thrifty ∧
      body.plain.utf8ByteSize ≤ (use body.plain).plain.utf8ByteSize
  | empty | text _ | descend _ | ascend | measure _ | unknown .. => True

/-- Whether a writer that begins at a level never has to go up from level zero. -/
def Grounded : Draft → Nat → Prop
  | append first second, n => first.Grounded n ∧ second.Grounded (first.level n)
  | ascend, n => 0 < n
  | scratch body use, n => body.Grounded n ∧ (use body.plain).Grounded (body.level n)
  | empty, _ | text _, _ | descend _, _ | measure _, _ | unknown .., _ => True

theorem le_peak (d : Draft) (n : Nat) : n ≤ d.peak n := by
  induction d generalizing n with
  | empty | text | measure | unknown | ascend => exact Nat.le_refl _
  | descend => exact Nat.le_succ n
  | append first second ihfirst _ => exact Nat.le_trans (ihfirst n) (Nat.le_max_left ..)
  | scratch body use ihbody _ => exact Nat.le_trans (ihbody n) (Nat.le_max_left ..)

theorem level_le_peak (d : Draft) (n : Nat) : d.level n ≤ d.peak n := by
  induction d generalizing n with
  | empty | text | measure | unknown | descend => exact Nat.le_refl _
  | ascend => exact Nat.sub_le n 1
  | append first second _ ihsecond => exact Nat.le_trans (ihsecond _) (Nat.le_max_right ..)
  | scratch body use _ ihuse => exact Nat.le_trans (ihuse _ _) (Nat.le_max_right ..)

/-! ### The limit on the depth -/

section Limits

variable {limits : OutputLimits} {d : Draft} {writer : Writer}

/-- Whether writing ends as the deepest level says: with the text if the limit is not below it,
and with a fault for the depth otherwise. -/
def EndsAt (limits : OutputLimits) (peak : Nat) (writer : Writer)
    (result : Except (Fault OutputCause) Writer) : Prop :=
  peak ≤ limits.maxDepth ∧ result = .ok writer ∨
    limits.maxDepth < peak ∧ ∃ span, result = .error ⟨.tooDeep limits.maxDepth, span⟩

/-- What ends in two steps goes as deep as the deeper one. -/
theorem EndsAt.bind {peak peak' : Nat} {middle : Writer} {first : Except (Fault OutputCause) Writer}
    {second : Writer → Except (Fault OutputCause) Writer} (hfirst : EndsAt limits peak middle first)
    (hsecond : peak ≤ limits.maxDepth → EndsAt limits peak' writer (second middle)) :
    EndsAt limits (max peak peak') writer (first >>= second) := by
  rcases hfirst with ⟨hpeak, rfl⟩ | ⟨hpeak, span, rfl⟩
  · rcases hsecond hpeak with ⟨hpeak', hresult⟩ | ⟨hpeak', hresult⟩
    · exact .inl ⟨Nat.max_le.mpr ⟨hpeak, hpeak'⟩, hresult⟩
    · exact .inr ⟨Nat.lt_of_lt_of_le hpeak' (Nat.le_max_right ..), hresult⟩
  · exact .inr ⟨Nat.lt_of_lt_of_le hpeak (Nat.le_max_left ..), span, rfl⟩

/-- **The deepest level decides.**  A writer that begins within the limit, and whose text stays
below the limit on the length, is refused only for a level below the limit. -/
theorem write_cases (hwritable : d.Writable) (hthrifty : d.Thrifty)
    (hdepth : writer.depth ≤ limits.maxDepth)
    (hlength : writer.written.utf8ByteSize + d.plain.utf8ByteSize < limits.maxLength) :
    EndsAt limits (d.peak writer.depth) (d.follow writer) (d.write limits writer) := by
  induction d generalizing writer with
  | empty => exact .inl ⟨hdepth, congrArg Except.ok (follow_empty writer).symm⟩
  | text s => exact .inl ⟨hdepth, rfl⟩
  | append first second ihfirst ihsecond =>
    rw [plain, String.utf8ByteSize_append] at hlength
    have hfirst := @ihfirst writer hwritable.1 hthrifty.1 hdepth (by omega)
    rw [follow_append]
    refine hfirst.bind fun hpeak => @ihsecond (first.follow writer) hwritable.2 hthrifty.2 ?_ ?_
    · exact Nat.le_trans (first.level_le_peak _) hpeak
    · rw [follow, String.utf8ByteSize_append]
      omega
  | descend span =>
    rw [write, follow_descend]
    by_cases hpeak : writer.depth + 1 ≤ limits.maxDepth
    · rw [checkDepth_ok span hpeak, checkLength_ok span (Nat.lt_of_le_of_lt (by simp) hlength)]
      exact .inl ⟨hpeak, rfl⟩
    · have hbelow : limits.maxDepth < writer.depth + 1 := Nat.lt_of_not_le hpeak
      rw [Writer.checkDepth, if_pos hbelow]
      exact .inr ⟨hbelow, span, rfl⟩
  | ascend => exact .inl ⟨hdepth, congrArg Except.ok (follow_ascend writer).symm⟩
  | measure span =>
    rw [write, follow_measure, checkLength_ok span (Nat.lt_of_le_of_lt (by simp) hlength)]
    exact .inl ⟨hdepth, rfl⟩
  | scratch body use ihbody ihuse =>
    obtain ⟨hthriftyBody, hthriftyUse, hsize⟩ := hthrifty
    rw [plain] at hlength
    -- the sheet is empty at first, and what is made of it is no shorter
    have hsheet : ("" : String).utf8ByteSize + body.plain.utf8ByteSize < limits.maxLength := by
      simp only [String.utf8ByteSize_empty]
      omega
    have hbody := @ihbody { writer with written := "" } hwritable.1 hthriftyBody hdepth hsheet
    refine hbody.bind fun hpeak => ?_
    rw [written_follow_sheet]
    refine @ihuse body.plain ⟨writer.written, body.level writer.depth⟩ hwritable.2 hthriftyUse ?_
      hlength
    exact Nat.le_trans (body.level_le_peak _) hpeak
  | unknown name span => exact hwritable.elim

end Limits

/-! ### Counting levels -/

/-- Follows a draft, and gets stuck where the count of levels would go below zero. -/
def writeStrict (limits : OutputLimits) :
    Draft → Writer → Option (Except (Fault OutputCause) Writer)
  | append first second, writer =>
    match first.writeStrict limits writer with
    | some (.ok middle) => second.writeStrict limits middle
    | stopped => stopped
  | ascend, writer =>
    if writer.depth = 0 then none else some (.ok { writer with depth := writer.depth - 1 })
  | scratch body use, writer =>
    match body.writeStrict limits { writer with written := "" } with
    | some (.ok sheet) =>
      (use sheet.written).writeStrict limits { sheet with written := writer.written }
    | stopped => stopped
  | d, writer => some (d.write limits writer)

/-- **The count of levels never goes below zero** on a grounded draft, whatever the limits are and
whether or not it is written to its end. -/
theorem writeStrict_eq {limits : OutputLimits} {d : Draft} {writer : Writer}
    (h : d.Grounded writer.depth) : d.writeStrict limits writer = some (d.write limits writer) := by
  induction d generalizing writer with
  | empty | text | descend | measure | unknown => rfl
  | ascend => rw [writeStrict, if_neg (Nat.ne_of_gt h), write]
  | append first second ihfirst ihsecond =>
    rw [writeStrict, ihfirst h.1, write]
    cases hfirst : first.write limits writer with
    | error fault => rfl
    | ok middle =>
      obtain ⟨-, rfl⟩ := write_eq hfirst
      exact ihsecond h.2
  | scratch body use ihbody ihuse =>
    have hsheet := @ihbody { writer with written := "" } h.1
    rw [writeStrict, hsheet, write]
    cases hbody : body.write limits { writer with written := "" } with
    | error fault => rfl
    | ok sheet =>
      obtain ⟨-, rfl⟩ := write_eq hbody
      have huse := h.2
      rw [← written_follow_sheet] at huse
      exact ihuse _ huse

end FormCalc.Draft
