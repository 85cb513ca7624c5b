import FormCalc.Output.Draft

/-!
# Following a draft without limits

What a draft says is known without a writer.

* `Draft.plain`: the text of a draft.
* `Draft.level`: the level at which a writer ends that begins at some level.
* `Draft.Writable`: every call in it can be written.
* `Draft.refusal`: the first call that cannot be written, if there is one.

Limits never change what is written.  They only decide whether it is: a writer that comes to
an end has added the plain text (`Draft.write_eq`), and one with enough room comes to an end, or to
the first call that it cannot write (`Draft.exists_room_outcome`).
-/

namespace FormCalc.Draft

/-- The text of a draft.  A call that cannot be written has none. -/
def plain : Draft → String
  | text s => s
  | append first second => first.plain ++ second.plain
  | scratch body use => (use body.plain).plain
  | empty | descend _ | ascend | measure _ | unknown .. => ""

/-- The level behind a draft. -/
def level : Draft → Nat → Nat
  | append first second, n => second.level (first.level n)
  | descend _, n => n + 1
  | ascend, n => n - 1
  | scratch body use, n => (use body.plain).level (body.level n)
  | empty, n | text _, n | measure _, n | unknown .., n => n

/-- Whether every call in a draft can be written. -/
def Writable : Draft → Prop
  | append first second => first.Writable ∧ second.Writable
  | scratch body use => body.Writable ∧ (use body.plain).Writable
  | unknown .. => False
  | empty | text _ | descend _ | ascend | measure _ => True

/-- What a writer without limits comes to. -/
def follow (d : Draft) (writer : Writer) : Writer :=
  ⟨writer.written ++ d.plain, d.level writer.depth⟩

/-! ### Parts of drafts -/

section Parts

variable (first second body : Draft) (span : Span)

@[simp] theorem plain_append : (first ++ second).plain = first.plain ++ second.plain := rfl

@[simp] theorem plain_text (s : String) : (text s).plain = s := rfl

@[simp] theorem plain_empty : empty.plain = "" := rfl

@[simp] theorem plain_descend : (descend span).plain = "" := rfl

@[simp] theorem plain_ascend : ascend.plain = "" := rfl

@[simp] theorem plain_measure : (measure span).plain = "" := rfl

@[simp] theorem plain_unknown (name : String) : (unknown name span).plain = "" := rfl

@[simp] theorem plain_scratch (use : String → Draft) :
    (scratch body use).plain = (use body.plain).plain := rfl

@[simp] theorem plain_node : (node span body).plain = body.plain := by
  simp [node]

@[simp] theorem plain_ite (c : Prop) [Decidable c] :
    (if c then first else second).plain = if c then first.plain else second.plain := by
  split <;> rfl

theorem plain_separated (separator : String) (ds : List Draft) :
    (separated separator ds).plain = separator.intercalate (ds.map plain) := by
  induction ds with
  | nil => rfl
  | cons first rest ih =>
    cases rest with
    | nil => simp [separated]
    | cons second rest =>
      rw [separated, plain_append, plain_append, plain_text, ih]
      simp [String.append_assoc]

@[simp] theorem writable_append :
    (first ++ second).Writable ↔ first.Writable ∧ second.Writable := Iff.rfl

@[simp] theorem writable_text (s : String) : (text s).Writable := trivial

@[simp] theorem writable_empty : empty.Writable := trivial

@[simp] theorem writable_descend : (descend span).Writable := trivial

@[simp] theorem writable_ascend : ascend.Writable := trivial

@[simp] theorem writable_measure : (measure span).Writable := trivial

@[simp] theorem not_writable_unknown (name : String) : ¬(unknown name span).Writable := id

@[simp] theorem writable_scratch (use : String → Draft) :
    (scratch body use).Writable ↔ body.Writable ∧ (use body.plain).Writable := Iff.rfl

@[simp] theorem writable_node : (node span body).Writable ↔ body.Writable := by
  simp [node]

@[simp] theorem writable_ite (c : Prop) [Decidable c] :
    (if c then first else second).Writable ↔ if c then first.Writable else second.Writable := by
  split <;> rfl

theorem writable_separated (separator : String) (ds : List Draft) :
    (separated separator ds).Writable ↔ ∀ d ∈ ds, d.Writable := by
  induction ds with
  | nil => simp [separated]
  | cons first rest ih =>
    cases rest with
    | nil => simp [separated]
    | cons second rest =>
      rw [separated, writable_append, writable_append, ih]
      simp

variable (writer : Writer)

theorem follow_empty : empty.follow writer = writer := by
  simp [follow, level]

theorem follow_append :
    (append first second).follow writer = second.follow (first.follow writer) := by
  simp [follow, plain, level, String.append_assoc]

theorem follow_descend :
    (descend span).follow writer = { writer with depth := writer.depth + 1 } := by
  simp [follow, level]

theorem follow_ascend : ascend.follow writer = { writer with depth := writer.depth - 1 } := by
  simp [follow, level]

theorem follow_measure : (measure span).follow writer = writer := by
  simp [follow, level]

/-- The sheet for a part is empty at first, so it holds the text of the part and nothing else. -/
theorem written_follow_sheet : (body.follow { writer with written := "" }).written = body.plain :=
  String.empty_append

end Parts

/-! ### Writers with limits -/

/-- What succeeds in two steps succeeds in each. -/
theorem ok_of_bind {ε α β : Type} {first : Except ε α} {second : α → Except ε β} {b : β}
    (h : first >>= second = .ok b) : ∃ a, first = .ok a ∧ second a = .ok b := by
  cases first with
  | error fault => exact nomatch h
  | ok a => exact ⟨a, rfl, h⟩

/-- A writer that comes to an end has followed the draft as if there were no limits. -/
theorem write_eq {limits : OutputLimits} {d : Draft} {writer writer' : Writer}
    (h : d.write limits writer = .ok writer') : d.Writable ∧ writer' = d.follow writer := by
  induction d generalizing writer writer' with
  | empty =>
    obtain rfl := Except.ok.inj h
    exact ⟨trivial, (follow_empty writer).symm⟩
  | text s =>
    obtain rfl := Except.ok.inj h
    exact ⟨trivial, rfl⟩
  | append first second ihfirst ihsecond =>
    obtain ⟨middle, hfirst, hsecond⟩ := ok_of_bind h
    obtain ⟨hwritable, rfl⟩ := ihfirst hfirst
    obtain ⟨hwritable', rfl⟩ := ihsecond hsecond
    exact ⟨⟨hwritable, hwritable'⟩, (follow_append first second writer).symm⟩
  | descend span =>
    obtain ⟨-, -, h⟩ := ok_of_bind h
    obtain ⟨-, -, h⟩ := ok_of_bind h
    obtain rfl := Except.ok.inj h
    exact ⟨trivial, (follow_descend span writer).symm⟩
  | ascend =>
    obtain rfl := Except.ok.inj h
    exact ⟨trivial, (follow_ascend writer).symm⟩
  | measure span =>
    obtain ⟨-, -, h⟩ := ok_of_bind h
    obtain rfl := Except.ok.inj h
    exact ⟨trivial, (follow_measure span writer).symm⟩
  | scratch body use ihbody ihuse =>
    obtain ⟨sheet, hbody, hrest⟩ := ok_of_bind h
    obtain ⟨hwritable, rfl⟩ := ihbody hbody
    rw [written_follow_sheet] at hrest
    obtain ⟨hwritable', rfl⟩ := ihuse _ hrest
    exact ⟨⟨hwritable, hwritable'⟩, rfl⟩
  | unknown name span => exact nomatch h

/-- Whether a writer has a draft's text behind it under all limits that are not too tight. -/
def Room (d : Draft) (writer : Writer) (room : Nat) : Prop :=
  ∀ limits : OutputLimits, room ≤ limits.maxDepth → room ≤ limits.maxLength →
    d.write limits writer = .ok (d.follow writer)

theorem checkLength_ok {limits : OutputLimits} {writer : Writer} (span : Span)
    (h : writer.written.utf8ByteSize < limits.maxLength) :
    writer.checkLength limits span = .ok () := by
  rw [Writer.checkLength, if_neg (Nat.not_le_of_lt h)]

theorem checkDepth_ok {limits : OutputLimits} {writer : Writer} (span : Span)
    (h : writer.depth ≤ limits.maxDepth) : writer.checkDepth limits span = .ok () := by
  rw [Writer.checkDepth, if_neg (Nat.not_lt_of_le h)]

/-- The fault of the first call in a draft that cannot be written. -/
def refusal : Draft → Option (Fault OutputCause)
  | append first second => first.refusal.or second.refusal
  | scratch body use => body.refusal.or (use body.plain).refusal
  | unknown name span => some ⟨.unknownFunction name, span⟩
  | empty | text _ | descend _ | ascend | measure _ => none

theorem refusal_of_writable {d : Draft} (h : d.Writable) : d.refusal = none := by
  induction d with
  | empty | text _ | descend _ | ascend | measure _ => rfl
  | append first second ihfirst ihsecond => rw [refusal, ihfirst h.1, ihsecond h.2, Option.or]
  | scratch body use ihbody ihuse => rw [refusal, ihbody h.1, ihuse _ h.2, Option.or]
  | unknown name span => exact h.elim

/-- What a writer without limits comes to, also where there are calls that it cannot write. -/
def outcome (d : Draft) (writer : Writer) : Except (Fault OutputCause) Writer :=
  match d.refusal with
  | some fault => .error fault
  | none => .ok (d.follow writer)

/-- **Limits are the only other reason to stop.**  With enough room a writer comes to the end of a
draft, or to the first call that it cannot write. -/
theorem exists_room_outcome (d : Draft) (writer : Writer) : ∃ room, ∀ limits : OutputLimits,
    room ≤ limits.maxDepth → room ≤ limits.maxLength →
      d.write limits writer = d.outcome writer := by
  induction d generalizing writer with
  | empty => exact ⟨0, fun limits _ _ => congrArg Except.ok (follow_empty writer).symm⟩
  | text s => exact ⟨0, fun limits _ _ => rfl⟩
  | append first second ihfirst ihsecond =>
    obtain ⟨room, hroom⟩ := ihfirst writer
    obtain ⟨room', hroom'⟩ := ihsecond (first.follow writer)
    refine ⟨max room room', fun limits hdepth hlength => ?_⟩
    have hfirst := hroom limits (by omega) (by omega)
    have hsecond := hroom' limits (by omega) (by omega)
    rw [write, hfirst, outcome, outcome, refusal, follow_append]
    cases first.refusal with
    | some fault => rfl
    | none => exact hsecond
  | descend span =>
    refine ⟨writer.written.utf8ByteSize + writer.depth + 1, fun limits hdepth hlength => ?_⟩
    rw [write, checkDepth_ok span (by simp only; omega), checkLength_ok span (by simp only; omega)]
    exact congrArg Except.ok (follow_descend span writer).symm
  | ascend => exact ⟨0, fun limits _ _ => congrArg Except.ok (follow_ascend writer).symm⟩
  | measure span =>
    refine ⟨writer.written.utf8ByteSize + 1, fun limits _ hlength => ?_⟩
    rw [write, checkLength_ok span hlength]
    exact congrArg Except.ok (follow_measure span writer).symm
  | scratch body use ihbody ihuse =>
    obtain ⟨room, hroom⟩ := ihbody { writer with written := "" }
    obtain ⟨room', hroom'⟩ := ihuse _ ⟨writer.written, body.level writer.depth⟩
    refine ⟨max room room', fun limits hdepth hlength => ?_⟩
    have hbody := hroom limits (by omega) (by omega)
    have huse := hroom' limits (by omega) (by omega)
    rw [write, hbody, outcome, outcome, refusal]
    cases body.refusal with
    | some fault => rfl
    | none =>
      show (use (body.follow { writer with written := "" }).written).write limits _ = _
      rw [written_follow_sheet]
      exact huse
  | unknown name span => exact ⟨0, fun limits _ _ => rfl⟩

/-- With enough room a writer comes to an end, if there is no call that it cannot write. -/
theorem exists_room {d : Draft} (h : d.Writable) (writer : Writer) :
    ∃ room, d.Room writer room := by
  obtain ⟨room, hroom⟩ := exists_room_outcome d writer
  refine ⟨room, fun limits hdepth hlength => ?_⟩
  rw [hroom limits hdepth hlength, outcome, refusal_of_writable h]

end FormCalc.Draft
