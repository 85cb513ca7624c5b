import FormCalc.Output.JavaScript
import FormCalc.Proofs.Token.Fault
import FormCalc.Proofs.Tree.Placed

/-!
# Where faults in writing lie

A writer blames the span that stands in the instruction it fails at, so its faults lie where the
spans of the draft lie.

* `Draft.Points`: every span in a draft is a stretch of the text.
* `Draft.inside_of_write`: a writer that follows such a draft blames a stretch of the text.
* `Program.points_draft`: the draft of a script points into the text its tree is placed in.
-/

namespace FormCalc

open Draft Host

variable {text : String}

/-! ### Drafts that point into a text -/

/-- Whether every span in a draft is a stretch of the text, whatever is written on its sheets. -/
def Draft.Points (text : String) : Draft → Prop
  | .empty | .text _ | .ascend => True
  | .append first second => first.Points text ∧ second.Points text
  | .descend span | .measure span | .unknown _ span => span.Inside text
  | .scratch body use => body.Points text ∧ ∀ sheet, (use sheet).Points text

/-- What fails in two steps fails in one of them. -/
theorem error_of_bind {ε α β : Type} {first : Except ε α} {second : α → Except ε β} {fault : ε}
    (h : first >>= second = .error fault) :
    first = .error fault ∨ ∃ a, first = .ok a ∧ second a = .error fault := by
  cases first with
  | error found =>
    obtain rfl := Except.error.inj h
    exact .inl rfl
  | ok a => exact .inr ⟨a, rfl, h⟩

namespace Writer

variable {limits : OutputLimits} {writer : Writer} {span : Span} {fault : Fault OutputCause}

theorem span_of_checkDepth (h : writer.checkDepth limits span = .error fault) :
    fault.span = span := by
  unfold checkDepth at h
  split at h
  · obtain rfl := Except.error.inj h
    rfl
  · cases h

theorem span_of_checkLength (h : writer.checkLength limits span = .error fault) :
    fault.span = span := by
  unfold checkLength at h
  split at h
  · obtain rfl := Except.error.inj h
    rfl
  · cases h

end Writer

namespace Draft

/-- **A writer blames a span of its draft.** -/
theorem inside_of_write {limits : OutputLimits} {d : Draft} {writer : Writer}
    {fault : Fault OutputCause} (hd : d.Points text) (h : d.write limits writer = .error fault) :
    fault.span.Inside text := by
  induction d generalizing writer with
  | empty | text _ | ascend => cases h
  | append first second ihfirst ihsecond =>
    rcases error_of_bind h with h | ⟨middle, -, h⟩
    · exact ihfirst hd.1 h
    · exact ihsecond hd.2 h
  | descend span =>
    rcases error_of_bind h with h | ⟨-, -, h⟩
    · rw [Writer.span_of_checkDepth h]
      exact hd
    · rcases error_of_bind h with h | ⟨-, -, h⟩
      · rw [Writer.span_of_checkLength h]
        exact hd
      · cases h
  | measure span =>
    rcases error_of_bind h with h | ⟨-, -, h⟩
    · rw [Writer.span_of_checkLength h]
      exact hd
    · cases h
  | scratch body use ihbody ihuse =>
    rcases error_of_bind h with h | ⟨sheet, -, h⟩
    · exact ihbody hd.1 h
    · exact ihuse _ (hd.2 _) h
  | unknown name span =>
    obtain rfl := Except.error.inj h
    exact hd

/-! ### Parts of drafts -/

section Parts

variable (text) (first second body : Draft) (span : Span)

@[simp] theorem points_append :
    (first ++ second).Points text ↔ first.Points text ∧ second.Points text := Iff.rfl

@[simp] theorem points_text (s : String) : (Draft.text s).Points text := trivial

@[simp] theorem points_empty : empty.Points text := trivial

@[simp] theorem points_ascend : ascend.Points text := trivial

@[simp] theorem points_measure : (measure span).Points text ↔ span.Inside text := Iff.rfl

@[simp] theorem points_call (helper : Helper) : (helper.call body).Points text ↔ body.Points text :=
  by simp [Helper.call]

end Parts

variable {first second body : Draft} {span : Span} {ds : List Draft}

theorem points_ite {c : Prop} [Decidable c] (hfirst : first.Points text)
    (hsecond : second.Points text) : (if c then first else second).Points text := by
  split
  · exact hfirst
  · exact hsecond

theorem points_node (hspan : span.Inside text) (hbody : body.Points text) :
    (node span body).Points text := ⟨⟨⟨hspan, hbody⟩, hspan⟩, trivial⟩

theorem points_separated (separator : String) (h : ∀ d ∈ ds, d.Points text) :
    (separated separator ds).Points text := by
  induction ds with
  | nil => trivial
  | cons first rest ih =>
    obtain ⟨hfirst, hrest⟩ := List.forall_mem_cons.mp h
    cases rest with
    | nil => exact hfirst
    | cons second rest => exact ⟨⟨hfirst, trivial⟩, ih hrest⟩

end Draft

/-! ### Expressions -/

section Expressions

variable {target value callee base member receiver body : Draft} {args : List Draft}
  {rights : List (Option Draft)} {span : Span} {e : Expr}

/-- A right operand that is still to be written points into the text. -/
theorem points_closing (h : ∀ right ∈ rights, ∀ d ∈ right, d.Points text) :
    (closing rights).Points text := by
  induction rights with
  | nil => trivial
  | cons right rest ih =>
    obtain ⟨hright, hrest⟩ := List.forall_mem_cons.mp h
    cases right with
    | none => simpa [closing] using ih hrest
    | some d => simpa [closing] using ⟨hright d rfl, ih hrest⟩

theorem points_operandDraft (h : ∀ right ∈ rights, ∀ d ∈ right, d.Points text)
    (hspan : span.Inside text) (hbody : body.Points text) :
    (operandDraft rights span body).Points text := ⟨points_node hspan hbody, points_closing h⟩

theorem points_assignmentDraft (keep isVariable : Bool) (htarget : target.Points text)
    (hvalue : value.Points text) :
    (assignmentDraft keep isVariable target value).Points text := by
  have hkept : (if keep then Draft.text "pfm_ret = " else empty).Points text :=
    points_ite trivial trivial
  refine ⟨htarget, fun sheet => ⟨hvalue, fun sheet' => ⟨?_, points_ite ?_ trivial⟩⟩⟩
  · simpa [assignedText] using hkept
  · simpa [assignedText] using hkept

theorem points_methodArguments (mask i : Nat) (h : ∀ arg ∈ args, arg.Points text) :
    ∀ arg ∈ methodArguments mask i args, arg.Points text := by
  induction args generalizing i with
  | nil => exact h
  | cons arg rest ih =>
    obtain ⟨harg, hrest⟩ := List.forall_mem_cons.mp h
    rw [methodArguments]
    exact List.forall_mem_cons.mpr ⟨(points_call ..).mpr harg, ih (i + 1) hrest⟩

theorem points_builtinDraft (name : String) (h : ∀ arg ∈ args, arg.Points text) :
    (builtinDraft name args).Points text := by
  have hargs := points_separated ", " h
  refine points_ite ⟨⟨trivial, ⟨⟨trivial, hargs⟩, trivial⟩⟩, trivial⟩
    (points_ite ?_ ⟨⟨trivial, hargs⟩, trivial⟩)
  cases args with
  | nil => simp
  | cons first rest => simpa using (List.forall_mem_cons.mp h).1

theorem points_callDraft (isMethod : Bool) (hcallee : callee.Points text)
    (hspan : span.Inside text) (h : ∀ arg ∈ args, arg.Points text) :
    (callDraft isMethod callee span args).Points text := by
  refine ⟨hcallee, fun name => points_ite ?_ ?_⟩
  · exact ⟨⟨trivial, points_separated _ (points_methodArguments _ _ h)⟩, trivial⟩
  · cases builtin? name with
    | none => exact hspan
    | some name => exact points_builtinDraft name h

theorem points_accessorDraft (helper : Helper) (isName : Bool) (hbase : base.Points text)
    (member : String) {index : Draft} (hindex : index.Points text) :
    (accessorDraft helper isName base member index).Points text := by
  have hname : (if isName then base else empty).Points text := points_ite hbase trivial
  simpa [accessorDraft] using ⟨⟨hbase, hname⟩, hindex⟩

theorem points_methodDraft {call : Draft} (hreceiver : receiver.Points text)
    (hcall : call.Points text) : (methodDraft receiver call).Points text := by
  simpa [methodDraft] using ⟨hreceiver, hcall⟩

theorem Span.Holds.within {parts : List Span} (h : span.Holds text parts) : span.Inside text :=
  ⟨h.start_le_stop, h.start, h.stop⟩

theorem Expr.Placed.within (h : e.Placed text) : e.span.Inside text := by
  obtain ⟨parts, hholds⟩ := h.holds
  exact hholds.within

theorem points_measured (h : e.Placed text) (hbody : body.Points text) :
    (e.measured body).Points text := points_ite ⟨hbody, h.within⟩ hbody

end Expressions

mutual

/-- The walk points into the text, with right operands that do. -/
theorem Expr.points_walk : (e : Expr) → e.Placed text → (rights : List (Option Draft)) →
    (∀ right ∈ rights, ∀ d ∈ right, d.Points text) → (e.walk rights).Points text
  | .null _, h, _, hrights | .number .., h, _, hrights | .string .., h, _, hrights
  | .identifier .., h, _, hrights => points_operandDraft hrights h.1.within trivial
  | .unary _ operand _, h, _, hrights =>
    ⟨⟨h.1.within, trivial⟩, operand.points_walk h.2 _ (List.forall_mem_cons.mpr ⟨nofun, hrights⟩)⟩
  | .binary _ left right _, h, rights, hrights => by
    obtain ⟨hspan, hleft, hright⟩ := h
    have hdraft := points_measured hright (right.points_walk hright [] nofun)
    refine ⟨⟨hspan.within, trivial⟩, left.points_walk hleft _ ?_⟩
    refine List.forall_mem_cons.mpr ⟨fun d hd => ?_, hrights⟩
    obtain rfl := Option.some.inj hd
    exact hdraft
  | .assign target value _, h, _, hrights =>
    points_operandDraft hrights h.1.within (points_assignmentDraft _ _
      (points_measured h.2.1 (target.points_walk h.2.1 [] nofun))
      (points_measured h.2.2 (value.points_walk h.2.2 [] nofun)))
  | .call callee args _ _, h, _, hrights =>
    points_operandDraft hrights h.1.within (points_callDraft _
      (points_measured h.2.1 (callee.points_walk h.2.1 [] nofun)) h.2.1.within
      (points_argumentDrafts args h.2.2))
  | .dot base _ index _, h, _, hrights =>
    points_operandDraft hrights h.1.within (points_accessorDraft _ _
      (points_measured h.2.1 (base.points_walk h.2.1 [] nofun)) _
      (points_node h.1.within (index.points_draft h.2.2)))
  | .element _ index _, h, _, hrights =>
    points_operandDraft hrights h.1.within (points_accessorDraft _ _ (points_text text _) _
      (points_node h.1.within (index.points_draft h.2)))
  | .descendant base _ index _, h, _, hrights =>
    points_operandDraft hrights h.1.within (points_accessorDraft _ _
      (points_measured h.2.1 (base.points_walk h.2.1 [] nofun)) _
      (points_node h.1.within (index.points_draft h.2.2)))
  | .method receiver call _, h, _, hrights =>
    points_operandDraft hrights h.1.within (points_methodDraft
      (points_measured h.2.1 (receiver.points_walk h.2.1 [] nofun))
      (points_measured h.2.2 (call.points_walk h.2.2 [] nofun)))

theorem Index.points_draft : (index : Index) → index.Placed text → index.draft.Points text
  | .none, _ | .star, _ => trivial
  | .entry _ expr, h => ⟨trivial, points_measured h (expr.points_walk h [] nofun)⟩

theorem points_argumentDrafts : (args : List Expr) → PlacedArguments text args →
    ∀ arg ∈ argumentDrafts args, arg.Points text
  | [], _ => nofun
  | arg :: rest, h => List.forall_mem_cons.mpr
    ⟨points_measured h.1 (arg.points_walk h.1 [] nofun), points_argumentDrafts rest h.2⟩

end

/-! ### Statements -/

section Statements

variable {e cond start stop : Expr} {body : Draft} {span : Span}

theorem Expr.points_draft (h : e.Placed text) : e.draft.Points text :=
  points_measured h (e.points_walk h [] nofun)

theorem points_valueDraft (h : e.Placed text) : (valueDraft e).Points text :=
  (points_call ..).mpr (Expr.points_draft h)

theorem points_resetDraft (keep : Bool) : (resetDraft keep).Points text :=
  points_ite trivial trivial

theorem points_varDraft (keep : Bool) (name : String) {init : Option Expr}
    (h : PlacedOptional text init) : (varDraft keep name init).Points text := by
  refine ⟨⟨trivial, ?_⟩, points_ite trivial trivial⟩
  cases init with
  | none => trivial
  | some value => simpa using Expr.points_draft h

theorem points_exprDraft (keep : Bool) (h : e.Placed text) : (exprDraft keep e).Points text := by
  unfold exprDraft
  split
  · exact points_node h.1.within
      (points_assignmentDraft _ _ (Expr.points_draft h.2.1) (Expr.points_draft h.2.2))
  · exact points_ite ⟨⟨trivial, points_ite (points_valueDraft h) (Expr.points_draft h)⟩, trivial⟩
      ⟨Expr.points_draft h, trivial⟩

theorem points_conditionDraft (keyword : String) (h : cond.Placed text) :
    (conditionDraft keyword cond).Points text :=
  ⟨⟨⟨trivial, points_valueDraft h⟩, trivial⟩, h.within⟩

theorem points_loopDraft (keep : Bool) (h : cond.Placed text) (hbody : body.Points text)
    (hspan : span.Inside text) : (loopDraft keep cond body span).Points text := by
  simpa [loopDraft] using ⟨⟨⟨points_resetDraft keep, Expr.points_draft h⟩, hspan⟩, hbody⟩

theorem points_countDraft (keep : Bool) (var : String) (hstart : start.Placed text)
    (hstop : stop.Placed text) (direction : Direction) {step : Option Expr}
    (hstep : PlacedOptional text step) (hbody : body.Points text) (hspan : span.Inside text) :
    (countDraft keep var start stop direction step body span).Points text := by
  have hreset : (resetDraft keep).Points text := points_resetDraft keep
  unfold countDraft
  cases step with
  | none => simp [hreset, points_valueDraft hstart, points_valueDraft hstop, hbody, hspan]
  | some step =>
    simp [hreset, points_valueDraft hstart, points_valueDraft hstop,
      points_valueDraft (show step.Placed text from hstep), hbody, hspan]

theorem points_eachDraft (keep : Bool) (var : String) {collections : List Expr}
    (h : PlacedArguments text collections) (hbody : body.Points text) :
    (eachDraft keep var collections body).Points text := by
  have hlist := points_separated ", " (points_argumentDrafts collections h)
  simpa [eachDraft] using ⟨⟨points_resetDraft keep, hlist⟩, hbody⟩

theorem Block.Placed.within {tokens : List Token} {block : Block}
    (h : block.Placed text tokens) : block.span.Inside text := by
  cases block
  exact h.1.within

end Statements

mutual

theorem Stmt.points_draft {tokens : List Token} (keep : Bool) : (stmt : Stmt) →
    stmt.Placed text tokens → (stmt.draft keep).Points text
  | .function _ _ body _, h =>
    points_node h.1.within
      ⟨⟨⟨⟨trivial, trivial⟩, trivial⟩, points_stmtsDraft true body h.2⟩, trivial⟩
  | .var name _ _, h => points_node h.1.within (points_varDraft keep name h.2)
  | .expr _ _, h => points_node h.1.within (points_exprDraft keep h.2)
  | .scope body _, h => points_node h.1.within (body.points_draft keep h.2)
  | .branch _ body otherwise _, h =>
    points_node h.1.within ⟨⟨⟨points_resetDraft keep, points_conditionDraft _ h.2.1⟩,
      body.points_draft keep h.2.2.1⟩, otherwise.points_draft keep h.2.2.2⟩
  | .loop _ body _, h =>
    points_node h.1.within (points_loopDraft keep h.2.1 (body.points_draft keep h.2.2) h.1.within)
  | .count var _ _ direction _ body _, h =>
    points_node h.1.within (points_countDraft keep var h.2.1 h.2.2.1 direction h.2.2.2.1
      (body.points_draft keep h.2.2.2.2) h.2.2.2.2.within)
  | .each var _ body _, h =>
    points_node h.1.within (points_eachDraft keep var h.2.1 (body.points_draft keep h.2.2))
  | .leave _, h | .skip _, h => points_node h.within trivial

theorem Block.points_draft {tokens : List Token} (keep : Bool) : (body : Block) →
    body.Placed text tokens → (body.draft keep).Points text
  | .mk stmts _, h =>
    points_node h.1.within ⟨⟨trivial, points_stmtsDraft keep stmts h.2⟩, trivial⟩

/-- An `elseif` is blamed from its condition to the end of its block. -/
theorem Otherwise.points_draft {tokens : List Token} (keep : Bool) : (rest : Otherwise) →
    rest.Placed text tokens → (rest.draft keep).Points text
  | .nothing, _ => trivial
  | .last body, h => ⟨trivial, body.points_draft keep h⟩
  | .elseIf _ body rest, h =>
    ⟨points_node (h.1.within.cover h.2.1.within)
      ⟨points_conditionDraft _ h.1, body.points_draft keep h.2.1⟩, rest.points_draft keep h.2.2⟩

theorem points_stmtsDraft {tokens : List Token} (keep : Bool) : (stmts : List Stmt) →
    PlacedStmts text tokens stmts → (stmtsDraft keep stmts).Points text
  | [], _ => trivial
  | stmt :: rest, h => ⟨stmt.points_draft _ h.2.1, points_stmtsDraft keep rest h.2.2⟩

end

/-! ### Scripts -/

theorem Program.points_draft {tokens : List Token} {program : Program}
    (hspan : program.span.Inside text) (hstmts : PlacedStmts text tokens program.stmts) :
    program.draft.Points text :=
  ⟨⟨⟨trivial, points_stmtsDraft true program.stmts hstmts⟩, trivial⟩, hspan⟩

/-- **A script that cannot be written is blamed for a stretch of its text.** -/
theorem Program.inside_of_write {tokens : List Token} {program : Program}
    (hspan : program.span.Inside text) (hstmts : PlacedStmts text tokens program.stmts)
    {limits : OutputLimits} {fault : Fault OutputCause}
    (hwrite : program.write limits = .error fault) : fault.span.Inside text := by
  unfold Program.write at hwrite
  split at hwrite
  · cases hwrite
  · rcases error_of_bind hwrite with hwrite | ⟨writer, -, hwrite⟩
    · exact Draft.inside_of_write (Program.points_draft hspan hstmts) hwrite
    · cases hwrite

end FormCalc
