import FormCalc.Output.JavaScript
import FormCalc.Proofs.Tree.Relocated

/-!
# Two runs of a writer

A writer reads a draft for its text and levels.  Places are only what it blames, and limits are
only what it stops at.

* `Draft.write_relocate`: the moved draft is written as the draft is, and a fault in it is the
  moved fault.
* `Draft.write_loosens`: with looser limits a draft is written in the same way, unless one of
  the limits is broken.

The moved tree has the moved draft (`Program.relocate_draft`), so both hold of whole scripts.
-/

namespace FormCalc

open Draft Host

variable {f : Nat → Nat}

/-! ### Drafts -/

/-- A draft with its spans moved. -/
def Draft.relocate (f : Nat → Nat) : Draft → Draft
  | empty => empty
  | text s => text s
  | append first second => append (first.relocate f) (second.relocate f)
  | descend span => descend (span.relocate f)
  | ascend => ascend
  | measure span => measure (span.relocate f)
  | scratch body use => scratch (body.relocate f) fun s => (use s).relocate f
  | unknown name span => unknown name (span.relocate f)

namespace Writer

variable (writer : Writer) (limits : OutputLimits) (span : Span)

theorem checkDepth_relocate : writer.checkDepth limits (span.relocate f) =
    (writer.checkDepth limits span).mapError (Fault.relocate f) := by
  unfold checkDepth
  split <;> rfl

theorem checkLength_relocate : writer.checkLength limits (span.relocate f) =
    (writer.checkLength limits span).mapError (Fault.relocate f) := by
  unfold checkLength
  split <;> rfl

end Writer

/-- Changing a fault commutes with going on behind a success. -/
theorem bind_mapError {ε ε' α β : Type} {g : ε → ε'} {first : Except ε α}
    {second : α → Except ε β} {second' : α → Except ε' β}
    (h : ∀ a, second' a = (second a).mapError g) :
    first.mapError g >>= second' = (first >>= second).mapError g := by
  cases first with
  | error fault => rfl
  | ok a => exact h a

/-- **Places do not matter to a writer.** -/
theorem Draft.write_relocate (limits : OutputLimits) (d : Draft) (writer : Writer) :
    (d.relocate f).write limits writer =
      (d.write limits writer).mapError (Fault.relocate f) := by
  induction d generalizing writer with
  | empty | text _ | ascend | unknown _ _ => rfl
  | append first second ihfirst ihsecond =>
    rw [Draft.relocate, Draft.write, ihfirst]
    exact bind_mapError ihsecond
  | descend span =>
    rw [Draft.relocate, Draft.write, Writer.checkDepth_relocate, Writer.checkLength_relocate]
    exact bind_mapError fun _ => bind_mapError fun _ => rfl
  | measure span =>
    rw [Draft.relocate, Draft.write, Writer.checkLength_relocate]
    exact bind_mapError fun _ => rfl
  | scratch body use ihbody ihuse =>
    rw [Draft.relocate, Draft.write, ihbody]
    exact bind_mapError fun sheet => ihuse _ _

/-! ### Looser limits -/

/-- Whether limits are nowhere looser than others. -/
structure OutputLimits.Within (limits limits' : OutputLimits) : Prop where
  maxDepth : limits.maxDepth ≤ limits'.maxDepth
  maxLength : limits.maxLength ≤ limits'.maxLength

/-- What is said of a writer that breaks one of these limits. -/
def OutputLimits.causes (limits : OutputLimits) : List OutputCause :=
  [.tooDeep limits.maxDepth, .tooLarge limits.maxLength]

/-- Whether an outcome is a broken limit, or else the same as another. -/
def OutputLimits.Same {α : Type} (limits : OutputLimits) (out out' : Except (Fault OutputCause) α) :
    Prop :=
  (∃ fault, out = .error fault ∧ fault.cause ∈ limits.causes) ∨ out = out'

namespace OutputLimits

variable {limits limits' : OutputLimits}

theorem Same.bind {α β : Type} {first first' : Except (Fault OutputCause) α}
    {second second' : α → Except (Fault OutputCause) β} (hfirst : limits.Same first first')
    (hsecond : ∀ a, limits.Same (second a) (second' a)) :
    limits.Same (first >>= second) (first' >>= second') := by
  rcases hfirst with ⟨fault, rfl, hcause⟩ | rfl
  · exact .inl ⟨fault, rfl, hcause⟩
  · cases first with
    | error fault => exact .inr rfl
    | ok a => exact hsecond a

theorem Within.checkDepth (h : limits.Within limits') (writer : Writer) (span : Span) :
    limits.Same (writer.checkDepth limits span) (writer.checkDepth limits' span) := by
  by_cases hbroken : limits.maxDepth < writer.depth
  · left
    rw [Writer.checkDepth, if_pos hbroken]
    exact ⟨_, rfl, List.mem_cons_self⟩
  · right
    have hloose := h.maxDepth
    rw [Writer.checkDepth, Writer.checkDepth, if_neg hbroken, if_neg (by omega)]

theorem Within.checkLength (h : limits.Within limits') (writer : Writer) (span : Span) :
    limits.Same (writer.checkLength limits span) (writer.checkLength limits' span) := by
  by_cases hbroken : limits.maxLength ≤ writer.written.utf8ByteSize
  · left
    rw [Writer.checkLength, if_pos hbroken]
    exact ⟨_, rfl, List.mem_cons_of_mem _ List.mem_cons_self⟩
  · right
    have hloose := h.maxLength
    rw [Writer.checkLength, Writer.checkLength, if_neg hbroken, if_neg (by omega)]

end OutputLimits

/-- **Looser limits change nothing**, unless one of the limits is broken. -/
theorem Draft.write_loosens {limits limits' : OutputLimits} (h : limits.Within limits')
    (d : Draft) (writer : Writer) :
    limits.Same (d.write limits writer) (d.write limits' writer) := by
  induction d generalizing writer with
  | empty | text _ | ascend | unknown _ _ => exact .inr rfl
  | append first second ihfirst ihsecond => exact (ihfirst writer).bind ihsecond
  | descend span =>
    exact (h.checkDepth _ span).bind fun _ => (h.checkLength _ span).bind fun _ => .inr rfl
  | measure span => exact (h.checkLength writer span).bind fun _ => .inr rfl
  | scratch body use ihbody ihuse => exact (ihbody _).bind fun _ => ihuse _ _

theorem Program.write_loosens {limits limits' : OutputLimits} (h : limits.Within limits')
    (program : Program) : limits.Same (program.write limits) (program.write limits') := by
  unfold Program.write
  split
  · exact .inr rfl
  · exact (program.draft.write_loosens h {}).bind fun _ => .inr rfl

/-! ### Moved expressions -/

section Pieces

variable (f) (first second body : Draft) (span : Span)

@[simp] theorem relocate_append :
    (first ++ second).relocate f = first.relocate f ++ second.relocate f := rfl

@[simp] theorem relocate_text (s : String) : (text s).relocate f = text s := rfl

@[simp] theorem relocate_empty : empty.relocate f = empty := rfl

@[simp] theorem relocate_ascend : ascend.relocate f = ascend := rfl

@[simp] theorem relocate_measure : (measure span).relocate f = measure (span.relocate f) := rfl

@[simp] theorem relocate_node :
    (node span body).relocate f = node (span.relocate f) (body.relocate f) := rfl

@[simp] theorem relocate_ite (c : Prop) [Decidable c] :
    (if c then first else second).relocate f =
      if c then first.relocate f else second.relocate f := by
  split <;> rfl

@[simp] theorem relocate_call (helper : Helper) (arg : Draft) :
    (helper.call arg).relocate f = helper.call (arg.relocate f) := rfl

theorem relocate_separated (separator : String) (ds : List Draft) :
    (separated separator ds).relocate f = separated separator (ds.map (Draft.relocate f)) := by
  induction ds with
  | nil => rfl
  | cons first rest ih =>
    cases rest with
    | nil => rfl
    | cons second rest =>
      rw [separated, relocate_append, ih]
      rfl

@[simp] theorem Expr.isOperator_relocate (e : Expr) :
    (e.relocate f).isOperator = e.isOperator := by
  cases e <;> rfl

@[simp] theorem Expr.isAccessor_relocate (e : Expr) :
    (e.relocate f).isAccessor = e.isAccessor := by
  cases e <;> rfl

@[simp] theorem Expr.identifier?_relocate (e : Expr) :
    (e.relocate f).identifier? = e.identifier? := by
  cases e <;> rfl

theorem relocate_measured (e : Expr) (d : Draft) :
    (e.measured d).relocate f = (e.relocate f).measured (d.relocate f) := by
  simp [Expr.measured]

/-- The right operands of open operators with their spans moved. -/
def relocateRights (f : Nat → Nat) (rights : List (Option Draft)) : List (Option Draft) :=
  rights.map (Option.map (Draft.relocate f))

theorem relocate_closing (rights : List (Option Draft)) :
    (closing rights).relocate f = closing (relocateRights f rights) := by
  induction rights with
  | nil => rfl
  | cons right rest ih =>
    cases right with
    | none => exact congrArg (_ ++ ·) ih
    | some right => exact congrArg (_ ++ ·) ih

theorem relocate_operandDraft (rights : List (Option Draft)) (body : Draft) :
    (operandDraft rights span body).relocate f =
      operandDraft (relocateRights f rights) (span.relocate f) (body.relocate f) := by
  rw [operandDraft, relocate_append, relocate_closing]
  rfl

theorem relocate_assignmentDraft (keep isVariable : Bool) (target value : Draft) :
    (assignmentDraft keep isVariable target value).relocate f =
      assignmentDraft keep isVariable (target.relocate f) (value.relocate f) := by
  simp [assignmentDraft, Draft.relocate, assignedText]

theorem relocate_methodArguments (mask i : Nat) (args : List Draft) :
    (methodArguments mask i args).map (Draft.relocate f) =
      methodArguments mask i (args.map (Draft.relocate f)) := by
  induction args generalizing i with
  | nil => rfl
  | cons arg rest ih =>
    rw [methodArguments, List.map_cons, ih, relocate_call]
    rfl

theorem relocate_builtinDraft (name : String) (args : List Draft) :
    (builtinDraft name args).relocate f = builtinDraft name (args.map (Draft.relocate f)) := by
  unfold builtinDraft
  rw [relocate_ite, relocate_ite]
  cases args <;> simp [relocate_separated]

theorem relocate_callDraft (isMethod : Bool) (callee : Draft) (args : List Draft) :
    (callDraft isMethod callee span args).relocate f =
      callDraft isMethod (callee.relocate f) (span.relocate f)
        (args.map (Draft.relocate f)) := by
  unfold callDraft
  rw [Draft.relocate]
  congr 1
  funext name
  rw [relocate_ite]
  congr 1
  · rw [relocate_append, relocate_append, relocate_separated, relocate_methodArguments]
    rfl
  · cases builtin? name with
    | none => rfl
    | some name => exact relocate_builtinDraft f name args

theorem relocate_accessorDraft (helper : Helper) (isName : Bool) (base : Draft) (member : String)
    (index : Draft) :
    (accessorDraft helper isName base member index).relocate f =
      accessorDraft helper isName (base.relocate f) member (index.relocate f) := by
  simp [accessorDraft]

end Pieces

mutual

theorem Expr.relocate_walk (f : Nat → Nat) :
    (e : Expr) → (rights : List (Option Draft)) →
      (e.walk rights).relocate f = (e.relocate f).walk (relocateRights f rights)
  | .null span, rights | .number _ span, rights | .string _ span, rights
  | .identifier _ span, rights => relocate_operandDraft f span rights _
  | .unary op operand span, rights => by
    rw [Expr.walk, relocate_append, operand.relocate_walk f]
    rfl
  | .binary op left right span, rights => by
    have hright := (relocate_measured f right _).trans
      (congrArg (right.relocate f).measured (right.relocate_walk f []))
    rw [Expr.walk, relocate_append, left.relocate_walk f]
    exact congrArg (fun d => _ ++ (left.relocate f).walk (some d :: _)) hright
  | .assign target value span, rights => by
    rw [Expr.walk, relocate_operandDraft, relocate_assignmentDraft, relocate_measured,
      relocate_measured, target.relocate_walk f, value.relocate_walk f,
      ← target.identifier?_relocate f]
    rfl
  | .call callee args isMethod span, rights => by
    rw [Expr.walk, relocate_operandDraft, relocate_callDraft, relocate_measured,
      callee.relocate_walk f, relocate_argumentDrafts f args, ← callee.span_relocate f]
    rfl
  | .dot base member index span, rights => by
    rw [Expr.walk, relocate_operandDraft, relocate_accessorDraft, relocate_measured,
      base.relocate_walk f, relocate_node, index.relocate_draft f, ← base.identifier?_relocate f]
    rfl
  | .element member index span, rights => by
    rw [Expr.walk, relocate_operandDraft, relocate_accessorDraft, relocate_node,
      index.relocate_draft f]
    rfl
  | .descendant base name index span, rights => by
    rw [Expr.walk, relocate_operandDraft, relocate_accessorDraft, relocate_measured,
      base.relocate_walk f, relocate_node, index.relocate_draft f, ← base.identifier?_relocate f]
    rfl
  | .method receiver call span, rights => by
    have hreceiver := (relocate_measured f receiver _).trans
      (congrArg (receiver.relocate f).measured (receiver.relocate_walk f []))
    have hcall := (relocate_measured f call _).trans
      (congrArg (call.relocate f).measured (call.relocate_walk f []))
    rw [Expr.walk, relocate_operandDraft]
    exact congrArg (operandDraft _ _) (congrArg₂ methodDraft hreceiver hcall)

theorem Index.relocate_draft (f : Nat → Nat) :
    (index : Index) → index.draft.relocate f = (index.relocate f).draft
  | .none | .star => rfl
  | .entry mode expr => by
    rw [Index.draft, relocate_append, relocate_measured, expr.relocate_walk f]
    rfl

theorem relocate_argumentDrafts (f : Nat → Nat) : (args : List Expr) →
    (argumentDrafts args).map (Draft.relocate f) = argumentDrafts (relocateArguments f args)
  | [] => rfl
  | arg :: rest => by
    rw [argumentDrafts, List.map_cons, relocate_measured, arg.relocate_walk f,
      relocate_argumentDrafts f rest]
    rfl

end

/-! ### Moved statements -/

section Statements

variable (f)

theorem Expr.relocate_draft (e : Expr) : e.draft.relocate f = (e.relocate f).draft := by
  rw [Expr.draft, relocate_measured, e.relocate_walk f]
  rfl

theorem relocate_valueDraft (e : Expr) : (valueDraft e).relocate f = valueDraft (e.relocate f) :=
  congrArg Helper.getVal.call (e.relocate_draft f)

theorem relocate_resetDraft (keep : Bool) : (resetDraft keep).relocate f = resetDraft keep := by
  cases keep <;> rfl

theorem relocate_varDraft (keep : Bool) (name : String) (init : Option Expr) :
    (varDraft keep name init).relocate f = varDraft keep name (init.map (Expr.relocate f)) := by
  unfold varDraft
  cases init <;> simp [Expr.relocate_draft]

theorem relocate_exprDraft (keep : Bool) (e : Expr) :
    (exprDraft keep e).relocate f = exprDraft keep (e.relocate f) := by
  -- an assignment is written in its own way, and all others alike
  have hplain : ∀ e : Expr, Draft.relocate f (if keep then
        text "pfm_ret = " ++ (if e.isAccessor then valueDraft e else e.draft) ++ text ";\n"
      else e.draft ++ text ";\n") =
      if keep then
        text "pfm_ret = " ++ (if (e.relocate f).isAccessor then valueDraft (e.relocate f)
          else (e.relocate f).draft) ++ text ";\n"
      else (e.relocate f).draft ++ text ";\n" := by
    intro e
    simp [relocate_valueDraft, Expr.relocate_draft]
  cases e with
  | assign target value span =>
    rw [exprDraft, relocate_node, relocate_assignmentDraft, target.relocate_draft,
      value.relocate_draft, ← target.identifier?_relocate f]
    rfl
  | null | number | string | identifier | unary | binary | call | dot | element | descendant
  | method => exact hplain _

theorem relocate_conditionDraft (keyword : String) (cond : Expr) :
    (conditionDraft keyword cond).relocate f = conditionDraft keyword (cond.relocate f) := by
  simp [conditionDraft, relocate_valueDraft]

theorem relocate_loopDraft (keep : Bool) (cond : Expr) (body : Draft) (span : Span) :
    (loopDraft keep cond body span).relocate f =
      loopDraft keep (cond.relocate f) (body.relocate f) (span.relocate f) := by
  simp [loopDraft, relocate_resetDraft, Expr.relocate_draft]

theorem relocate_countDraft (keep : Bool) (var : String) (start stop : Expr)
    (direction : Direction) (step : Option Expr) (body : Draft) (span : Span) :
    (countDraft keep var start stop direction step body span).relocate f =
      countDraft keep var (start.relocate f) (stop.relocate f) direction
        (step.map (Expr.relocate f)) (body.relocate f) (span.relocate f) := by
  unfold countDraft
  cases step <;> simp [relocate_resetDraft, relocate_valueDraft]

theorem relocate_eachDraft (keep : Bool) (var : String) (collections : List Expr)
    (body : Draft) :
    (eachDraft keep var collections body).relocate f =
      eachDraft keep var (relocateArguments f collections) (body.relocate f) := by
  simp [eachDraft, relocate_resetDraft, relocate_separated, relocate_argumentDrafts]

end Statements

mutual

theorem Stmt.relocate_draft (hf : Monotone f) (keep : Bool) :
    (stmt : Stmt) → (stmt.draft keep).relocate f = (stmt.relocate f).draft keep
  | .function name params body span => by
    rw [Stmt.draft, relocate_node, functionDraft, relocate_append, relocate_append,
      relocate_stmtsDraft hf true body]
    rfl
  | .var name init span => congrArg (node _) (relocate_varDraft f keep name init)
  | .expr expr span => congrArg (node _) (relocate_exprDraft f keep expr)
  | .scope body span => congrArg (node _) (body.relocate_draft hf keep)
  | .branch cond body otherwise span => by
    rw [Stmt.draft, relocate_node, relocate_append, relocate_append, relocate_append,
      relocate_resetDraft, relocate_conditionDraft, body.relocate_draft hf keep,
      otherwise.relocate_draft hf keep]
    rfl
  | .loop cond body span => by
    rw [Stmt.draft, relocate_node, relocate_loopDraft, body.relocate_draft hf keep]
    rfl
  | .count var start stop direction step body span => by
    rw [Stmt.draft, relocate_node, relocate_countDraft, body.relocate_draft hf keep,
      ← body.span_relocate f]
    rfl
  | .each var collections body span => by
    rw [Stmt.draft, relocate_node, relocate_eachDraft, body.relocate_draft hf keep]
    rfl
  | .leave _ | .skip _ => rfl

theorem Block.relocate_draft (hf : Monotone f) (keep : Bool) :
    (body : Block) → (body.draft keep).relocate f = (body.relocate f).draft keep
  | .mk stmts span => by
    rw [Block.draft, relocate_node, relocate_append, relocate_append,
      relocate_stmtsDraft hf keep stmts]
    rfl

theorem Otherwise.relocate_draft (hf : Monotone f) (keep : Bool) :
    (rest : Otherwise) → (rest.draft keep).relocate f = (rest.relocate f).draft keep
  | .nothing => rfl
  | .last body => congrArg (_ ++ ·) (body.relocate_draft hf keep)
  | .elseIf cond body rest => by
    rw [Otherwise.draft, relocate_append, relocate_node, relocate_append,
      relocate_conditionDraft, body.relocate_draft hf keep, rest.relocate_draft hf keep,
      ← Span.cover_relocate hf, ← cond.span_relocate f, ← body.span_relocate f]
    rfl

theorem relocate_stmtsDraft (hf : Monotone f) (keep : Bool) : (stmts : List Stmt) →
    (stmtsDraft keep stmts).relocate f = stmtsDraft keep (relocateStmts f stmts)
  | [] => rfl
  | stmt :: rest => by
    rw [stmtsDraft, relocate_append, stmt.relocate_draft hf, relocate_stmtsDraft hf keep rest,
      ← isEmpty_relocateStmts f rest]
    rfl

end

theorem Program.relocate_draft (hf : Monotone f) (program : Program) :
    program.draft.relocate f = (program.relocate f).draft := by
  rw [Program.draft, relocate_append, relocate_append, relocate_append,
    relocate_stmtsDraft hf true]
  rfl

/-- **Places do not matter to what is written of a script.** -/
theorem Program.write_relocate (hf : Monotone f) (limits : OutputLimits) (program : Program) :
    (program.relocate f).write limits =
      (program.write limits).mapError (Fault.relocate f) := by
  have hempty : (program.relocate f).isEmpty = program.isEmpty :=
    isEmpty_relocateStmts f program.stmts
  rw [Program.write, Program.write, hempty, ← program.relocate_draft hf, Draft.write_relocate]
  split
  · rfl
  · exact bind_mapError fun _ => rfl

end FormCalc
