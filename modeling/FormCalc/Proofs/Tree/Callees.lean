import FormCalc.Proofs.Host.Builtin
import FormCalc.Proofs.Tree.Placed
import Mathlib.Data.List.Forall2

/-!
# What a script calls

The callees of the calls in a script, in the order of their places.  What is called inside a callee
comes in front of the callee, and the callee in front of what is called in the arguments.

* `Expr.function?`: the built-in function that a callee names.
* `Expr.callees`, `Stmt.callees`, `Program.callees`: the callees.
* `Program.inSourceOrder_callees`: in a tree that stands in its place, each callee stands behind or
  around the callees in front of it.
-/

namespace FormCalc

open Host

/-! ### Callees -/

/-- The built-in function that a callee names.  Only a bare name does, and the case of its ASCII
letters plays no part. -/
def Expr.function? (callee : Expr) : Option String :=
  callee.identifier?.bind fun name => builtins.toList.find? (lowered · = lowered name)

/-- The arguments of a call that are looked at: all of them, but for a test for existence only the
first. -/
def Expr.usedArguments {α : Type} (callee : Expr) (isMethod : Bool) (args : List α) : List α :=
  if isMethod || callee.function? != some "Exists" then args else args.take 1

mutual

/-- The callees in an expression.  Methods are called on a receiver and have none. -/
def Expr.callees : Expr → List Expr
  | .null _ | .number .. | .string .. | .identifier .. => []
  | .unary _ operand _ => operand.callees
  | .binary _ left right _ => left.callees ++ right.callees
  | .assign target value _ => target.callees ++ value.callees
  | .call callee args isMethod _ =>
    callee.callees ++ (if isMethod then [] else [callee]) ++
      (callee.usedArguments isMethod (argumentCallees args)).flatten
  | .dot base _ index _ | .descendant base _ index _ => base.callees ++ index.callees
  | .element _ index _ => index.callees
  | .method receiver call _ => receiver.callees ++ call.callees

/-- The callees in an index. -/
def Index.callees : Index → List Expr
  | .none | .star => []
  | .entry _ expr => expr.callees

/-- The callees in each argument. -/
def argumentCallees : List Expr → List (List Expr)
  | [] => []
  | arg :: rest => arg.callees :: argumentCallees rest

end

/-- The callees in an optional part. -/
def optionalCallees (part : Option Expr) : List Expr := part.elim [] Expr.callees

mutual

/-- The callees in a statement. -/
def Stmt.callees : Stmt → List Expr
  | .function _ _ body _ => stmtsCallees body
  | .var _ init _ => optionalCallees init
  | .expr expr _ => expr.callees
  | .scope body _ => body.callees
  | .branch cond body otherwise _ => cond.callees ++ body.callees ++ otherwise.callees
  | .loop cond body _ => cond.callees ++ body.callees
  | .count _ start stop _ step body _ =>
    start.callees ++ stop.callees ++ optionalCallees step ++ body.callees
  | .each _ collections body _ => (argumentCallees collections).flatten ++ body.callees
  | .leave _ | .skip _ => []

/-- The callees in a block. -/
def Block.callees : Block → List Expr
  | .mk stmts _ => stmtsCallees stmts

/-- The callees in the parts of an `if` behind its first block. -/
def Otherwise.callees : Otherwise → List Expr
  | .nothing => []
  | .last body => body.callees
  | .elseIf cond body rest => cond.callees ++ body.callees ++ rest.callees

/-- The callees in statements. -/
def stmtsCallees : List Stmt → List Expr
  | [] => []
  | stmt :: rest => stmt.callees ++ stmtsCallees rest

end

/-- The callees in a script. -/
def Program.callees (program : Program) : List Expr := stmtsCallees program.stmts

/-! ### The order of their places -/

/-- Whether expressions stand between two offsets, each of them behind or around all that are in
front of it in the list. -/
structure InSourceOrder (lo hi : Nat) (es : List Expr) : Prop where
  inside : ∀ e ∈ es, lo ≤ e.span.start ∧ e.span.stop ≤ hi
  order : es.Pairwise fun a b => a.span.stop ≤ b.span.start ∨
    b.span.start ≤ a.span.start ∧ a.span.stop ≤ b.span.stop

namespace InSourceOrder

variable {lo hi : Nat} {es es' : List Expr}

theorem nil : InSourceOrder lo hi [] := ⟨nofun, .nil⟩

theorem sublist (h : InSourceOrder lo hi es) (hsub : es'.Sublist es) : InSourceOrder lo hi es' :=
  ⟨fun e he => h.inside e (hsub.subset he), h.order.sublist hsub⟩

/-- A callee stands around what is called inside it. -/
theorem concat {e : Expr} (h : InSourceOrder e.span.start e.span.stop es) :
    InSourceOrder e.span.start e.span.stop (es ++ [e]) := by
  refine ⟨List.forall_mem_append.mpr ⟨h.inside, ?_⟩, List.pairwise_append.mpr
    ⟨h.order, List.pairwise_singleton .., ?_⟩⟩
  · intro a ha
    rw [List.mem_singleton.mp ha]
    exact ⟨Nat.le_refl _, Nat.le_refl _⟩
  · intro a ha b hb
    rw [List.mem_singleton.mp hb]
    exact .inr (h.inside a ha)

/-- What is called in parts that stand one after the other stands in their order. -/
theorem flatten {parts : List Span} {lists : List (List Expr)}
    (hlists : List.Forall₂ (fun part es => InSourceOrder part.start part.stop es) parts lists)
    (hinside : ∀ part ∈ parts, lo ≤ part.start ∧ part.stop ≤ hi)
    (hapart : parts.Pairwise fun a b => a.stop ≤ b.start) :
    InSourceOrder lo hi lists.flatten := by
  induction hlists generalizing lo with
  | nil => exact nil
  | @cons part es parts lists hpart _ ih =>
    obtain ⟨⟨hlo, hhi⟩, hmore⟩ := List.forall_mem_cons.mp hinside
    obtain ⟨hbefore, hbetween⟩ := List.pairwise_cons.mp hapart
    have hbehind : InSourceOrder part.stop hi lists.flatten :=
      ih (fun other hother => ⟨hbefore other hother, (hmore other hother).2⟩) hbetween
    rw [List.flatten_cons]
    refine ⟨List.forall_mem_append.mpr ⟨fun e he => ?_, (ih hmore hbetween).inside⟩,
      List.pairwise_append.mpr ⟨hpart.order, hbehind.order, fun a ha b hb => .inl ?_⟩⟩
    · obtain ⟨hstart, hstop⟩ := hpart.inside e he
      exact ⟨Nat.le_trans hlo hstart, Nat.le_trans hstop hhi⟩
    · exact Nat.le_trans (hpart.inside a ha).2 (hbehind.inside b hb).1

end InSourceOrder

variable {text : String} {tokens : List Token}

/-- Whether expressions are made up of those in each of some parts, in order. -/
def InParts (parts : List Span) (es : List Expr) : Prop :=
  ∃ lists, List.Forall₂ (fun part es => InSourceOrder part.start part.stop es) parts lists ∧
    lists.flatten = es

namespace InParts

variable {part : Span} {parts parts' : List Span} {es es' : List Expr}

theorem nil : InParts [] [] := ⟨[], .nil, rfl⟩

theorem append (h : InParts parts es) (h' : InParts parts' es') :
    InParts (parts ++ parts') (es ++ es') := by
  obtain ⟨lists, hlists, rfl⟩ := h
  obtain ⟨lists', hlists', rfl⟩ := h'
  exact ⟨lists ++ lists', List.rel_append hlists hlists', List.flatten_append⟩

theorem cons (h : InSourceOrder part.start part.stop es) (h' : InParts parts es') :
    InParts (part :: parts) (es ++ es') := by
  obtain ⟨lists, hlists, rfl⟩ := h'
  exact ⟨es :: lists, .cons h hlists, List.flatten_cons⟩

theorem single (h : InSourceOrder part.start part.stop es) : InParts [part] es :=
  ⟨[es], .cons h .nil, List.flatten_singleton⟩

end InParts

theorem Span.Holds.inSourceOrder {span : Span} {parts : List Span} {es : List Expr}
    (h : span.Holds text parts) (hes : InParts parts es) :
    InSourceOrder span.start span.stop es := by
  obtain ⟨lists, hlists, rfl⟩ := hes
  exact .flatten hlists h.inside h.apart

/-- No argument is looked at that there is not. -/
theorem Expr.flatten_usedArguments_sublist (callee : Expr) (isMethod : Bool)
    (lists : List (List Expr)) :
    (callee.usedArguments isMethod lists).flatten.Sublist lists.flatten := by
  unfold Expr.usedArguments
  split
  · exact List.Sublist.refl _
  · cases lists with
    | nil => exact List.Sublist.refl _
    | cons first rest => simp

mutual

/-- What is called in an expression stands in order inside it. -/
theorem Expr.inSourceOrder_callees : (e : Expr) → e.Placed text →
    InSourceOrder e.span.start e.span.stop e.callees
  | .null _, _ | .number .., _ | .string .., _ | .identifier .., _ => .nil
  | .unary _ operand _, h => h.1.inSourceOrder (.single (operand.inSourceOrder_callees h.2))
  | .binary _ left right _, h =>
    h.1.inSourceOrder (.cons (left.inSourceOrder_callees h.2.1)
      (.single (right.inSourceOrder_callees h.2.2)))
  | .assign target value _, h =>
    h.1.inSourceOrder (.cons (target.inSourceOrder_callees h.2.1)
      (.single (value.inSourceOrder_callees h.2.2)))
  | .call callee args isMethod _, h => by
    have hcallee := (callee.inSourceOrder_callees h.2.1).concat
    have hall := h.1.inSourceOrder (.cons hcallee (inParts_argumentCallees args h.2.2))
    have hargs := callee.flatten_usedArguments_sublist isMethod (argumentCallees args)
    refine hall.sublist ((List.Sublist.append_left ?_ _).append hargs)
    cases isMethod with
    | true => exact List.nil_sublist _
    | false => exact List.Sublist.refl _
  | .dot base _ index _, h | .descendant base _ index _, h =>
    h.1.inSourceOrder (.cons (base.inSourceOrder_callees h.2.1) (index.inParts_callees h.2.2))
  | .element _ index _, h => h.1.inSourceOrder (index.inParts_callees h.2)
  | .method receiver call _, h =>
    h.1.inSourceOrder (.cons (receiver.inSourceOrder_callees h.2.1)
      (.single (call.inSourceOrder_callees h.2.2)))

theorem Index.inParts_callees : (index : Index) → index.Placed text →
    InParts index.spans index.callees
  | .none, _ | .star, _ => .nil
  | .entry _ expr, h => .single (expr.inSourceOrder_callees h)

theorem inParts_argumentCallees : (args : List Expr) → PlacedArguments text args →
    InParts (args.map Expr.span) (argumentCallees args).flatten
  | [], _ => .nil
  | arg :: rest, h => .cons (arg.inSourceOrder_callees h.1) (inParts_argumentCallees rest h.2)

end

theorem inParts_optionalCallees {part : Option Expr} (h : PlacedOptional text part) :
    InParts (optionalSpans part) (optionalCallees part) := by
  cases part with
  | none => exact .nil
  | some expr => exact .single (expr.inSourceOrder_callees h)

mutual

/-- What is called in a statement stands in order inside it. -/
theorem Stmt.inSourceOrder_callees : (stmt : Stmt) → stmt.Placed text tokens →
    InSourceOrder stmt.span.start stmt.span.stop stmt.callees
  | .function _ _ body _, h => h.1.inSourceOrder (inParts_stmtsCallees body h.2)
  | .var _ _ _, h => h.1.inSourceOrder (inParts_optionalCallees h.2)
  | .expr expr _, h => h.1.inSourceOrder (.single (expr.inSourceOrder_callees h.2))
  | .scope body _, h => h.1.inSourceOrder (.single (body.inSourceOrder_callees h.2))
  | .branch cond body otherwise _, h => by
    obtain ⟨hspan, hcond, hbody, hotherwise⟩ := h
    exact hspan.inSourceOrder (((InParts.single (cond.inSourceOrder_callees hcond)).append
      (.single (body.inSourceOrder_callees hbody))).append (otherwise.inParts_callees hotherwise))
  | .loop cond body _, h =>
    h.1.inSourceOrder (.cons (cond.inSourceOrder_callees h.2.1)
      (.single (body.inSourceOrder_callees h.2.2)))
  | .count _ start stop _ _ body _, h => by
    obtain ⟨hspan, hstart, hstop, hstep, hbody⟩ := h
    have hbounds := (InParts.single (start.inSourceOrder_callees hstart)).append
      (.single (stop.inSourceOrder_callees hstop))
    exact hspan.inSourceOrder (((hbounds.append (inParts_optionalCallees hstep))).append
      (.single (body.inSourceOrder_callees hbody)))
  | .each _ collections body _, h =>
    h.1.inSourceOrder ((inParts_argumentCallees collections h.2.1).append
      (.single (body.inSourceOrder_callees h.2.2)))
  | .leave _, _ | .skip _, _ => .nil

theorem Block.inSourceOrder_callees : (body : Block) → body.Placed text tokens →
    InSourceOrder body.span.start body.span.stop body.callees
  | .mk stmts _, h => h.1.inSourceOrder (inParts_stmtsCallees stmts h.2)

theorem Otherwise.inParts_callees : (rest : Otherwise) → rest.Placed text tokens →
    InParts rest.spans rest.callees
  | .nothing, _ => .nil
  | .last body, h => .single (body.inSourceOrder_callees h)
  | .elseIf cond body rest, h =>
    ((InParts.single (cond.inSourceOrder_callees h.1)).append
      (.single (body.inSourceOrder_callees h.2.1))).append (rest.inParts_callees h.2.2)

theorem inParts_stmtsCallees : (stmts : List Stmt) → PlacedStmts text tokens stmts →
    InParts (stmts.map Stmt.span) (stmtsCallees stmts)
  | [], _ => .nil
  | stmt :: rest, h => .cons (stmt.inSourceOrder_callees h.2.1) (inParts_stmtsCallees rest h.2.2)

end

/-- **What a script calls stands in order.** -/
theorem Program.inSourceOrder_callees {program : Program} (h : program.Placed text tokens) :
    InSourceOrder program.span.start program.span.stop program.callees :=
  h.1.inSourceOrder (inParts_stmtsCallees program.stmts h.2)

end FormCalc
