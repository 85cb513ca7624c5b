import FormCalc.Proofs.Tree.Callees

/-!
# The references of a script

Where a script refers to a variable or an object by a bare name, apart from any text.  A callee
names a built-in function or a method and is no reference, and what a point selects is none either.

* `Expr.references`: the references in an expression, each with whether it stands in an argument of
  a method call.
* `Stmt.exprs`, `Program.exprs`: the expressions that stand in statements.
-/

namespace FormCalc

/-- A bare name in an expression. -/
structure Reference where
  name : String
  span : Span
  /-- Whether it stands in an argument of a method call, at any depth. -/
  inMethod : Bool
  deriving DecidableEq, Repr

/-! ### Expressions -/

mutual

/-- The references in an expression.  `inMethod` tells whether the expression stands in an argument
of a method call. -/
def Expr.references (inMethod : Bool) : Expr → List Reference
  | .null _ | .number .. | .string .. => []
  | .identifier name span => [⟨name, span, inMethod⟩]
  | .unary _ operand _ => operand.references inMethod
  | .binary _ left right _ => left.references inMethod ++ right.references inMethod
  | .assign target value _ => target.references inMethod ++ value.references inMethod
  | .call callee args isMethod _ =>
    (callee.usedArguments isMethod (argumentReferences (inMethod || isMethod) args)).flatten
  | .dot base _ index _ | .descendant base _ index _ =>
    base.references inMethod ++ index.references inMethod
  | .element _ index _ => index.references inMethod
  | .method receiver call _ => receiver.references inMethod ++ call.references inMethod

/-- The references in an index. -/
def Index.references (inMethod : Bool) : Index → List Reference
  | .none | .star => []
  | .entry _ expr => expr.references inMethod

/-- The references in each argument. -/
def argumentReferences (inMethod : Bool) : List Expr → List (List Reference)
  | [] => []
  | arg :: rest => arg.references inMethod :: argumentReferences inMethod rest

end

/-! ### Statements -/

/-- The expressions of one that stands as a statement: an assignment has two. -/
def Expr.sides : Expr → List Expr
  | .assign target value _ => [target, value]
  | expr => [expr]

mutual

/-- The expressions that stand in a statement, those of the statements in it among them. -/
def Stmt.exprs : Stmt → List Expr
  | .function _ _ body _ => stmtsExprs body
  | .var _ init _ => init.toList
  | .expr expr _ => expr.sides
  | .scope body _ => body.exprs
  | .branch cond body otherwise _ => cond :: body.exprs ++ otherwise.exprs
  | .loop cond body _ => cond :: body.exprs
  | .count _ start stop _ step body _ => start :: stop :: step.toList ++ body.exprs
  | .each _ collections body _ => collections ++ body.exprs
  | .leave _ | .skip _ => []

/-- The expressions that stand in a block. -/
def Block.exprs : Block → List Expr
  | .mk stmts _ => stmtsExprs stmts

/-- The expressions that stand in the parts of an `if` behind its first block. -/
def Otherwise.exprs : Otherwise → List Expr
  | .nothing => []
  | .last body => body.exprs
  | .elseIf cond body rest => cond :: body.exprs ++ rest.exprs

/-- The expressions that stand in statements. -/
def stmtsExprs : List Stmt → List Expr
  | [] => []
  | stmt :: rest => stmt.exprs ++ stmtsExprs rest

end

/-- The expressions that stand in the statements of a script. -/
def Program.exprs (program : Program) : List Expr := stmtsExprs program.stmts

end FormCalc
