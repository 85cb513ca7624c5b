import FormCalc.Tree.Basic

/-!
# Trees apart from their places

Two trees are the same apart from spans when they agree once every span in them has been
forgotten.  `Expr.bare`, `Stmt.bare` and `Program.bare` forget them all: each becomes the
empty span at the start of the text.
-/

namespace FormCalc

mutual

/-- An expression without its spans. -/
def Expr.bare : Expr → Expr
  | .null _ => .null .origin
  | .number text _ => .number text .origin
  | .string text _ => .string text .origin
  | .identifier name _ => .identifier name .origin
  | .unary op operand _ => .unary op operand.bare .origin
  | .binary op left right _ => .binary op left.bare right.bare .origin
  | .assign target value _ => .assign target.bare value.bare .origin
  | .call callee args isMethod _ => .call callee.bare (bareArguments args) isMethod .origin
  | .dot base member index _ => .dot base.bare member index.bare .origin
  | .element member index _ => .element member index.bare .origin
  | .descendant base name index _ => .descendant base.bare name index.bare .origin
  | .method receiver call _ => .method receiver.bare call.bare .origin

/-- An index without the spans in it. -/
def Index.bare : Index → Index
  | .none => .none
  | .star => .star
  | .entry mode expr => .entry mode expr.bare

/-- Arguments without their spans. -/
def bareArguments : List Expr → List Expr
  | [] => []
  | arg :: rest => arg.bare :: bareArguments rest

end

mutual

/-- A statement without its spans. -/
def Stmt.bare : Stmt → Stmt
  | .function name params body _ => .function name params (bareStmts body) .origin
  | .var name init _ => .var name (init.map Expr.bare) .origin
  | .expr expr _ => .expr expr.bare .origin
  | .scope body _ => .scope body.bare .origin
  | .branch cond body otherwise _ => .branch cond.bare body.bare otherwise.bare .origin
  | .loop cond body _ => .loop cond.bare body.bare .origin
  | .count var start stop direction step body _ =>
    .count var start.bare stop.bare direction (step.map Expr.bare) body.bare .origin
  | .each var collections body _ => .each var (bareArguments collections) body.bare .origin
  | .leave _ => .leave .origin
  | .skip _ => .skip .origin

/-- A block without its spans. -/
def Block.bare : Block → Block
  | .mk stmts _ => .mk (bareStmts stmts) .origin

/-- The parts of an `if` behind its first block, without their spans. -/
def Otherwise.bare : Otherwise → Otherwise
  | .nothing => .nothing
  | .last body => .last body.bare
  | .elseIf cond body rest => .elseIf cond.bare body.bare rest.bare

/-- Statements without their spans. -/
def bareStmts : List Stmt → List Stmt
  | [] => []
  | stmt :: rest => stmt.bare :: bareStmts rest

end

/-- A script without its spans. -/
def Program.bare (program : Program) : Program := ⟨bareStmts program.stmts, .origin⟩

end FormCalc
