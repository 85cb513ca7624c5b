import FormCalc.Text.Span
import FormCalc.Tree.Operator

/-!
# Trees

A script is a list of statements, and statements hold expressions.  Every expression,
statement and block ends with the span of the script that it was read from.  Names,
numbers and strings keep their source text, strings with both quotes.
-/

namespace FormCalc

/-! ### Expressions -/

/-- What a point selects. -/
inductive Member where
  /-- `.name` -/
  | named (name : String)
  /-- `.#name` -/
  | hash (name : String)
  /-- `.*` -/
  | star
  /-- Nothing: an index stands right behind a call. -/
  | callResult
  deriving DecidableEq, Repr

/-- From where an index counts. -/
inductive IndexMode where
  /-- `[e]`: from the start. -/
  | absolute
  /-- `[+e]`: forward from here. -/
  | forward
  /-- `[-e]`: backward from here. -/
  | backward
  deriving DecidableEq, Repr

mutual

/-- An expression. -/
inductive Expr where
  | null (span : Span)
  | number (text : String) (span : Span)
  | string (text : String) (span : Span)
  | identifier (name : String) (span : Span)
  | unary (op : UnaryOp) (operand : Expr) (span : Span)
  | binary (op : BinaryOp) (left right : Expr) (span : Span)
  /-- `target = value`.  Scripts have it only as a statement. -/
  | assign (target value : Expr) (span : Span)
  /-- `callee(args)`.  Method calls occur only as the second half of `method`. -/
  | call (callee : Expr) (args : List Expr) (isMethod : Bool) (span : Span)
  /-- `base.member[index]` -/
  | dot (base : Expr) (member : Member) (index : Index) (span : Span)
  /-- `member[index]` with nothing in front. -/
  | element (member : Member) (index : Index) (span : Span)
  /-- `base..name[index]` -/
  | descendant (base : Expr) (name : String) (index : Index) (span : Span)
  /-- `receiver.method(args)`, with the method call as the second half. -/
  | method (receiver call : Expr) (span : Span)

/-- The index behind an accessor. -/
inductive Index where
  /-- No brackets. -/
  | none
  /-- `[*]` -/
  | star
  /-- An expression in brackets. -/
  | entry (mode : IndexMode) (expr : Expr)

end

namespace Expr

/-- The span an expression was read from. -/
def span : Expr → Span
  | .null span | .number _ span | .string _ span | .identifier _ span => span
  | .unary _ _ span | .binary _ _ _ span | .assign _ _ span | .call _ _ _ span => span
  | .dot _ _ _ span | .element _ _ span | .descendant _ _ _ span | .method _ _ span => span

/-- Whether the value is a reference into the form, to be read before it is kept. -/
def isAccessor : Expr → Bool
  | .dot _ member _ _ | .element member _ _ => member != .callResult
  | .descendant .. | .method .. => true
  | _ => false

/-- The name of a bare identifier. -/
def identifier? : Expr → Option String
  | .identifier name _ => some name
  | _ => none

end Expr

/-! ### Statements -/

/-- Which way a counting loop goes. -/
inductive Direction where
  | upto | downto
  deriving DecidableEq, Repr

mutual

/-- A statement. -/
inductive Stmt where
  /-- `func name(params) do body endfunc` -/
  | function (name : String) (params : List String) (body : List Stmt) (span : Span)
  /-- `var name`, with or without a first value. -/
  | var (name : String) (init : Option Expr) (span : Span)
  /-- An expression or an assignment. -/
  | expr (expr : Expr) (span : Span)
  /-- `do body end` -/
  | scope (body : Block) (span : Span)
  /-- `if (cond) then body`, and what comes behind it up to `endif`. -/
  | branch (cond : Expr) (body : Block) (otherwise : Otherwise) (span : Span)
  /-- `while (cond) do body endwhile` -/
  | loop (cond : Expr) (body : Block) (span : Span)
  /-- `for var = start upto stop step step do body endfor` -/
  | count (var : String) (start stop : Expr) (direction : Direction) (step : Option Expr)
      (body : Block) (span : Span)
  /-- `foreach var in (collections) do body endfor` -/
  | each (var : String) (collections : List Expr) (body : Block) (span : Span)
  /-- `break` -/
  | leave (span : Span)
  /-- `continue` -/
  | skip (span : Span)

/-- The statements of a block. -/
inductive Block where
  | mk (stmts : List Stmt) (span : Span)

/-- The parts of an `if` behind its first block. -/
inductive Otherwise where
  /-- Nothing more. -/
  | nothing
  /-- `else body` -/
  | last (body : Block)
  /-- `elseif (cond) then body` and what is behind it. -/
  | elseIf (cond : Expr) (body : Block) (rest : Otherwise)

end

/-- The span a block was read from. -/
def Block.span : Block → Span
  | .mk _ span => span

/-- The statements of a block. -/
def Block.stmts : Block → List Stmt
  | .mk stmts _ => stmts

/-- The span a statement was read from. -/
def Stmt.span : Stmt → Span
  | .function _ _ _ span | .var _ _ span | .expr _ span | .scope _ span => span
  | .branch _ _ _ span | .loop _ _ span | .count _ _ _ _ _ _ span => span
  | .each _ _ _ span | .leave span | .skip span => span

/-! ### Programs -/

/-- A whole script. -/
structure Program where
  stmts : List Stmt
  span : Span

/-- Whether a script has no statement. -/
def Program.isEmpty (program : Program) : Bool := program.stmts.isEmpty

end FormCalc
