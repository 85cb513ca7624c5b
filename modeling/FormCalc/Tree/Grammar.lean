import FormCalc.Tree.Production

/-!
# The grammar

The productions tied together.  Every one of them opens a level of nesting, and the
levels are bounded: a production is given the `room` for the levels that may still be
opened, opens one of them for itself, and hands what is left to its parts.  Where there
is no room it fails, with the token at hand to blame.  Each operator of a binary layer
takes a level of its own too, so that long flat chains are bounded as well as deep ones.

* `Grammar.statements`, …: the productions, all of them by recursion on the room.
* `Program.parse`: a whole script.
-/

namespace FormCalc

namespace Grammar

open FormCalc.Parser

mutual

/-- A list of statements, up to a token that closes it. -/
def statements (limit : Nat) : Nat → Parser (List Stmt)
  | 0 => tooDeep limit
  | room + 1 => statementsUpTo (do
      if (← peek) = .keyword .kwFunc then function limit room
      else statement limit room) maxStatements

/-- The definition of a function. -/
def function (limit : Nat) : Nat → Parser Stmt
  | 0 => tooDeep limit
  | room + 1 => Production.function (statements limit room)

/-- A statement that is no definition of a function. -/
def statement (limit : Nat) : Nat → Parser Stmt
  | 0 => tooDeep limit
  | room + 1 => do
    let token ← current
    match token.kind with
    | .keyword .kwVar => var limit room
    | .keyword .kwIf => branch limit room
    | .keyword .kwWhile => loop limit room
    | .keyword .kwFor => count limit room
    | .keyword .kwForeach => each limit room
    | .keyword .kwDo => scope limit room
    | .keyword .kwBreak => Production.single .leave
    | .keyword .kwContinue => Production.single .skip
    | found =>
      if found.startsExpression then assignment limit room
      else fail (.expectedExpression found) token.span

/-- The declaration of a variable. -/
def var (limit : Nat) : Nat → Parser Stmt
  | 0 => tooDeep limit
  | room + 1 => Production.var (binary limit .logicalOr room)

/-- An expression or an assignment. -/
def assignment (limit : Nat) : Nat → Parser Stmt
  | 0 => tooDeep limit
  | room + 1 => Production.assignment (binary limit .logicalOr room)

/-- A choice between blocks. -/
def branch (limit : Nat) : Nat → Parser Stmt
  | 0 => tooDeep limit
  | room + 1 =>
    Production.branch (parenthesized limit room) (Production.block (statements limit room))

/-- A loop under a condition. -/
def loop (limit : Nat) : Nat → Parser Stmt
  | 0 => tooDeep limit
  | room + 1 =>
    Production.loop (parenthesized limit room) (Production.block (statements limit room))

/-- A counting loop. -/
def count (limit : Nat) : Nat → Parser Stmt
  | 0 => tooDeep limit
  | room + 1 =>
    Production.count (binary limit .logicalOr room) (Production.block (statements limit room))

/-- A loop over collections. -/
def each (limit : Nat) : Nat → Parser Stmt
  | 0 => tooDeep limit
  | room + 1 =>
    Production.each (binary limit .logicalOr room) (Production.block (statements limit room))

/-- A block on its own. -/
def scope (limit : Nat) : Nat → Parser Stmt
  | 0 => tooDeep limit
  | room + 1 => Production.scope (Production.block (statements limit room))

/-- An expression of one layer of binary operators.  The loosest layer is the whole of
the simple expressions. -/
def binary (limit : Nat) (layer : Layer) : Nat → Parser Expr
  | 0 => tooDeep limit
  | room + 1 => do
    let start ← here
    let first ← Production.operand layer (fun layer => binary limit layer room)
      (unary limit room)
    operations limit layer start room first

/-- The operators of a layer behind their left operand, and the operands behind them. -/
def operations (limit : Nat) (layer : Layer) (start : Nat) : Nat → Expr → Parser Expr
  | 0, left => do
    match layer.operator? (← peek) with
    | none => return left
    | some _ => tooDeep limit
  | room + 1, left => do
    match layer.operator? (← peek) with
    | none => return left
    | some op =>
      let _ ← advance
      let right ← Production.operand layer (fun layer => binary limit layer room)
        (unary limit room)
      operations limit layer start room (.binary op left right (← spanFrom start))

/-- Prefix operators in front of a primary expression. -/
def unary (limit : Nat) : Nat → Parser Expr
  | 0 => tooDeep limit
  | room + 1 => Production.unary (unary limit room) (primary limit room)

/-- A literal, or an identifier or parenthesized expression with its suffixes. -/
def primary (limit : Nat) : Nat → Parser Expr
  | 0 => tooDeep limit
  | room + 1 =>
    Production.primary (index limit room) (parenthesized limit room) (suffixes limit room)

/-- An expression in parentheses. -/
def parenthesized (limit : Nat) : Nat → Parser Expr
  | 0 => tooDeep limit
  | room + 1 => Production.parenthesized (binary limit .logicalOr room)

/-- The accessors and calls behind an expression. -/
def suffixes (limit : Nat) : Nat → Expr → Parser Expr
  | 0, _ => tooDeep limit
  | room + 1, base =>
    chain (Production.suffix (binary limit .logicalOr room) (index limit room)) maxLinks base

/-- An index in brackets. -/
def index (limit : Nat) : Nat → Parser Index
  | 0 => tooDeep limit
  | room + 1 => Production.index (binary limit .logicalOr room)

end

/-- A script of `length` bytes: a list of statements with nothing behind it.  A word that
ends the input does so only at the end of the text. -/
def script (limit length : Nat) : Parser Program := do
  let _ ← advance
  let stmts ← statements limit (limit - 1)
  let token ← current
  if token.kind = .endOfInput ∧ length ≤ token.span.stop then
    return ⟨stmts, ⟨0, length⟩⟩
  else fail (.trailingInput token.kind) token.span

end Grammar

/-- The bound on the depth of productions, unless the caller asks for another. -/
def defaultParseDepth : Nat := 1250

/-- The tree of a script, or the first fault in it.  Productions nest fewer than
`maxDepth` levels deep. -/
def Program.parse (maxDepth : Nat) (text : String) : Except (Fault GrammarCause) Program :=
  (Grammar.script maxDepth text.utf8ByteSize (Cursor.start (Lexer.ofText text).pulls)).map (·.1)

end FormCalc
