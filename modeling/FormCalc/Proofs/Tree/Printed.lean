import FormCalc.Proofs.Grammar.Derivation
import FormCalc.Token.Lexeme
import FormCalc.Tree.Cursor

/-!
# Printing trees

A script as text, with a space between the tokens and no more parentheses than needed.

* `Expr.rank`: how tightly an expression binds.  The ranks of binary operators come first,
  then prefix operators, then what accessors and calls may follow.
* `Expr.printed`, `Stmt.printed`: the terminals of a tree.  An operand is put in parentheses
  where it binds less tightly than its place asks for.  Two places ask for more: a call of
  `base.name` would be a method, and a sign at the front of an index would be its mode.
* `Program.print`: the text.

`Expr.Buildable` and `Stmt.Buildable` say which trees can come out of a parser at all.
-/

namespace FormCalc

open Terminal
open FormCalc.Parser (maxLinks maxStatements)

/-! ### Terminals of expressions -/

/-- How tightly an operator between its operands binds. -/
def BinaryOp.rank : BinaryOp → Nat
  | .or => 0
  | .and => 1
  | .eq | .ne => 2
  | .lt | .gt | .le | .ge => 3
  | .add | .sub => 4
  | .mul | .div => 5

/-- How tightly a prefix expression binds. -/
abbrev unaryRank : Nat := 6

/-- How tightly an expression binds that accessors and calls may follow. -/
abbrev suffixRank : Nat := 7

/-- How tightly an expression binds.  Nothing can follow a literal, so it ranks with the
prefix expressions. -/
def Expr.rank : Expr → Nat
  | .assign .. => 0
  | .binary op .. => op.rank
  | .unary .. | .null _ | .number .. | .string .. => unaryRank
  | _ => suffixRank

/-- The sign of an operator. -/
def BinaryOp.sign : BinaryOp → Symbol
  | .or => .bar
  | .and => .ampersand
  | .eq => .equal
  | .ne => .unequal
  | .lt => .less
  | .gt => .greater
  | .le => .lessEqual
  | .ge => .greaterEqual
  | .add => .plus
  | .sub => .minus
  | .mul => .star
  | .div => .slash

/-- Whether an expression is `base.name` with no index, so that a parenthesis right behind it
would make it a method. -/
def Expr.isMember : Expr → Bool
  | .dot _ (.named _) .none _ => true
  | _ => false

/-- Whether terminals begin with a sign that an index would take for its own. -/
def startsWithSign (ts : List Terminal) : Bool :=
  ahead ts .endOfInput = .symbol .plus || ahead ts .endOfInput = .symbol .minus

/-- Terminals, in parentheses if these are needed. -/
def bracketed (needed : Bool) (ts : List Terminal) : List Terminal :=
  if needed then [symbol .leftParen] ++ ts ++ [symbol .rightParen] else ts

/-- What a point selects, with the point. -/
def Member.printed : Member → List Terminal
  | .named name => [symbol .dot, identifier name]
  | .hash name => [symbol .dotHash, identifier name]
  | .star => [symbol .dotStar]
  | .callResult => []

mutual

/-- The terminals of an expression. -/
def Expr.printed : Expr → List Terminal
  | .null _ => [word .kwNull]
  | .number text _ => [⟨.number, text⟩]
  | .string text _ => [⟨.string, text⟩]
  | .identifier name _ => [identifier name]
  | .unary op operand _ => [⟨op.kind, ""⟩] ++ bracketed (operand.rank < unaryRank) operand.printed
  -- Operators of one rank associate to the left, so the right operand must bind tighter.
  | .binary op left right _ =>
    bracketed (left.rank < op.rank) left.printed ++ [symbol op.sign] ++
      bracketed (right.rank ≤ op.rank) right.printed
  | .assign target value _ => target.printed ++ [symbol .assign] ++ value.printed
  | .call callee args _ _ =>
    bracketed (callee.rank < suffixRank || callee.isMember) callee.printed ++
      [symbol .leftParen] ++ printedArguments args ++ [symbol .rightParen]
  | .dot base member index _ =>
    bracketed (base.rank < suffixRank) base.printed ++ member.printed ++ index.printed
  | .element (.named name) index _ => [identifier name] ++ index.printed
  | .element member index _ => member.printed ++ index.printed
  | .descendant base name index _ =>
    bracketed (base.rank < suffixRank) base.printed ++ [symbol .dotDot, identifier name] ++
      index.printed
  | .method receiver call _ =>
    bracketed (receiver.rank < suffixRank) receiver.printed ++ [symbol .dot] ++ call.printed

/-- The terminals of an index. -/
def Index.printed : Index → List Terminal
  | .none => []
  | .star => [symbol .leftBracket, symbol .star, symbol .rightBracket]
  | .entry mode expr =>
    [symbol .leftBracket] ++ mode.sign ++
      bracketed (mode = .absolute && startsWithSign expr.printed) expr.printed ++
        [symbol .rightBracket]

/-- The terminals of arguments, with commas between them. -/
def printedArguments : List Expr → List Terminal
  | [] => []
  | first :: rest => first.printed ++ printedMore rest

/-- The terminals of further arguments, each behind a comma. -/
def printedMore : List Expr → List Terminal
  | [] => []
  | arg :: rest => [symbol .comma] ++ arg.printed ++ printedMore rest

end

/-! ### Terminals of statements -/

/-- The terminals of an expression behind a mark, if there is one. -/
def printedOptional (mark : Kind) : Option Expr → List Terminal
  | none => []
  | some expr => [⟨mark, ""⟩] ++ expr.printed

mutual

/-- The terminals of a statement. -/
def Stmt.printed : Stmt → List Terminal
  | .function name params body _ =>
    [word .kwFunc, identifier name, symbol .leftParen] ++ nameList params ++
      [symbol .rightParen, word .kwDo] ++ printedStmts body ++ [word .kwEndfunc]
  | .var name init _ => [word .kwVar, identifier name] ++ printedOptional (.symbol .assign) init
  | .expr expr _ => expr.printed
  | .scope body _ => [word .kwDo] ++ body.printed ++ [word .kwEnd]
  | .branch cond body otherwise _ =>
    [word .kwIf, symbol .leftParen] ++ cond.printed ++ [symbol .rightParen, word .kwThen] ++
      body.printed ++ otherwise.printed ++ [word .kwEndif]
  | .loop cond body _ =>
    [word .kwWhile, symbol .leftParen] ++ cond.printed ++ [symbol .rightParen, word .kwDo] ++
      body.printed ++ [word .kwEndwhile]
  | .count var start stop direction step body _ =>
    [word .kwFor, identifier var, symbol .assign] ++ start.printed ++ [word direction.keyword] ++
      stop.printed ++ printedOptional (.keyword .kwStep) step ++ [word .kwDo] ++ body.printed ++
        [word .kwEndfor]
  | .each var collections body _ =>
    [word .kwForeach, identifier var, word .kwIn, symbol .leftParen] ++
      printedArguments collections ++ [symbol .rightParen, word .kwDo] ++ body.printed ++
        [word .kwEndfor]
  | .leave _ => [word .kwBreak]
  | .skip _ => [word .kwContinue]

/-- The terminals of a block. -/
def Block.printed : Block → List Terminal
  | .mk stmts _ => printedStmts stmts

/-- The terminals of the parts of an `if` behind its first block. -/
def Otherwise.printed : Otherwise → List Terminal
  | .nothing => []
  | .last body => [word .kwElse] ++ body.printed
  | .elseIf cond body rest =>
    [word .kwElseif, symbol .leftParen] ++ cond.printed ++ [symbol .rightParen, word .kwThen] ++
      body.printed ++ rest.printed

/-- The terminals of statements, one after the other. -/
def printedStmts : List Stmt → List Terminal
  | [] => []
  | stmt :: rest => stmt.printed ++ printedStmts rest

end

/-! ### Text -/

/-- How a terminal is written. -/
def Terminal.spelling (t : Terminal) : String :=
  match t.kind with
  | .symbol s => s.text
  | .keyword k => k.text
  | _ => t.text

/-- Texts with a space between them. -/
def spaced : List String → String
  | [] => ""
  | [text] => text
  | text :: rest => text ++ " " ++ spaced rest

/-- The text of a script. -/
def Program.print (program : Program) : String :=
  spaced ((printedStmts program.stmts).map Terminal.spelling)

/-! ### Trees that a parser can build -/

/-- Whether a text is one lexeme of this kind. -/
def IsLexeme (kind : Kind) (text : String) : Prop :=
  ∃ c cs, text.toList = c :: cs ∧ Lexeme.read c cs = ⟨c :: cs, [], .ok kind⟩

/-- Whether a text is a name: an identifier that is no keyword. -/
abbrev IsName (text : String) : Prop := IsLexeme .identifier text

/-- The number of accessors and calls in a row at the end of an expression, back to a name or
to parentheses. -/
def Expr.links : Expr → Nat
  | .call callee _ _ _ => (if callee.isMember then 0 else callee.links) + 1
  -- The index belongs to the call in front of it.
  | .dot base .callResult _ _ => base.links
  | .dot base _ _ _ => base.links + 1
  | .descendant base _ _ _ => base.links + 1
  | .method receiver _ _ => receiver.links + 1
  | _ => 0

/-- Whether an expression is a call, to which an index can belong. -/
def Expr.isCall : Expr → Bool
  | .call .. | .method .. => true
  | _ => false

/-- Whether there are no brackets. -/
def Index.isNone : Index → Bool
  | .none => true
  | _ => false

mutual

/-- Whether a parser can build an expression: it holds lexemes where there is text, no
assignment, method calls only as the second half of `method`, and indexes only behind names
and calls.  Its lists and chains stay within the limits. -/
def Expr.Buildable : Expr → Prop
  | .null _ => True
  | .number text _ => IsLexeme .number text
  | .string text _ => IsLexeme .string text
  | .identifier name _ => IsName name
  | .unary _ operand _ => operand.Buildable
  | .binary _ left right _ => left.Buildable ∧ right.Buildable
  | .assign .. => False
  | .call callee args isMethod _ =>
    isMethod = false ∧ callee.Buildable ∧
      (if callee.isMember then 0 else callee.links) + 1 < maxLinks ∧
        BuildableArguments args ∧ args.length ≤ maxLinks
  | .dot base member index _ =>
    base.Buildable ∧ index.Buildable ∧
      match member with
      | .named name | .hash name => IsName name ∧ base.links + 1 < maxLinks
      | .star => index.isNone = true ∧ base.links + 1 < maxLinks
      | .callResult => base.isCall = true ∧ index.isNone = false
  | .element member index _ =>
    index.Buildable ∧ index.isNone = false ∧
      match member with
      | .named name => IsName name
      | _ => False
  | .descendant base name index _ =>
    base.Buildable ∧ index.Buildable ∧ IsName name ∧ base.links + 1 < maxLinks
  | .method receiver call _ =>
    receiver.Buildable ∧ receiver.links + 1 < maxLinks ∧ call.BuildableMethod

/-- Whether an expression is the second half of a method call. -/
def Expr.BuildableMethod : Expr → Prop
  | .call (.identifier name _) args isMethod _ =>
    isMethod = true ∧ IsName name ∧ BuildableArguments args ∧ args.length ≤ maxLinks
  | _ => False

/-- Whether a parser can build an index. -/
def Index.Buildable : Index → Prop
  | .none | .star => True
  | .entry _ expr => expr.Buildable

/-- Whether a parser can build each argument. -/
def BuildableArguments : List Expr → Prop
  | [] => True
  | arg :: rest => arg.Buildable ∧ BuildableArguments rest

end

/-- Whether a parser can build an expression as a statement: only there can it be an
assignment. -/
def Expr.BuildableStatement : Expr → Prop
  | .assign target value _ => target.Buildable ∧ value.Buildable
  | expr => expr.Buildable

/-- Whether a parser can build an optional part. -/
def BuildableOptional : Option Expr → Prop
  | none => True
  | some expr => expr.Buildable

mutual

/-- Whether a parser can build a statement. -/
def Stmt.Buildable : Stmt → Prop
  | .function name params body _ =>
    IsName name ∧ (∀ param ∈ params, IsName param) ∧ BuildableStmts body ∧
      body.length ≤ maxStatements
  | .var name init _ => IsName name ∧ BuildableOptional init
  | .expr expr _ => expr.BuildableStatement
  | .scope body _ => body.Buildable
  | .branch cond body otherwise _ => cond.Buildable ∧ body.Buildable ∧ otherwise.Buildable
  | .loop cond body _ => cond.Buildable ∧ body.Buildable
  | .count var start stop _ step body _ =>
    IsName var ∧ start.Buildable ∧ stop.Buildable ∧ BuildableOptional step ∧ body.Buildable
  | .each var collections body _ =>
    IsName var ∧ collections ≠ [] ∧ BuildableArguments collections ∧
      collections.length ≤ maxLinks ∧ body.Buildable
  | .leave _ | .skip _ => True

/-- Whether a parser can build a block. -/
def Block.Buildable : Block → Prop
  | .mk stmts _ => BuildableStmts stmts ∧ stmts.length ≤ maxStatements

/-- Whether a parser can build the parts of an `if` behind its first block. -/
def Otherwise.Buildable : Otherwise → Prop
  | .nothing => True
  | .last body => body.Buildable
  | .elseIf cond body rest => cond.Buildable ∧ body.Buildable ∧ rest.Buildable

/-- Whether a parser can build each statement. -/
def BuildableStmts : List Stmt → Prop
  | [] => True
  | stmt :: rest => stmt.Buildable ∧ BuildableStmts rest

end

/-- Whether a parser can build a script. -/
def Program.Buildable (program : Program) : Prop :=
  BuildableStmts program.stmts ∧ program.stmts.length ≤ maxStatements

/-! ### Statements that stay apart -/

/-- Whether a statement ends with an expression, which the next token might continue. -/
def Stmt.isOpen : Stmt → Bool
  | .expr .. => true
  | .var _ init _ => init.isSome
  | _ => false

/-- Whether a token that begins a statement continues an expression in front of it. -/
def Kind.continues (kind : Kind) : Bool :=
  kind = .symbol .leftParen || kind = .symbol .plus || kind = .symbol .minus

mutual

/-- Whether no statement inside this one runs into the next. -/
def Stmt.Apart : Stmt → Prop
  | .function _ _ body _ => ApartStmts body
  | .scope body _ => body.Apart
  | .branch _ body otherwise _ => body.Apart ∧ otherwise.Apart
  | .loop _ body _ => body.Apart
  | .count _ _ _ _ _ body _ => body.Apart
  | .each _ _ body _ => body.Apart
  | .var .. | .expr .. | .leave _ | .skip _ => True

/-- Whether no statement of a block runs into the next. -/
def Block.Apart : Block → Prop
  | .mk stmts _ => ApartStmts stmts

/-- Whether no statement behind the first block of an `if` runs into the next. -/
def Otherwise.Apart : Otherwise → Prop
  | .nothing => True
  | .last body => body.Apart
  | .elseIf _ body rest => body.Apart ∧ rest.Apart

/-- Whether no statement of a list runs into the next: behind one that ends with an
expression comes none that begins with a parenthesis or a sign. -/
def ApartStmts : List Stmt → Prop
  | [] => True
  | stmt :: rest =>
    stmt.Apart ∧ ApartStmts rest ∧
      (stmt.isOpen = true → (ahead (printedStmts rest) .endOfInput).continues = false)

end

/-- Whether no statement of a script runs into the next. -/
def Program.Apart (program : Program) : Prop := ApartStmts program.stmts

end FormCalc
