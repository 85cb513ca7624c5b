import FormCalc.Token.Lexer
import FormCalc.Tree.Basic

/-!
# Reading trees off tokens

A parser looks at one token at a time.  Its state is a cursor: the token at hand, what
the lexer gives after it, and the span of the token that was consumed last.  The first
mismatch ends it with a fault; there is no way back.

* `advance`, `expect`, `accept`: the ways to consume a token.
* `spanFrom`: the span from a remembered start up to the token consumed last.
* `statementsUpTo`, `arguments`, `chain`, `eachAfter`: the loops of the grammar, each over
  a parser for one round.  The first three carry the limit on their rounds.
-/

namespace FormCalc

/-- Why tokens form no script. -/
inductive GrammarCause where
  /-- There is no token to read. -/
  | lexical (cause : LexicalCause)
  | unexpectedToken (expected found : Kind)
  | expectedExpression (found : Kind)
  | emptyParens
  | tooDeep (limit : Nat)
  | tooManyArguments (limit : Nat)
  | chainTooLong (limit : Nat)
  | tooManyExpressions (limit : Nat)
  | trailingInput (found : Kind)
  deriving DecidableEq, Repr

/-- Where a parser stands. -/
structure Cursor where
  /-- The token at hand. -/
  current : Token
  /-- What the lexer gives after it. -/
  rest : List (Except (Fault LexicalCause) Token)
  /-- The span of the token consumed last. -/
  before : Span

/-- The cursor in front of the first token. -/
def Cursor.start (pulls : List (Except (Fault LexicalCause) Token)) : Cursor :=
  ⟨⟨.endOfInput, "", .origin⟩, pulls, .origin⟩

/-- A parser: what it reads and the cursor behind it, or a fault. -/
abbrev Parser := StateT Cursor (Except (Fault GrammarCause))

namespace Parser

/-! ### Tokens -/

/-- Ends with a fault. -/
def fail {α : Type} (cause : GrammarCause) (span : Span) : Parser α := throw ⟨cause, span⟩

/-- The token at hand. -/
def current : Parser Token := return (← get).current

/-- The kind of the token at hand. -/
def peek : Parser Kind := return (← get).current.kind

/-- Consumes the token at hand and gives it back.  The end mark is the last token, so
there is nothing to put at hand in its place. -/
def advance : Parser Token := fun cursor =>
  match cursor.rest with
  | [] => .error ⟨.expectedExpression .invalid, cursor.current.span⟩
  | .ok next :: rest => .ok (cursor.current, ⟨next, rest, cursor.current.span⟩)
  | .error fault :: _ => .error (fault.map .lexical)

/-- Consumes a token that must be of this kind. -/
def expect (kind : Kind) : Parser Token := do
  let token ← current
  if token.kind = kind then advance
  else fail (.unexpectedToken kind token.kind) token.span

/-- Consumes the token at hand if it is of this kind, and tells whether it was. -/
def accept (kind : Kind) : Parser Bool := do
  if (← peek) = kind then
    let _ ← advance
    return true
  else return false

/-- Consumes a symbol. -/
def symbol (s : Symbol) : Parser Unit := do let _ ← expect (.symbol s)

/-- Consumes a keyword. -/
def word (k : Keyword) : Parser Unit := do let _ ← expect (.keyword k)

/-- Consumes an identifier and gives its name. -/
def name : Parser String := return (← expect .identifier).text

/-! ### Spans -/

/-- The offset at which the token at hand starts. -/
def here : Parser Nat := return (← current).span.start

/-- The span from `start` to the end of the token consumed last. -/
def spanFrom (start : Nat) : Parser Span :=
  return ⟨start, max (← get).before.stop start⟩

/-! ### Limits -/

/-- Ends because the productions nest too deeply. -/
def tooDeep {α : Type} (limit : Nat) : Parser α := do
  fail (.tooDeep limit) (← current).span

/-- The most statements that one list may hold. -/
def maxStatements : Nat := 10000

/-- The most arguments that one list may hold, and the length that no chain of accessors
and calls reaches. -/
def maxLinks : Nat := 256

/-! ### Loops -/

/-- Statements up to a token that closes their list; `left` of them may come.  One too
many is read before it is refused. -/
def statementsUpTo (item : Parser Stmt) : Nat → Parser (List Stmt)
  | 0 => do
    if (← peek).endsList then return []
    fail (.tooManyExpressions maxStatements) (← item).span
  | left + 1 => do
    if (← peek).endsList then return []
    let first ← item
    return first :: (← statementsUpTo item left)

/-- Arguments up to the closing parenthesis; `left` of them may come, and `separator`
stands in front of the first.  One too many is read before it is refused. -/
def argumentsUpTo (item : Parser Expr) : Nat → Parser Unit → Parser (List Expr)
  | 0, separator => do
    if (← peek) = .symbol .rightParen then return []
    separator
    fail (.tooManyArguments maxLinks) (← item).span
  | left + 1, separator => do
    if (← peek) = .symbol .rightParen then return []
    separator
    let first ← item
    return first :: (← argumentsUpTo item left (symbol .comma))

/-- `( a, b, c )`, which may be empty. -/
def arguments (item : Parser Expr) : Parser (List Expr) := do
  symbol .leftParen
  let args ← argumentsUpTo item maxLinks (pure ())
  symbol .rightParen
  return args

/-- Extends an expression by one link after another until there is none.  Every try is
counted, also the last one, which finds no link. -/
def chain (link : Expr → Parser (Option Expr)) : Nat → Expr → Parser Expr
  | 0, _ => do fail (.chainTooLong maxLinks) (← current).span
  | left + 1, expr => do
    match ← link expr with
    | none => return expr
    | some longer => chain link left longer

/-- Rounds of `item`, each behind a `mark` token, as long as there are marks. -/
def roundsAfter {α : Type} (mark : Kind) (item : Parser α) : Nat → Parser (List α)
  | 0 => return []
  | left + 1 => do
    if ← accept mark then
      let first ← item
      return first :: (← roundsAfter mark item left)
    else return []

/-- As many rounds of `item` as there are `mark` tokens in front of them.  Each round
consumes a token, so the tokens left bound the number of rounds. -/
def eachAfter {α : Type} (mark : Kind) (item : Parser α) : Parser (List α) := do
  roundsAfter mark item (← get).rest.length

end Parser

end FormCalc
