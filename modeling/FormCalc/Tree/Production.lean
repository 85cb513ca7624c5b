import FormCalc.Tree.Cursor

/-!
# Productions

The rules of the grammar, one at a time.  A rule takes the parsers of its parts as
arguments, so nothing here is recursive; `FormCalc.Tree.Grammar` ties the rules together
and counts how deeply they nest.

Where a rule has a choice it goes by the token at hand, and an optional or repeated part
is read whenever that token can start it.
-/

namespace FormCalc.Production

open FormCalc.Parser

/-! ### Statements -/

/-- A list of statements with the span around it.  The span of an empty list is empty. -/
def block (list : Parser (List Stmt)) : Parser Block := do
  let start ← here
  let stmts ← list
  return .mk stmts (← spanFrom start)

/-- The parameters of a function: names with commas between them, or none. -/
def parameters : Parser (List String) := do
  if (← peek) = .symbol .rightParen then return []
  let first ← name
  return first :: (← eachAfter (.symbol .comma) name)

/-- `func name(a, b) do … endfunc` -/
def function (body : Parser (List Stmt)) : Parser Stmt := do
  let start ← here
  word .kwFunc
  let name ← name
  symbol .leftParen
  let params ← parameters
  symbol .rightParen
  word .kwDo
  let body ← body
  word .kwEndfunc
  return .function name params body (← spanFrom start)

/-- An expression behind a mark, if the mark is there. -/
def optional (mark : Kind) (value : Parser Expr) : Parser (Option Expr) := do
  if ← accept mark then return some (← value) else return none

/-- `var name` or `var name = value` -/
def var (value : Parser Expr) : Parser Stmt := do
  let start ← here
  word .kwVar
  let name ← name
  let init ← optional (.symbol .assign) value
  return .var name init (← spanFrom start)

/-- An expression, or `target = value`.  The value is no assignment, so a second `=` is
left behind. -/
def assignment (value : Parser Expr) : Parser Stmt := do
  let start ← here
  let target ← value
  if ← accept (.symbol .assign) then
    let value ← value
    let span ← spanFrom start
    return .expr (.assign target value span) span
  else return .expr target (← spanFrom start)

/-- The parts of an `if` behind its first block, from the `elseif` arms and the block
behind `else`. -/
def otherwise (last : Option Block) : List (Expr × Block) → Otherwise
  | [] => match last with
    | none => .nothing
    | some body => .last body
  | (cond, body) :: arms => .elseIf cond body (otherwise last arms)

/-- `(cond) then …` -/
def arm (cond : Parser Expr) (body : Parser Block) : Parser (Expr × Block) := do
  let cond ← cond
  word .kwThen
  return (cond, ← body)

/-- `if (cond) then … elseif (cond) then … else … endif` -/
def branch (cond : Parser Expr) (body : Parser Block) : Parser Stmt := do
  let start ← here
  word .kwIf
  let first ← arm cond body
  let arms ← eachAfter (.keyword .kwElseif) (arm cond body)
  let last ← if ← accept (.keyword .kwElse) then pure (some (← body)) else pure none
  word .kwEndif
  return .branch first.1 first.2 (otherwise last arms) (← spanFrom start)

/-- `while (cond) do … endwhile` -/
def loop (cond : Parser Expr) (body : Parser Block) : Parser Stmt := do
  let start ← here
  word .kwWhile
  let cond ← cond
  word .kwDo
  let body ← body
  word .kwEndwhile
  return .loop cond body (← spanFrom start)

/-- `upto` or `downto` -/
def direction : Parser Direction := do
  let token ← current
  match token.kind with
  | .keyword .kwUpto =>
    let _ ← advance
    return .upto
  | .keyword .kwDownto =>
    let _ ← advance
    return .downto
  | found => fail (.unexpectedToken (.keyword .kwUpto) found) token.span

/-- `for name = start upto stop step step do … endfor` -/
def count (value : Parser Expr) (body : Parser Block) : Parser Stmt := do
  let start ← here
  word .kwFor
  let name ← name
  symbol .assign
  let first ← value
  let direction ← direction
  let final ← value
  let step ← optional (.keyword .kwStep) value
  word .kwDo
  let body ← body
  word .kwEndfor
  return .count name first final direction step body (← spanFrom start)

/-- `foreach name in (a, b) do … endfor`, with at least one collection. -/
def each (value : Parser Expr) (body : Parser Block) : Parser Stmt := do
  let start ← here
  word .kwForeach
  let name ← name
  word .kwIn
  let collections ← arguments value
  if collections.isEmpty then
    fail (.expectedExpression (.symbol .rightParen)) (← get).before
  word .kwDo
  let body ← body
  word .kwEndfor
  return .each name collections body (← spanFrom start)

/-- `do … end` -/
def scope (body : Parser Block) : Parser Stmt := do
  let start ← here
  word .kwDo
  let body ← body
  word .kwEnd
  return .scope body (← spanFrom start)

/-- A statement of one word. -/
def single (stmt : Span → Stmt) : Parser Stmt := do
  let start ← here
  let _ ← advance
  return stmt (← spanFrom start)

/-! ### Expressions -/

/-- The parts of one layer of binary operators: expressions of the next tighter layer, or
prefix expressions below the last. -/
def operand (layer : Layer) (tighter : Layer → Parser Expr) (unary : Parser Expr) :
    Parser Expr :=
  match layer.tighter? with
  | some layer => tighter layer
  | none => unary

/-- Prefix operators in front of a primary expression. -/
def unary (operand primary : Parser Expr) : Parser Expr := do
  let start ← here
  match UnaryOp.ofKind? (← peek) with
  | some op =>
    let _ ← advance
    let operand ← operand
    return .unary op operand (← spanFrom start)
  | none => primary

/-- `( value )`.  Empty parentheses are refused as a whole. -/
def parenthesized (value : Parser Expr) : Parser Expr := do
  let opening ← expect (.symbol .leftParen)
  let token ← current
  if token.kind = .symbol .rightParen then
    fail .emptyParens (opening.span.cover token.span)
  let value ← value
  symbol .rightParen
  return value

/-- A literal, which stands alone, or an identifier or parenthesized expression, which
`suffixes` may follow.  An index right behind the identifier belongs to it. -/
def primary (index : Parser Index) (parenthesized : Parser Expr)
    (suffixes : Expr → Parser Expr) : Parser Expr := do
  let token ← current
  match token.kind with
  | .keyword .kwNull =>
    let _ ← advance
    return .null token.span
  | .number =>
    let _ ← advance
    return .number token.text token.span
  | .string =>
    let _ ← advance
    return .string token.text token.span
  | .identifier =>
    let _ ← advance
    if (← peek) = .symbol .leftBracket then
      let index ← index
      suffixes (.element (.named token.text) index (← spanFrom token.span.start))
    else suffixes (.identifier token.text token.span)
  | .symbol .leftParen => suffixes (← parenthesized)
  | found => fail (.expectedExpression found) token.span

/-- `[*]`, `[e]`, `[+e]` or `[-e]` -/
def index (value : Parser Expr) : Parser Index := do
  symbol .leftBracket
  let index ← (do
    match ← peek with
    | .symbol .star =>
      let _ ← advance
      return .star
    | .symbol .plus =>
      let _ ← advance
      return .entry .forward (← value)
    | .symbol .minus =>
      let _ ← advance
      return .entry .backward (← value)
    | _ => return .entry .absolute (← value))
  symbol .rightBracket
  return index

/-- An index, if there is one. -/
def optionalIndex (index : Parser Index) : Parser Index := do
  if (← peek) = .symbol .leftBracket then index else return .none

/-- A call, as the base of an index if there is one right behind it. -/
def indexedCall (index : Parser Index) (call : Expr) : Parser Expr := do
  if (← peek) = .symbol .leftBracket then
    let index ← index
    return .dot call .callResult index (← spanFrom call.span.start)
  else return call

/-- One accessor or call behind an expression, if there is one. -/
def suffix (value : Parser Expr) (index : Parser Index) (base : Expr) :
    Parser (Option Expr) := do
  let start := base.span.start
  match ← peek with
  | .symbol .leftParen =>
    let args ← arguments value
    return some (← indexedCall index (.call base args false (← spanFrom start)))
  | .symbol .dot =>
    let _ ← advance
    let member ← expect .identifier
    if (← peek) = .symbol .leftParen then
      let args ← arguments value
      let call := .call (.identifier member.text member.span) args true
        (← spanFrom member.span.start)
      return some (← indexedCall index (.method base call (← spanFrom start)))
    else
      let index ← optionalIndex index
      return some (.dot base (.named member.text) index (← spanFrom start))
  | .symbol .dotDot =>
    let _ ← advance
    let name ← name
    let index ← optionalIndex index
    return some (.descendant base name index (← spanFrom start))
  | .symbol .dotHash =>
    let _ ← advance
    let name ← name
    let index ← optionalIndex index
    return some (.dot base (.hash name) index (← spanFrom start))
  | .symbol .dotStar =>
    let _ ← advance
    return some (.dot base .star .none (← spanFrom start))
  | _ => return none

end FormCalc.Production
