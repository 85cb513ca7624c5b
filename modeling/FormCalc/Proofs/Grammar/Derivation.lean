import FormCalc.Token.Basic
import FormCalc.Tree.Basic

/-!
# Derivations

The grammar of scripts as a type: a `Derivation r` is a way to derive something from the
rule `r`, with one constructor for each alternative of each rule.  A list of statements is
a whole script; function definitions may stand in any list.

A derivation says three things.

* `Derivation.yield`: the terminals that it derives.
* `Derivation.value`: the tree that it stands for, apart from spans.  Parentheses leave no
  trace, and a layer of binary operators associates to the left.
* `Derivation.Greedy`: that every optional or repeated part goes on as long as the token
  behind it can start more of it.  Where a derivation ends that is a question about the
  kind of the token behind it, so `Greedy` takes that kind.

Which operators a layer has, and what stands between them, is part of the grammar (`Layer.signs`,
`Layer.operands`).  A parser has tables of its own, and these agree
(`Layer.operator?_eq_some_iff`, `Layer.tighter?_eq`).
-/

namespace FormCalc

/-! ### Terminals -/

/-- What the grammar sees of a token: the kind, and the text where it varies. -/
structure Terminal where
  kind : Kind
  text : String
  deriving DecidableEq, Repr

namespace Terminal

/-- A symbol. -/
abbrev symbol (s : Symbol) : Terminal := ⟨.symbol s, ""⟩

/-- A keyword. -/
abbrev word (k : Keyword) : Terminal := ⟨.keyword k, ""⟩

/-- An identifier. -/
abbrev identifier (name : String) : Terminal := ⟨.identifier, name⟩

/-- The kind of the first of some terminals, or of what stands behind them. -/
def ahead (terminals : List Terminal) (next : Kind) : Kind :=
  match terminals with
  | [] => next
  | first :: _ => first.kind

@[simp] theorem ahead_nil (next : Kind) : ahead [] next = next := rfl

@[simp] theorem ahead_cons (t : Terminal) (ts : List Terminal) (next : Kind) :
    ahead (t :: ts) next = t.kind := rfl

@[simp] theorem ahead_append (ts us : List Terminal) (next : Kind) :
    ahead (ts ++ us) next = ahead ts (ahead us next) := by
  cases ts <;> rfl

end Terminal

/-- Whether tokens of this kind differ in their text. -/
def Kind.varies : Kind → Bool
  | .identifier | .number | .string => true
  | _ => false

/-- The terminal that a token is, wherever it stands. -/
def Token.terminal (token : Token) : Terminal :=
  ⟨token.kind, if token.kind.varies then token.text else ""⟩

@[simp] theorem Token.terminal_kind (token : Token) : token.terminal.kind = token.kind := rfl

/-! ### What starts what -/

namespace Kind

/-- Whether a token of this kind can begin an expression. -/
def opensExpression : Kind → Bool
  | .keyword .kwNull | .number | .string => true
  | .symbol .plus | .symbol .minus | .keyword .kwNot => true
  | .identifier | .symbol .leftParen => true
  | _ => false

/-- Whether a token of this kind can begin a statement. -/
def startsStatement : Kind → Bool
  | .keyword .kwFunc | .keyword .kwVar | .keyword .kwIf | .keyword .kwWhile => true
  | .keyword .kwFor | .keyword .kwForeach | .keyword .kwDo => true
  | .keyword .kwBreak | .keyword .kwContinue => true
  | kind => kind.opensExpression

/-- Whether a token of this kind can begin an accessor or a call behind an expression. -/
def startsSuffix : Kind → Bool
  | .symbol .leftParen | .symbol .dot | .symbol .dotDot => true
  | .symbol .dotHash | .symbol .dotStar => true
  | _ => false

end Kind

/-- The kind of the token that spells a prefix operator. -/
def UnaryOp.kind : UnaryOp → Kind
  | .plus => .symbol .plus
  | .minus => .symbol .minus
  | .not => .keyword .kwNot

@[simp] theorem UnaryOp.ofKind?_kind (op : UnaryOp) : UnaryOp.ofKind? op.kind = some op := by
  cases op <;> rfl

theorem UnaryOp.kind_of_ofKind? {kind : Kind} {op : UnaryOp} (h : ofKind? kind = some op) :
    kind = op.kind := by
  unfold ofKind? at h
  split at h <;> cases h <;> rfl

theorem UnaryOp.varies_kind (op : UnaryOp) : op.kind.varies = false := by
  cases op <;> rfl

/-- The keyword of a direction. -/
def Direction.keyword : Direction → Keyword
  | .upto => .kwUpto
  | .downto => .kwDownto

/-- The sign in front of an index. -/
def IndexMode.sign : IndexMode → List Terminal
  | .absolute => []
  | .forward => [.symbol .plus]
  | .backward => [.symbol .minus]

/-! ### Layers of operators -/

namespace Layer

/-- What stands between the operators of a layer: expressions of another layer, or prefix
expressions. -/
def operands : Layer → Option Layer
  | .logicalOr => some .logicalAnd
  | .logicalAnd => some .equality
  | .equality => some .relational
  | .relational => some .additive
  | .additive => some .multiplicative
  | .multiplicative => none

/-- The kinds of the tokens that spell the operators of a layer, with the operators. -/
def signs : Layer → List (Kind × BinaryOp)
  | .logicalOr => [(.symbol .bar, .or), (.keyword .kwOr, .or)]
  | .logicalAnd => [(.symbol .ampersand, .and), (.keyword .kwAnd, .and)]
  | .equality =>
    [(.symbol .equal, .eq), (.keyword .kwEq, .eq), (.symbol .unequal, .ne), (.keyword .kwNe, .ne)]
  | .relational =>
    [(.symbol .less, .lt), (.keyword .kwLt, .lt), (.symbol .greater, .gt), (.keyword .kwGt, .gt),
      (.symbol .lessEqual, .le), (.keyword .kwLe, .le),
      (.symbol .greaterEqual, .ge), (.keyword .kwGe, .ge)]
  | .additive => [(.symbol .plus, .add), (.symbol .minus, .sub)]
  | .multiplicative => [(.symbol .star, .mul), (.symbol .slash, .div)]

/-- A token that spells an operator of a layer. -/
structure Sign (layer : Layer) where
  kind : Kind
  op : BinaryOp
  spells : (kind, op) ∈ layer.signs

end Layer

/-! ### The tables of a parser

A parser looks up the same in tables of its own: what begins an expression, which layer binds next
tighter, and which operator of which layer a token spells. -/

theorem Kind.startsExpression_eq (kind : Kind) :
    kind.startsExpression = kind.opensExpression := by
  cases kind with
  | symbol s => cases s <;> rfl
  | keyword k => cases k <;> rfl
  | identifier | number | string | endOfInput | invalid => rfl

namespace Layer

variable {layer : Layer} {kind : Kind} {op : BinaryOp}

theorem tighter?_eq (layer : Layer) : layer.tighter? = layer.operands := by
  cases layer <;> rfl

/-- **A parser finds the operators of the grammar.** -/
theorem operator?_eq_some_iff : layer.operator? kind = some op ↔ (kind, op) ∈ layer.signs := by
  constructor
  · intro h
    obtain ⟨hspells, hlayer⟩ := Option.filter_eq_some_iff.mp h
    obtain rfl := of_decide_eq_true hlayer
    unfold BinaryOp.ofKind? at hspells
    split at hspells <;> cases hspells <;> simp [BinaryOp.layer, signs]
  · have htable : ∀ sign ∈ layer.signs, layer.operator? sign.1 = some sign.2 := by
      cases layer <;> decide
    exact htable (kind, op)

theorem operator?_eq_none_iff :
    layer.operator? kind = none ↔ ∀ sign : layer.Sign, kind ≠ sign.kind := by
  constructor
  · rintro hnone sign rfl
    rw [operator?_eq_some_iff.mpr sign.spells] at hnone
    cases hnone
  · intro h
    cases hop : layer.operator? kind with
    | none => rfl
    | some op => exact absurd rfl (h ⟨kind, op, operator?_eq_some_iff.mp hop⟩)

/-- A token spells one operator. -/
@[ext] theorem Sign.ext {a b : layer.Sign} (h : a.kind = b.kind) : a = b := by
  obtain ⟨kind, op, ha⟩ := a
  obtain ⟨kind', op', hb⟩ := b
  obtain rfl : kind = kind' := h
  have hop := operator?_eq_some_iff.mpr ha
  rw [operator?_eq_some_iff.mpr hb] at hop
  obtain rfl : op' = op := Option.some.inj hop
  rfl

end Layer

/-! ### Rules -/

/-- The rules of the grammar. -/
inductive Rule where
  /-- A list of statements. -/
  | statements
  /-- One statement. -/
  | statement
  /-- The arms of an `if` behind its first block. -/
  | otherwise
  /-- An expression behind a mark, or nothing. -/
  | optional (mark : Kind)
  /-- An expression of a layer, or a prefix expression. -/
  | layer (layer : Option Layer)
  /-- The operators of a layer with their right operands. -/
  | operations (layer : Layer)
  /-- An expression in parentheses. -/
  | group
  /-- A literal, or a name or group with what follows it. -/
  | primary
  /-- A chain of accessors and calls. -/
  | suffixes
  /-- One accessor or call. -/
  | suffix
  /-- An index in brackets. -/
  | index
  /-- An index, or nothing. -/
  | optionalIndex
  /-- Arguments with commas between them, or none. -/
  | arguments
  /-- Further arguments, each behind a comma. -/
  | moreArguments
  deriving DecidableEq

/-- The rule of simple expressions: the loosest layer. -/
abbrev Rule.simple : Rule := .layer (some .logicalOr)

/-- A derivation from a rule. -/
inductive Derivation : Rule → Type
  | done : Derivation .statements
  | item (first : Derivation .statement) (rest : Derivation .statements) :
      Derivation .statements
  /-- `func name(a, b) do … endfunc` -/
  | function (name : String) (params : List String) (body : Derivation .statements) :
      Derivation .statement
  /-- `var name` or `var name = e` -/
  | var (name : String) (init : Derivation (.optional (.symbol .assign))) :
      Derivation .statement
  /-- `e` or `e = e` -/
  | expr (target : Derivation .simple) (value : Derivation (.optional (.symbol .assign))) :
      Derivation .statement
  /-- `if (e) then … endif` -/
  | branch (cond : Derivation .group) (body : Derivation .statements)
      (rest : Derivation .otherwise) : Derivation .statement
  /-- `while (e) do … endwhile` -/
  | loop (cond : Derivation .group) (body : Derivation .statements) : Derivation .statement
  /-- `for name = e upto e step e do … endfor` -/
  | count (name : String) (start : Derivation .simple) (direction : Direction)
      (stop : Derivation .simple) (step : Derivation (.optional (.keyword .kwStep)))
      (body : Derivation .statements) : Derivation .statement
  /-- `foreach name in (e, e) do … endfor` -/
  | each (name : String) (first : Derivation .simple) (more : Derivation .moreArguments)
      (body : Derivation .statements) : Derivation .statement
  /-- `do … end` -/
  | scope (body : Derivation .statements) : Derivation .statement
  /-- `break` -/
  | leave : Derivation .statement
  /-- `continue` -/
  | skip : Derivation .statement
  | nothing : Derivation .otherwise
  /-- `else …` -/
  | last (body : Derivation .statements) : Derivation .otherwise
  /-- `elseif (e) then …` and the arms behind it -/
  | elseIf (cond : Derivation .group) (body : Derivation .statements)
      (rest : Derivation .otherwise) : Derivation .otherwise
  | absent {mark : Kind} : Derivation (.optional mark)
  | present {mark : Kind} (value : Derivation .simple) : Derivation (.optional mark)
  | binary {layer : Layer} (first : Derivation (.layer layer.operands))
      (rest : Derivation (.operations layer)) : Derivation (.layer (some layer))
  /-- `+ e`, `- e` or `not e` -/
  | unary (op : UnaryOp) (operand : Derivation (.layer none)) : Derivation (.layer none)
  | plain (primary : Derivation .primary) : Derivation (.layer none)
  | finished {layer : Layer} : Derivation (.operations layer)
  | operation {layer : Layer} (sign : layer.Sign) (right : Derivation (.layer layer.operands))
      (rest : Derivation (.operations layer)) : Derivation (.operations layer)
  /-- `(e)` -/
  | group (value : Derivation .simple) : Derivation .group
  | null : Derivation .primary
  | number (text : String) : Derivation .primary
  | string (text : String) : Derivation .primary
  | named (name : String) (index : Derivation .optionalIndex)
      (suffixes : Derivation .suffixes) : Derivation .primary
  | grouped (value : Derivation .group) (suffixes : Derivation .suffixes) : Derivation .primary
  | ended : Derivation .suffixes
  | link (first : Derivation .suffix) (rest : Derivation .suffixes) : Derivation .suffixes
  /-- `(e, e)[i]` -/
  | call (args : Derivation .arguments) (index : Derivation .optionalIndex) :
      Derivation .suffix
  /-- `.name(e, e)[i]` -/
  | method (name : String) (args : Derivation .arguments)
      (index : Derivation .optionalIndex) : Derivation .suffix
  /-- `.name[i]` -/
  | member (name : String) (index : Derivation .optionalIndex) : Derivation .suffix
  /-- `..name[i]` -/
  | descendant (name : String) (index : Derivation .optionalIndex) : Derivation .suffix
  /-- `.#name[i]` -/
  | hash (name : String) (index : Derivation .optionalIndex) : Derivation .suffix
  /-- `.*` -/
  | star : Derivation .suffix
  /-- `[*]` -/
  | every : Derivation .index
  /-- `[e]`, `[+e]` or `[-e]` -/
  | entry (mode : IndexMode) (value : Derivation .simple) : Derivation .index
  | unindexed : Derivation .optionalIndex
  | indexed (index : Derivation .index) : Derivation .optionalIndex
  | noArguments : Derivation .arguments
  | someArguments (first : Derivation .simple) (more : Derivation .moreArguments) :
      Derivation .arguments
  | noMore : Derivation .moreArguments
  | oneMore (first : Derivation .simple) (more : Derivation .moreArguments) :
      Derivation .moreArguments

/-! ### What a derivation derives -/

/-- Names, each behind a comma. -/
def commaNames : List String → List Terminal
  | [] => []
  | name :: rest => .symbol .comma :: .identifier name :: commaNames rest

/-- Names with commas between them. -/
def nameList : List String → List Terminal
  | [] => []
  | first :: rest => .identifier first :: commaNames rest

namespace Derivation

open Terminal

/-- The terminals that a derivation derives. -/
def yield : {r : Rule} → Derivation r → List Terminal
  | _, .done => []
  | _, .item first rest => first.yield ++ rest.yield
  | _, .function name params body =>
    [word .kwFunc, identifier name, symbol .leftParen] ++ nameList params ++
      [symbol .rightParen, word .kwDo] ++ body.yield ++ [word .kwEndfunc]
  | _, .var name init => [word .kwVar, identifier name] ++ init.yield
  | _, .expr target value => target.yield ++ value.yield
  | _, .branch cond body rest =>
    [word .kwIf] ++ cond.yield ++ [word .kwThen] ++ body.yield ++ rest.yield ++ [word .kwEndif]
  | _, .loop cond body =>
    [word .kwWhile] ++ cond.yield ++ [word .kwDo] ++ body.yield ++ [word .kwEndwhile]
  | _, .count name start direction stop step body =>
    [word .kwFor, identifier name, symbol .assign] ++ start.yield ++ [word direction.keyword] ++
      stop.yield ++ step.yield ++ [word .kwDo] ++ body.yield ++ [word .kwEndfor]
  | _, .each name first more body =>
    [word .kwForeach, identifier name, word .kwIn, symbol .leftParen] ++ first.yield ++
      more.yield ++ [symbol .rightParen, word .kwDo] ++ body.yield ++ [word .kwEndfor]
  | _, .scope body => [word .kwDo] ++ body.yield ++ [word .kwEnd]
  | _, .leave => [word .kwBreak]
  | _, .skip => [word .kwContinue]
  | _, .nothing => []
  | _, .last body => [word .kwElse] ++ body.yield
  | _, .elseIf cond body rest =>
    [word .kwElseif] ++ cond.yield ++ [word .kwThen] ++ body.yield ++ rest.yield
  | _, .absent => []
  | .optional mark, .present value => [⟨mark, ""⟩] ++ value.yield
  | _, .binary first rest => first.yield ++ rest.yield
  | _, .unary op operand => [⟨op.kind, ""⟩] ++ operand.yield
  | _, .plain primary => primary.yield
  | _, .finished => []
  | _, .operation sign right rest => [⟨sign.kind, ""⟩] ++ right.yield ++ rest.yield
  | _, .group value => [symbol .leftParen] ++ value.yield ++ [symbol .rightParen]
  | _, .null => [word .kwNull]
  | _, .number text => [⟨.number, text⟩]
  | _, .string text => [⟨.string, text⟩]
  | _, .named name index suffixes => [identifier name] ++ index.yield ++ suffixes.yield
  | _, .grouped value suffixes => value.yield ++ suffixes.yield
  | _, .ended => []
  | _, .link first rest => first.yield ++ rest.yield
  | _, .call args index =>
    [symbol .leftParen] ++ args.yield ++ [symbol .rightParen] ++ index.yield
  | _, .method name args index =>
    [symbol .dot, identifier name, symbol .leftParen] ++ args.yield ++ [symbol .rightParen] ++
      index.yield
  | _, .member name index => [symbol .dot, identifier name] ++ index.yield
  | _, .descendant name index => [symbol .dotDot, identifier name] ++ index.yield
  | _, .hash name index => [symbol .dotHash, identifier name] ++ index.yield
  | _, .star => [symbol .dotStar]
  | _, .every => [symbol .leftBracket, symbol .star, symbol .rightBracket]
  | _, .entry mode value =>
    [symbol .leftBracket] ++ mode.sign ++ value.yield ++ [symbol .rightBracket]
  | _, .unindexed => []
  | _, .indexed index => index.yield
  | _, .noArguments => []
  | _, .someArguments first more => first.yield ++ more.yield
  | _, .noMore => []
  | _, .oneMore first more => [symbol .comma] ++ first.yield ++ more.yield

section Yield

variable (name : String) (body : Derivation .statements) (e e' : Derivation .simple)
  (c : Derivation .group) (i : Derivation .optionalIndex) (args : Derivation .arguments)
  (more : Derivation .moreArguments) (suffixes : Derivation .suffixes)

@[simp] theorem yield_done : done.yield = [] := rfl

@[simp] theorem yield_item (first : Derivation .statement) (rest : Derivation .statements) :
    (item first rest).yield = first.yield ++ rest.yield := rfl

@[simp] theorem yield_function (params : List String) : (function name params body).yield =
    [word .kwFunc, identifier name, symbol .leftParen] ++ nameList params ++
      [symbol .rightParen, word .kwDo] ++ body.yield ++ [word .kwEndfunc] := rfl

@[simp] theorem yield_var (init : Derivation (.optional (.symbol .assign))) :
    (var name init).yield = [word .kwVar, identifier name] ++ init.yield := rfl

@[simp] theorem yield_expr (value : Derivation (.optional (.symbol .assign))) :
    (expr e value).yield = e.yield ++ value.yield := rfl

@[simp] theorem yield_branch (rest : Derivation .otherwise) : (branch c body rest).yield =
    [word .kwIf] ++ c.yield ++ [word .kwThen] ++ body.yield ++ rest.yield ++
      [word .kwEndif] := rfl

@[simp] theorem yield_loop : (loop c body).yield =
    [word .kwWhile] ++ c.yield ++ [word .kwDo] ++ body.yield ++ [word .kwEndwhile] := rfl

@[simp] theorem yield_count (direction : Direction)
    (step : Derivation (.optional (.keyword .kwStep))) :
    (count name e direction e' step body).yield =
      [word .kwFor, identifier name, symbol .assign] ++ e.yield ++ [word direction.keyword] ++
        e'.yield ++ step.yield ++ [word .kwDo] ++ body.yield ++ [word .kwEndfor] := rfl

@[simp] theorem yield_each : (each name e more body).yield =
    [word .kwForeach, identifier name, word .kwIn, symbol .leftParen] ++ e.yield ++
      more.yield ++ [symbol .rightParen, word .kwDo] ++ body.yield ++ [word .kwEndfor] := rfl

@[simp] theorem yield_scope : (scope body).yield =
    [word .kwDo] ++ body.yield ++ [word .kwEnd] := rfl

@[simp] theorem yield_leave : leave.yield = [word .kwBreak] := rfl

@[simp] theorem yield_skip : skip.yield = [word .kwContinue] := rfl

@[simp] theorem yield_nothing : nothing.yield = [] := rfl

@[simp] theorem yield_last : (last body).yield = [word .kwElse] ++ body.yield := rfl

@[simp] theorem yield_elseIf (rest : Derivation .otherwise) : (elseIf c body rest).yield =
    [word .kwElseif] ++ c.yield ++ [word .kwThen] ++ body.yield ++ rest.yield := rfl

@[simp] theorem yield_absent {mark : Kind} :
    (absent : Derivation (.optional mark)).yield = [] := rfl

@[simp] theorem yield_present {mark : Kind} :
    (present e : Derivation (.optional mark)).yield = [⟨mark, ""⟩] ++ e.yield := rfl

@[simp] theorem yield_binary {layer : Layer} (first : Derivation (.layer layer.operands))
    (rest : Derivation (.operations layer)) :
    (binary first rest).yield = first.yield ++ rest.yield := rfl

@[simp] theorem yield_unary (op : UnaryOp) (operand : Derivation (.layer none)) :
    (unary op operand).yield = [⟨op.kind, ""⟩] ++ operand.yield := rfl

@[simp] theorem yield_plain (primary : Derivation .primary) :
    (plain primary).yield = primary.yield := rfl

@[simp] theorem yield_finished {layer : Layer} :
    (finished : Derivation (.operations layer)).yield = [] := rfl

@[simp] theorem yield_operation {layer : Layer} (sign : layer.Sign)
    (right : Derivation (.layer layer.operands)) (rest : Derivation (.operations layer)) :
    (operation sign right rest).yield = [⟨sign.kind, ""⟩] ++ right.yield ++ rest.yield := rfl

@[simp] theorem yield_group : (group e).yield =
    [symbol .leftParen] ++ e.yield ++ [symbol .rightParen] := rfl

@[simp] theorem yield_null : null.yield = [word .kwNull] := rfl

@[simp] theorem yield_number (text : String) : (number text).yield = [⟨.number, text⟩] := rfl

@[simp] theorem yield_string (text : String) : (string text).yield = [⟨.string, text⟩] := rfl

@[simp] theorem yield_named : (named name i suffixes).yield =
    [identifier name] ++ i.yield ++ suffixes.yield := rfl

@[simp] theorem yield_grouped : (grouped c suffixes).yield = c.yield ++ suffixes.yield := rfl

@[simp] theorem yield_ended : ended.yield = [] := rfl

@[simp] theorem yield_link (first : Derivation .suffix) :
    (link first suffixes).yield = first.yield ++ suffixes.yield := rfl

@[simp] theorem yield_call : (call args i).yield =
    [symbol .leftParen] ++ args.yield ++ [symbol .rightParen] ++ i.yield := rfl

@[simp] theorem yield_method : (method name args i).yield =
    [symbol .dot, identifier name, symbol .leftParen] ++ args.yield ++
      [symbol .rightParen] ++ i.yield := rfl

@[simp] theorem yield_member : (member name i).yield =
    [symbol .dot, identifier name] ++ i.yield := rfl

@[simp] theorem yield_descendant : (descendant name i).yield =
    [symbol .dotDot, identifier name] ++ i.yield := rfl

@[simp] theorem yield_hash : (hash name i).yield =
    [symbol .dotHash, identifier name] ++ i.yield := rfl

@[simp] theorem yield_star : star.yield = [symbol .dotStar] := rfl

@[simp] theorem yield_every : every.yield =
    [symbol .leftBracket, symbol .star, symbol .rightBracket] := rfl

@[simp] theorem yield_entry (mode : IndexMode) : (entry mode e).yield =
    [symbol .leftBracket] ++ mode.sign ++ e.yield ++ [symbol .rightBracket] := rfl

@[simp] theorem yield_unindexed : unindexed.yield = [] := rfl

@[simp] theorem yield_indexed (index : Derivation .index) :
    (indexed index).yield = index.yield := rfl

@[simp] theorem yield_noArguments : noArguments.yield = [] := rfl

@[simp] theorem yield_someArguments : (someArguments e more).yield = e.yield ++ more.yield := rfl

@[simp] theorem yield_noMore : noMore.yield = [] := rfl

@[simp] theorem yield_oneMore : (oneMore e more).yield =
    [symbol .comma] ++ e.yield ++ more.yield := rfl

end Yield

end Derivation

/-! ### What a derivation stands for -/

/-- What a derivation from a rule stands for.  Operators and suffixes stand for what they
make of the expression in front of them. -/
abbrev Rule.Value : Rule → Type
  | .statements => List Stmt
  | .statement => Stmt
  | .otherwise => Otherwise
  | .optional _ => Option Expr
  | .layer _ | .group | .primary => Expr
  | .operations _ | .suffixes | .suffix => Expr → Expr
  | .index | .optionalIndex => Index
  | .arguments | .moreArguments => List Expr

/-- A call, as the base of an index if there is one. -/
def Expr.indexed (call : Expr) : Index → Expr
  | .none => call
  | index => .dot call .callResult index .origin

/-- An expression statement: with a value it is an assignment. -/
def Stmt.ofTarget (target : Expr) : Option Expr → Stmt
  | none => .expr target .origin
  | some value => .expr (.assign target value .origin) .origin

/-- A name, as an element of what it names if there is an index. -/
def Expr.ofName (name : String) : Index → Expr
  | .none => .identifier name .origin
  | index => .element (.named name) index .origin

namespace Derivation

open Terminal

/-- The tree that a derivation stands for. -/
def value : {r : Rule} → Derivation r → r.Value
  | _, .done => []
  | _, .item first rest => first.value :: rest.value
  | _, .function name params body => .function name params body.value .origin
  | _, .var name init => .var name init.value .origin
  | _, .expr target value => .ofTarget target.value value.value
  | _, .branch cond body rest => .branch cond.value (.mk body.value .origin) rest.value .origin
  | _, .loop cond body => .loop cond.value (.mk body.value .origin) .origin
  | _, .count name start direction stop step body =>
    .count name start.value stop.value direction step.value (.mk body.value .origin) .origin
  | _, .each name first more body =>
    .each name (first.value :: more.value) (.mk body.value .origin) .origin
  | _, .scope body => .scope (.mk body.value .origin) .origin
  | _, .leave => .leave .origin
  | _, .skip => .skip .origin
  | _, .nothing => .nothing
  | _, .last body => .last (.mk body.value .origin)
  | _, .elseIf cond body rest => .elseIf cond.value (.mk body.value .origin) rest.value
  | _, .absent => none
  | _, .present value => some value.value
  | _, .binary first rest => rest.value first.value
  | _, .unary op operand => .unary op operand.value .origin
  | _, .plain primary => primary.value
  | _, .finished => id
  | _, .operation sign right rest =>
    fun left => rest.value (.binary sign.op left right.value .origin)
  | _, .group value => value.value
  | _, .null => .null .origin
  | _, .number text => .number text .origin
  | _, .string text => .string text .origin
  | _, .named name index suffixes => suffixes.value (.ofName name index.value)
  | _, .grouped value suffixes => suffixes.value value.value
  | _, .ended => id
  | _, .link first rest => fun base => rest.value (first.value base)
  | _, .call args index =>
    fun base => Expr.indexed (.call base args.value false .origin) index.value
  | _, .method name args index => fun base =>
    Expr.indexed
      (.method base (.call (.identifier name .origin) args.value true .origin) .origin) index.value
  | _, .member name index => fun base => .dot base (.named name) index.value .origin
  | _, .descendant name index => fun base => .descendant base name index.value .origin
  | _, .hash name index => fun base => .dot base (.hash name) index.value .origin
  | _, .star => fun base => .dot base .star .none .origin
  | _, .every => .star
  | _, .entry mode value => .entry mode value.value
  | _, .unindexed => .none
  | _, .indexed index => index.value
  | _, .noArguments => []
  | _, .someArguments first more => first.value :: more.value
  | _, .noMore => []
  | _, .oneMore first more => first.value :: more.value

/-! ### Greedy choice -/

/-- Whether every optional or repeated part is continued wherever the next token can start
more of it.  `next` is the kind of the token behind the derivation. -/
def Greedy : {r : Rule} → Derivation r → (next : Kind) → Prop
  | _, .done, next => next.startsStatement = false
  | _, .item first rest, next => first.Greedy (ahead rest.yield next) ∧ rest.Greedy next
  | _, .function _ _ body, _ => body.Greedy (.keyword .kwEndfunc)
  | _, .var _ init, next => init.Greedy next
  | _, .expr target value, next =>
    target.Greedy (ahead value.yield next) ∧ value.Greedy next
  | _, .branch cond body rest, _ =>
    cond.Greedy (.keyword .kwThen) ∧ body.Greedy (ahead rest.yield (.keyword .kwEndif)) ∧
      rest.Greedy (.keyword .kwEndif)
  | _, .loop cond body, _ =>
    cond.Greedy (.keyword .kwDo) ∧ body.Greedy (.keyword .kwEndwhile)
  | _, .count _ start direction stop step body, _ =>
    start.Greedy (.keyword direction.keyword) ∧ stop.Greedy (ahead step.yield (.keyword .kwDo)) ∧
      step.Greedy (.keyword .kwDo) ∧ body.Greedy (.keyword .kwEndfor)
  | _, .each _ first more body, _ =>
    first.Greedy (ahead more.yield (.symbol .rightParen)) ∧
      more.Greedy (.symbol .rightParen) ∧ body.Greedy (.keyword .kwEndfor)
  | _, .scope body, _ => body.Greedy (.keyword .kwEnd)
  | _, .leave, _ | _, .skip, _ => True
  | _, .nothing, next => next ≠ .keyword .kwElseif ∧ next ≠ .keyword .kwElse
  | _, .last body, next => body.Greedy next
  | _, .elseIf cond body rest, next =>
    cond.Greedy (.keyword .kwThen) ∧ body.Greedy (ahead rest.yield next) ∧ rest.Greedy next
  | .optional mark, .absent, next => next ≠ mark
  | _, .present value, next => value.Greedy next
  | _, .binary first rest, next => first.Greedy (ahead rest.yield next) ∧ rest.Greedy next
  | _, .unary _ operand, next => operand.Greedy next
  | _, .plain primary, next => primary.Greedy next
  | .operations layer, .finished, next => ∀ sign : layer.Sign, next ≠ sign.kind
  | _, .operation _ right rest, next =>
    right.Greedy (ahead rest.yield next) ∧ rest.Greedy next
  | _, .group value, _ => value.Greedy (.symbol .rightParen)
  | _, .null, _ | _, .number _, _ | _, .string _, _ => True
  | _, .named _ index suffixes, next =>
    index.Greedy (ahead suffixes.yield next) ∧ suffixes.Greedy next
  | _, .grouped value suffixes, next =>
    value.Greedy (ahead suffixes.yield next) ∧ suffixes.Greedy next
  | _, .ended, next => next.startsSuffix = false
  | _, .link first rest, next => first.Greedy (ahead rest.yield next) ∧ rest.Greedy next
  | _, .call args index, next | _, .method _ args index, next =>
    args.Greedy (.symbol .rightParen) ∧ index.Greedy next
  -- A parenthesis right behind the name would make it a method.
  | _, .member _ index, next =>
    index.Greedy next ∧ ahead index.yield next ≠ .symbol .leftParen
  | _, .descendant _ index, next | _, .hash _ index, next => index.Greedy next
  | _, .star, _ | _, .every, _ => True
  -- A sign right behind the bracket belongs to the index.
  | _, .entry mode value, _ =>
    value.Greedy (.symbol .rightBracket) ∧
      (mode = .absolute → ∀ sign ∈ [Symbol.plus, .minus],
        ahead value.yield (.symbol .rightBracket) ≠ .symbol sign)
  | _, .unindexed, next => next ≠ .symbol .leftBracket
  | _, .indexed index, next => index.Greedy next
  | _, .noArguments, next => next.opensExpression = false
  | _, .someArguments first more, next | _, .oneMore first more, next =>
    first.Greedy (ahead more.yield next) ∧ more.Greedy next
  | _, .noMore, next => next ≠ .symbol .comma

end Derivation

end FormCalc
