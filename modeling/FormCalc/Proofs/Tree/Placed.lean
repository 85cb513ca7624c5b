import FormCalc.Proofs.Grammar.Derivation
import FormCalc.Proofs.Token.Place
import FormCalc.Proofs.Tree.Bare

/-!
# Trees in their places

The spans of a parsed tree say where in the text each node was read.

* `Span.Holds`: a span of the text with the spans of the parts inside it, in their order.
* `Expr.Placed`, `Stmt.Placed`: every node holds its parts, and a leaf stands where its span
  says.
* `Stmt.RunsOver`: a statement runs from the start of its first token to the end of its last.
  Its tokens are some of the text's, without a gap between them, and they derive it.
-/

namespace FormCalc

/-! ### Nodes and their parts -/

/-- Whether a span of a text holds the spans of some parts, one after the other. -/
structure Span.Holds (text : String) (span : Span) (parts : List Span) : Prop where
  start_le_stop : span.start ≤ span.stop
  stop_le : span.stop ≤ text.utf8ByteSize
  start : IsBoundary text span.start
  stop : IsBoundary text span.stop
  inside : ∀ part ∈ parts, span.start ≤ part.start ∧ part.stop ≤ span.stop
  apart : parts.Pairwise fun a b => a.stop ≤ b.start

theorem Span.holds_of_inOrder {text : String} {start stop : Nat} {parts : List Span}
    (hstart : IsBoundary text start) (hstop : IsBoundary text stop)
    (h : InOrder start stop parts) : Span.Holds text ⟨start, stop⟩ parts :=
  ⟨h.le, hstop.le, hstart, hstop, h.inside, h.apart⟩

/-- A leaf has no parts. -/
theorem Span.Shows.holds {text part : String} {span : Span} (h : span.Shows text part) :
    span.Holds text [] :=
  Span.holds_of_inOrder h.start h.stop h.start_le_stop

/-! ### Expressions -/

/-- The spans of the parts of an index. -/
def Index.spans : Index → List Span
  | .none | .star => []
  | .entry _ expr => [expr.span]

mutual

/-- Whether every node of an expression holds its parts, and its leaves stand in the text. -/
def Expr.Placed (text : String) : Expr → Prop
  | .null span => span.Holds text [] ∧ span.Shows text "null"
  | .number raw span => span.Holds text [] ∧ span.Shows text raw
  | .string raw span => span.Holds text [] ∧ span.Shows text raw
  | .identifier name span => span.Holds text [] ∧ span.Shows text name
  | .unary _ operand span => span.Holds text [operand.span] ∧ operand.Placed text
  | .binary _ left right span =>
    span.Holds text [left.span, right.span] ∧ left.Placed text ∧ right.Placed text
  | .assign target value span =>
    span.Holds text [target.span, value.span] ∧ target.Placed text ∧ value.Placed text
  | .call callee args _ span =>
    span.Holds text (callee.span :: args.map Expr.span) ∧ callee.Placed text ∧
      PlacedArguments text args
  | .dot base _ index span =>
    span.Holds text (base.span :: index.spans) ∧ base.Placed text ∧ index.Placed text
  | .element _ index span => span.Holds text index.spans ∧ index.Placed text
  | .descendant base _ index span =>
    span.Holds text (base.span :: index.spans) ∧ base.Placed text ∧ index.Placed text
  | .method receiver call span =>
    span.Holds text [receiver.span, call.span] ∧ receiver.Placed text ∧ call.Placed text

/-- Whether the expression of an index is placed. -/
def Index.Placed (text : String) : Index → Prop
  | .none | .star => True
  | .entry _ expr => expr.Placed text

/-- Whether each argument is placed. -/
def PlacedArguments (text : String) : List Expr → Prop
  | [] => True
  | arg :: rest => arg.Placed text ∧ PlacedArguments text rest

end

/-- Whether an optional part is placed. -/
def PlacedOptional (text : String) : Option Expr → Prop
  | none => True
  | some expr => expr.Placed text

/-! ### Statements -/

/-- Whether a statement runs from the start of its first token to the end of its last. -/
def Stmt.RunsOver (tokens : List Token) (stmt : Stmt) : Prop :=
  ∃ (front segment back : List Token) (first last : Token) (d : Derivation .statement),
    tokens = front ++ segment ++ back ∧ d.yield = segment.map Token.terminal ∧
      d.value = stmt.bare ∧ segment.head? = some first ∧ segment.getLast? = some last ∧
      stmt.span = ⟨first.span.start, last.span.stop⟩

/-- The spans of the parts of an `if` behind its first block. -/
def Otherwise.spans : Otherwise → List Span
  | .nothing => []
  | .last body => [body.span]
  | .elseIf cond body rest => cond.span :: body.span :: rest.spans

/-- The span of an optional part. -/
def optionalSpans (part : Option Expr) : List Span := part.toList.map Expr.span

mutual

/-- Whether every node of a statement holds its parts, its leaves stand in the text, and each
statement inside it runs over its tokens. -/
def Stmt.Placed (text : String) (tokens : List Token) : Stmt → Prop
  | .function _ _ body span =>
    span.Holds text (body.map Stmt.span) ∧ PlacedStmts text tokens body
  | .var _ init span => span.Holds text (optionalSpans init) ∧ PlacedOptional text init
  | .expr expr span => span.Holds text [expr.span] ∧ expr.Placed text
  | .scope body span => span.Holds text [body.span] ∧ body.Placed text tokens
  | .branch cond body otherwise span =>
    span.Holds text (cond.span :: body.span :: otherwise.spans) ∧ cond.Placed text ∧
      body.Placed text tokens ∧ otherwise.Placed text tokens
  | .loop cond body span =>
    span.Holds text [cond.span, body.span] ∧ cond.Placed text ∧ body.Placed text tokens
  | .count _ start stop _ step body span =>
    span.Holds text (start.span :: stop.span :: (optionalSpans step ++ [body.span])) ∧
      start.Placed text ∧ stop.Placed text ∧ PlacedOptional text step ∧ body.Placed text tokens
  | .each _ collections body span =>
    span.Holds text (collections.map Expr.span ++ [body.span]) ∧
      PlacedArguments text collections ∧ body.Placed text tokens
  | .leave span | .skip span => span.Holds text []

/-- Whether a block holds its statements, each of them placed. -/
def Block.Placed (text : String) (tokens : List Token) : Block → Prop
  | .mk stmts span => span.Holds text (stmts.map Stmt.span) ∧ PlacedStmts text tokens stmts

/-- Whether the parts of an `if` behind its first block are placed. -/
def Otherwise.Placed (text : String) (tokens : List Token) : Otherwise → Prop
  | .nothing => True
  | .last body => body.Placed text tokens
  | .elseIf cond body rest =>
    cond.Placed text ∧ body.Placed text tokens ∧ rest.Placed text tokens

/-- Whether each statement is placed and runs over its tokens. -/
def PlacedStmts (text : String) (tokens : List Token) : List Stmt → Prop
  | [] => True
  | stmt :: rest =>
    stmt.RunsOver tokens ∧ stmt.Placed text tokens ∧ PlacedStmts text tokens rest

end

/-- Whether a script holds its statements, each of them placed. -/
def Program.Placed (text : String) (tokens : List Token) (program : Program) : Prop :=
  program.span.Holds text (program.stmts.map Stmt.span) ∧ PlacedStmts text tokens program.stmts

/-! ### Expressions between offsets -/

/-- Every expression has its ends in the text. -/
theorem Expr.Placed.holds {text : String} {e : Expr} (h : e.Placed text) :
    ∃ parts, e.span.Holds text parts := by
  cases e <;> exact ⟨_, h.1⟩

/-- Whether an expression is placed and stands between two offsets. -/
structure Expr.Lies (text : String) (lo hi : Nat) (e : Expr) : Prop where
  placed : e.Placed text
  lo_le : lo ≤ e.span.start
  start_le_stop : e.span.start ≤ e.span.stop
  le_hi : e.span.stop ≤ hi

namespace Expr.Lies

variable {text : String} {lo hi : Nat} {e : Expr}

theorem of_placed (h : e.Placed text) (hlo : lo ≤ e.span.start) (hhi : e.span.stop ≤ hi) :
    e.Lies text lo hi := by
  obtain ⟨parts, hholds⟩ := h.holds
  exact ⟨h, hlo, hholds.start_le_stop, hhi⟩

theorem start (h : e.Lies text lo hi) : IsBoundary text e.span.start := by
  obtain ⟨parts, hholds⟩ := h.placed.holds
  exact hholds.start

theorem inOrder (h : e.Lies text lo hi) {spans : List Span} {stop : Nat}
    (hspans : InOrder hi stop spans) : InOrder lo stop (e.span :: spans) :=
  ⟨h.lo_le, h.start_le_stop, hspans.mono h.le_hi (Nat.le_refl _)⟩

theorem alone (h : e.Lies text lo hi) : InOrder lo hi [e.span] := h.inOrder (Nat.le_refl hi)

/-- An expression is the first part of what begins with it. -/
theorem parts (h : e.Lies text lo hi) {spans : List Span} {stop : Nat}
    (hspans : InOrder hi stop spans) : InOrder e.span.start stop (e.span :: spans) :=
  ⟨Nat.le_refl _, h.start_le_stop, hspans.mono h.le_hi (Nat.le_refl _)⟩

theorem mono (h : e.Lies text lo hi) {lo' hi' : Nat} (hlo : lo' ≤ lo) (hhi : hi ≤ hi') :
    e.Lies text lo' hi' :=
  ⟨h.placed, Nat.le_trans hlo h.lo_le, h.start_le_stop, Nat.le_trans h.le_hi hhi⟩

end Expr.Lies

end FormCalc
