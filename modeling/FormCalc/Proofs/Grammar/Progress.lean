import FormCalc.Proofs.Grammar.Reading
import FormCalc.Tree.Grammar

/-!
# Parsers only go forward

Whatever a parser does, it passes some of the tokens that were there and leaves the others
(`Grammar.forward`).  Terminals forget where a token stands in the text; this says that the
token at hand is still one of the text's own, and that the span a cursor remembers is that of
the last token passed.
-/

namespace FormCalc

open FormCalc.Parser

/-- Whether a cursor goes on to another past these tokens. -/
structure Cursor.Passes (k : Cursor) (segment : List Token) (k' : Cursor) : Prop where
  tokens : k.tokens = segment ++ k'.tokens
  before : k'.before = segment.foldl (fun _ token => token.span) k.before

namespace Cursor.Passes

variable {k k₁ k' : Cursor} {segment more : List Token}

theorem refl (k : Cursor) : k.Passes [] k := ⟨rfl, rfl⟩

theorem trans (h : k.Passes segment k₁) (h' : k₁.Passes more k') :
    k.Passes (segment ++ more) k' := by
  refine ⟨?_, ?_⟩
  · rw [h.tokens, h'.tokens, List.append_assoc]
  · rw [h'.before, h.before, List.foldl_append]

/-- Consuming a token passes it. -/
theorem of_advance {token : Token} (h : Parser.advance k = .ok (token, k')) :
    token = k.current ∧ k.Passes [k.current] k' := by
  unfold Parser.advance at h
  split at h
  · cases h
  · rename_i next rest hrest
    obtain ⟨rfl, rfl⟩ := Prod.mk.inj (Except.ok.inj h)
    refine ⟨rfl, ?_, rfl⟩
    simp [Cursor.tokens, readable, hrest]
  · cases h

end Cursor.Passes

/-- Whether a parser only passes tokens that were there. -/
def Moves {α : Type} (p : Parser α) : Prop :=
  ∀ ⦃k : Cursor⦄ ⦃x : α⦄ ⦃k' : Cursor⦄, p k = .ok (x, k') → ∃ segment, k.Passes segment k'

namespace Moves

variable {α β : Type} {p q : Parser α} {f : α → Parser β}

/-- The tokens that are left are the last of those that were there. -/
theorem suffix (hp : Moves p) {k : Cursor} {x : α} {k' : Cursor} (h : p k = .ok (x, k')) :
    k'.tokens <:+ k.tokens := by
  obtain ⟨segment, hpasses⟩ := hp h
  exact ⟨segment, hpasses.tokens.symm⟩

theorem pure (x : α) : Moves (Pure.pure x) := by
  intro k y k' h
  obtain ⟨-, rfl⟩ := Prod.mk.inj (pure_eq_ok.mp h)
  exact ⟨[], .refl k⟩

theorem bind (hp : Moves p) (hf : ∀ x, Moves (f x)) : Moves (p >>= f) := by
  intro k y k' h
  obtain ⟨x, k₁, hx, hy⟩ := bind_eq_ok.mp h
  obtain ⟨segment, hsegment⟩ := hp hx
  obtain ⟨more, hmore⟩ := hf x hy
  exact ⟨segment ++ more, hsegment.trans hmore⟩

theorem ite {c : Prop} [Decidable c] (hp : Moves p) (hq : Moves q) :
    Moves (if c then p else q) := by
  split
  · exact hp
  · exact hq

theorem fail (cause : GrammarCause) (span : Span) : Moves (Parser.fail cause span : Parser α) :=
  fun _ _ _ h => nomatch h

theorem get : Moves (get : Parser Cursor) := by
  intro k x k' h
  obtain ⟨-, rfl⟩ := Prod.mk.inj (Except.ok.inj h)
  exact ⟨[], .refl k⟩

theorem current : Moves current := get.bind fun _ => .pure _

theorem peek : Moves peek := get.bind fun _ => .pure _

theorem here : Moves here := current.bind fun _ => .pure _

theorem spanFrom (start : Nat) : Moves (spanFrom start) := get.bind fun _ => .pure _

theorem tooDeep (limit : Nat) : Moves (Parser.tooDeep limit : Parser α) :=
  current.bind fun _ => .fail _ _

theorem advance : Moves advance := by
  intro k x k' h
  exact ⟨_, (Cursor.Passes.of_advance h).2⟩

theorem expect (kind : Kind) : Moves (expect kind) :=
  current.bind fun _ => .ite advance (.fail _ _)

theorem accept (kind : Kind) : Moves (accept kind) :=
  peek.bind fun _ => .ite (advance.bind fun _ => .pure _) (.pure _)

theorem symbol (s : Symbol) : Moves (symbol s) := (expect _).bind fun _ => .pure _

theorem word (w : Keyword) : Moves (word w) := (expect _).bind fun _ => .pure _

theorem name : Moves name := (expect _).bind fun _ => .pure _

/-! ### Loops -/

theorem statementsUpTo {item : Parser Stmt} (hitem : Moves item) (left : Nat) :
    Moves (statementsUpTo item left) := by
  induction left with
  | zero => exact peek.bind fun _ => .ite (.pure _) (hitem.bind fun _ => .fail _ _)
  | succ left ih =>
    exact peek.bind fun _ => .ite (.pure _) (hitem.bind fun _ => ih.bind fun _ => .pure _)

theorem argumentsUpTo {item : Parser Expr} (hitem : Moves item) (left : Nat)
    {separator : Parser Unit} (hseparator : Moves separator) :
    Moves (argumentsUpTo item left separator) := by
  induction left generalizing separator with
  | zero =>
    exact peek.bind fun _ => .ite (.pure _) (hseparator.bind fun _ => hitem.bind fun _ =>
      .fail _ _)
  | succ left ih =>
    exact peek.bind fun _ => .ite (.pure _) (hseparator.bind fun _ => hitem.bind fun _ =>
      (ih (symbol _)).bind fun _ => .pure _)

theorem arguments {item : Parser Expr} (hitem : Moves item) : Moves (arguments item) :=
  (symbol _).bind fun _ => (argumentsUpTo hitem _ (.pure _)).bind fun _ =>
    (symbol _).bind fun _ => .pure _

theorem chain {link : Expr → Parser (Option Expr)} (hlink : ∀ base, Moves (link base))
    (left : Nat) (base : Expr) : Moves (chain link left base) := by
  induction left generalizing base with
  | zero => exact current.bind fun _ => .fail _ _
  | succ left ih =>
    refine (hlink base).bind fun o => ?_
    cases o with
    | none => exact .pure _
    | some longer => exact ih longer

theorem roundsAfter {mark : Kind} {item : Parser α} (hitem : Moves item) (left : Nat) :
    Moves (roundsAfter mark item left) := by
  induction left with
  | zero => exact .pure _
  | succ left ih =>
    exact (accept _).bind fun _ => .ite (hitem.bind fun _ => ih.bind fun _ => .pure _) (.pure _)

theorem eachAfter {mark : Kind} {item : Parser α} (hitem : Moves item) :
    Moves (eachAfter mark item) := get.bind fun _ => roundsAfter hitem _

end Moves

/-! ### Productions -/

namespace Production

variable {list : Parser (List Stmt)} {body : Parser Block} {value cond : Parser Expr}
  {bracket : Parser Index}

theorem moves_block (hlist : Moves list) : Moves (block list) :=
  Moves.here.bind fun _ => hlist.bind fun _ => (Moves.spanFrom _).bind fun _ => .pure _

theorem moves_parameters : Moves parameters :=
  Moves.peek.bind fun _ => .ite (.pure _)
    (Moves.name.bind fun _ => (Moves.eachAfter .name).bind fun _ => .pure _)

theorem moves_function (hlist : Moves list) : Moves (function list) :=
  Moves.here.bind fun _ => (Moves.word _).bind fun _ => Moves.name.bind fun _ =>
    (Moves.symbol _).bind fun _ => moves_parameters.bind fun _ => (Moves.symbol _).bind fun _ =>
      (Moves.word _).bind fun _ => hlist.bind fun _ => (Moves.word _).bind fun _ =>
        (Moves.spanFrom _).bind fun _ => .pure _

theorem moves_optional (mark : Kind) (hvalue : Moves value) : Moves (optional mark value) :=
  (Moves.accept _).bind fun _ => .ite (hvalue.bind fun _ => .pure _) (.pure _)

theorem moves_var (hvalue : Moves value) : Moves (var value) :=
  Moves.here.bind fun _ => (Moves.word _).bind fun _ => Moves.name.bind fun _ =>
    (moves_optional _ hvalue).bind fun _ => (Moves.spanFrom _).bind fun _ => .pure _

theorem moves_assignment (hvalue : Moves value) : Moves (assignment value) :=
  Moves.here.bind fun _ => hvalue.bind fun _ => (Moves.accept _).bind fun _ =>
    .ite (hvalue.bind fun _ => (Moves.spanFrom _).bind fun _ => .pure _)
      ((Moves.spanFrom _).bind fun _ => .pure _)

theorem moves_arm (hcond : Moves cond) (hbody : Moves body) : Moves (arm cond body) :=
  hcond.bind fun _ => (Moves.word _).bind fun _ => hbody.bind fun _ => .pure _

theorem moves_branch (hcond : Moves cond) (hbody : Moves body) : Moves (branch cond body) := by
  have hend : ∀ f : Span → Stmt, ∀ start, Moves (do word .kwEndif; return f (← spanFrom start)) :=
    fun _ _ => (Moves.word _).bind fun _ => (Moves.spanFrom _).bind fun _ => .pure _
  exact Moves.here.bind fun _ => (Moves.word _).bind fun _ => (moves_arm hcond hbody).bind fun _ =>
    (Moves.eachAfter (moves_arm hcond hbody)).bind fun _ => (Moves.accept _).bind fun _ =>
      .ite (hbody.bind fun _ => (Moves.pure _).bind fun _ => hend _ _)
        ((Moves.pure _).bind fun _ => hend _ _)

theorem moves_loop (hcond : Moves cond) (hbody : Moves body) : Moves (loop cond body) :=
  Moves.here.bind fun _ => (Moves.word _).bind fun _ => hcond.bind fun _ =>
    (Moves.word _).bind fun _ => hbody.bind fun _ => (Moves.word _).bind fun _ =>
      (Moves.spanFrom _).bind fun _ => .pure _

theorem moves_direction : Moves direction := by
  refine Moves.current.bind fun token => ?_
  split
  · exact Moves.advance.bind fun _ => .pure _
  · exact Moves.advance.bind fun _ => .pure _
  · exact .fail _ _

theorem moves_count (hvalue : Moves value) (hbody : Moves body) : Moves (count value body) :=
  Moves.here.bind fun _ => (Moves.word _).bind fun _ => Moves.name.bind fun _ =>
    (Moves.symbol _).bind fun _ => hvalue.bind fun _ => moves_direction.bind fun _ =>
      hvalue.bind fun _ => (moves_optional _ hvalue).bind fun _ => (Moves.word _).bind fun _ =>
        hbody.bind fun _ => (Moves.word _).bind fun _ => (Moves.spanFrom _).bind fun _ => .pure _

theorem moves_each (hvalue : Moves value) (hbody : Moves body) : Moves (each value body) := by
  refine Moves.here.bind fun _ => (Moves.word _).bind fun _ => Moves.name.bind fun _ =>
    (Moves.word _).bind fun _ => (Moves.arguments hvalue).bind fun _ => .ite ?_ ?_
  · exact Moves.get.bind fun _ => (Moves.fail _ _).bind fun _ => (Moves.word _).bind fun _ =>
      hbody.bind fun _ => (Moves.word _).bind fun _ => (Moves.spanFrom _).bind fun _ => .pure _
  · exact (Moves.word _).bind fun _ => hbody.bind fun _ => (Moves.word _).bind fun _ =>
      (Moves.spanFrom _).bind fun _ => .pure _

theorem moves_scope (hbody : Moves body) : Moves (scope body) :=
  Moves.here.bind fun _ => (Moves.word _).bind fun _ => hbody.bind fun _ =>
    (Moves.word _).bind fun _ => (Moves.spanFrom _).bind fun _ => .pure _

theorem moves_single (stmt : Span → Stmt) : Moves (single stmt) :=
  Moves.here.bind fun _ => Moves.advance.bind fun _ => (Moves.spanFrom _).bind fun _ => .pure _

theorem moves_unary {operand primary : Parser Expr} (hoperand : Moves operand)
    (hprimary : Moves primary) : Moves (unary operand primary) := by
  refine Moves.here.bind fun _ => Moves.peek.bind fun kind => ?_
  split
  · exact Moves.advance.bind fun _ => hoperand.bind fun _ => (Moves.spanFrom _).bind fun _ =>
      .pure _
  · exact hprimary

theorem moves_parenthesized (hvalue : Moves value) : Moves (parenthesized value) := by
  have hrest : Moves (do let value ← value; symbol .rightParen; return value) :=
    hvalue.bind fun _ => (Moves.symbol _).bind fun _ => .pure _
  exact (Moves.expect _).bind fun _ => Moves.current.bind fun _ =>
    .ite ((Moves.fail _ _).bind fun _ => hrest) hrest

theorem moves_index (hvalue : Moves value) : Moves (index value) := by
  refine (Moves.symbol _).bind fun _ => Moves.bind (Moves.peek.bind fun kind => ?_) fun _ =>
    (Moves.symbol _).bind fun _ => .pure _
  split
  · exact Moves.advance.bind fun _ => .pure _
  · exact Moves.advance.bind fun _ => hvalue.bind fun _ => .pure _
  · exact Moves.advance.bind fun _ => hvalue.bind fun _ => .pure _
  · exact hvalue.bind fun _ => .pure _

theorem moves_optionalIndex (hindex : Moves bracket) : Moves (optionalIndex bracket) :=
  Moves.peek.bind fun _ => .ite hindex (.pure _)

theorem moves_indexedCall (hindex : Moves bracket) (call : Expr) :
    Moves (indexedCall bracket call) :=
  Moves.peek.bind fun _ => .ite
    (hindex.bind fun _ => (Moves.spanFrom _).bind fun _ => .pure _) (.pure _)

theorem moves_suffix (hvalue : Moves value) (hindex : Moves bracket) (base : Expr) :
    Moves (suffix value bracket base) := by
  have haccessor : ∀ f : Index → Span → Option Expr, ∀ start, Moves (do
      let index ← optionalIndex bracket
      return f index (← spanFrom start)) :=
    fun _ _ => (moves_optionalIndex hindex).bind fun _ => (Moves.spanFrom _).bind fun _ => .pure _
  refine Moves.peek.bind fun kind => ?_
  split
  · exact (Moves.arguments hvalue).bind fun _ => (Moves.spanFrom _).bind fun _ =>
      (moves_indexedCall hindex _).bind fun _ => .pure _
  · refine Moves.advance.bind fun _ => (Moves.expect _).bind fun _ => Moves.peek.bind fun _ =>
      .ite ?_ (haccessor (fun index span => some (.dot base _ index span)) _)
    exact (Moves.arguments hvalue).bind fun _ => (Moves.spanFrom _).bind fun _ =>
      (Moves.spanFrom _).bind fun _ => (moves_indexedCall hindex _).bind fun _ => .pure _
  · exact Moves.advance.bind fun _ => Moves.name.bind fun name =>
      haccessor (fun index span => some (.descendant base name index span)) _
  · exact Moves.advance.bind fun _ => Moves.name.bind fun _ =>
      haccessor (fun index span => some (.dot base _ index span)) _
  · exact Moves.advance.bind fun _ => (Moves.spanFrom _).bind fun _ => .pure _
  · exact .pure _

theorem moves_primary {group : Parser Expr} {suffixes : Expr → Parser Expr}
    (hindex : Moves bracket) (hgroup : Moves group) (hsuffixes : ∀ base, Moves (suffixes base)) :
    Moves (primary bracket group suffixes) := by
  refine Moves.current.bind fun token => ?_
  split
  · exact Moves.advance.bind fun _ => .pure _
  · exact Moves.advance.bind fun _ => .pure _
  · exact Moves.advance.bind fun _ => .pure _
  · exact Moves.advance.bind fun _ => Moves.peek.bind fun _ => .ite
      (hindex.bind fun _ => (Moves.spanFrom _).bind fun _ => hsuffixes _) (hsuffixes _)
  · exact hgroup.bind fun _ => hsuffixes _
  · exact .fail _ _

theorem moves_operand {layer : Layer} {tighter : Layer → Parser Expr} {unary : Parser Expr}
    (htighter : ∀ layer, Moves (tighter layer)) (hunary : Moves unary) :
    Moves (operand layer tighter unary) := by
  unfold operand
  split
  · exact htighter _
  · exact hunary

end Production

/-! ### The grammar -/

/-- Whether every production goes forward with this much room for nesting. -/
structure Grammar.Forward (limit room : Nat) : Prop where
  statements : Moves (statements limit room)
  function : Moves (function limit room)
  statement : Moves (statement limit room)
  var : Moves (var limit room)
  assignment : Moves (assignment limit room)
  branch : Moves (branch limit room)
  loop : Moves (loop limit room)
  count : Moves (count limit room)
  each : Moves (each limit room)
  scope : Moves (scope limit room)
  binary : ∀ layer, Moves (binary limit layer room)
  operations : ∀ layer start left, Moves (operations limit layer start room left)
  unary : Moves (unary limit room)
  primary : Moves (primary limit room)
  parenthesized : Moves (parenthesized limit room)
  suffixes : ∀ base, Moves (suffixes limit room base)
  index : Moves (index limit room)

namespace Grammar.Forward

variable {limit room : Nat}

theorem zero (limit : Nat) : Forward limit 0 where
  statements := .tooDeep limit
  function := .tooDeep limit
  statement := .tooDeep limit
  var := .tooDeep limit
  assignment := .tooDeep limit
  branch := .tooDeep limit
  loop := .tooDeep limit
  count := .tooDeep limit
  each := .tooDeep limit
  scope := .tooDeep limit
  binary := fun _ => .tooDeep limit
  operations := by
    intro layer start left
    refine Moves.peek.bind fun kind => ?_
    cases layer.operator? kind with
    | none => exact .pure _
    | some op => exact .tooDeep limit
  unary := .tooDeep limit
  primary := .tooDeep limit
  parenthesized := .tooDeep limit
  suffixes := fun _ => .tooDeep limit
  index := .tooDeep limit

theorem statement_succ (h : Forward limit room) : Moves (Grammar.statement limit (room + 1)) := by
  refine Moves.current.bind fun token => ?_
  split
  · exact h.var
  · exact h.branch
  · exact h.loop
  · exact h.count
  · exact h.each
  · exact h.scope
  · exact Production.moves_single _
  · exact Production.moves_single _
  · exact .ite h.assignment (.fail _ _)

theorem operations_succ (h : Forward limit room) (layer : Layer) (start : Nat) (left : Expr) :
    Moves (Grammar.operations limit layer start (room + 1) left) := by
  refine Moves.peek.bind fun kind => ?_
  cases layer.operator? kind with
  | none => exact .pure _
  | some op =>
    exact Moves.advance.bind fun _ => (Production.moves_operand h.binary h.unary).bind fun _ =>
      (Moves.spanFrom _).bind fun _ => h.operations _ _ _

theorem succ (h : Forward limit room) : Forward limit (room + 1) where
  statements := .statementsUpTo (Moves.peek.bind fun _ => .ite h.function h.statement) _
  function := Production.moves_function h.statements
  statement := h.statement_succ
  var := Production.moves_var (h.binary _)
  assignment := Production.moves_assignment (h.binary _)
  branch := Production.moves_branch h.parenthesized (Production.moves_block h.statements)
  loop := Production.moves_loop h.parenthesized (Production.moves_block h.statements)
  count := Production.moves_count (h.binary _) (Production.moves_block h.statements)
  each := Production.moves_each (h.binary _) (Production.moves_block h.statements)
  scope := Production.moves_scope (Production.moves_block h.statements)
  binary := fun _ => Moves.here.bind fun _ =>
    (Production.moves_operand h.binary h.unary).bind fun _ => h.operations _ _ _
  operations := h.operations_succ
  unary := Production.moves_unary h.unary h.primary
  primary := Production.moves_primary h.index h.parenthesized h.suffixes
  parenthesized := Production.moves_parenthesized (h.binary _)
  suffixes := Moves.chain (Production.moves_suffix (h.binary _) h.index) _
  index := Production.moves_index (h.binary _)

end Grammar.Forward

/-- **Progress**: no production ever goes back. -/
theorem Grammar.forward (limit room : Nat) : Forward limit room := by
  induction room with
  | zero => exact .zero limit
  | succ room ih => exact ih.succ

end FormCalc
