import FormCalc.Proofs.Grammar.Reading
import FormCalc.Proofs.Tree.Relocated
import FormCalc.Tree.Grammar

/-!
# Two runs of a parser

A parser decides by the kinds of tokens alone.  So where the offsets of all tokens are moved in
order it comes to the same outcome with the offsets moved (`Grammar.relocates`), and where it
has more room for nesting it comes to the same outcome unless it ran out of room
(`Grammar.loosens`).

Both are said at once.  `Follows f excused m p q` compares a run of `p` with a run of `q` from
the moved cursor: unless `p` ends with an excused fault, `q` ends with the moved fault, or gives
what `m` makes of the result of `p` and leaves the moved cursor.
-/

namespace FormCalc

open FormCalc.Parser

variable {α β : Type} {f : Nat → Nat} {excused : GrammarCause → Prop}

/-! ### Cursors and outcomes -/

/-- A token with its span moved. -/
def Token.relocate (f : Nat → Nat) (token : Token) : Token :=
  ⟨token.kind, token.text, token.span.relocate f⟩

/-- What a lexer gives, with its span moved. -/
def relocatePull (f : Nat → Nat) :
    Except (Fault LexicalCause) Token → Except (Fault LexicalCause) Token
  | .error fault => .error (fault.relocate f)
  | .ok token => .ok (token.relocate f)

/-- A cursor with all spans moved. -/
def Cursor.relocate (f : Nat → Nat) (k : Cursor) : Cursor :=
  ⟨k.current.relocate f, k.rest.map (relocatePull f), k.before.relocate f⟩

/-- The outcome of a parser with all spans moved. -/
def relocateOutcome (f : Nat → Nat) (m : α → α) :
    Except (Fault GrammarCause) (α × Cursor) → Except (Fault GrammarCause) (α × Cursor)
  | .error fault => .error (fault.relocate f)
  | .ok (x, k) => .ok (m x, k.relocate f)

/-- Whether `q` does from a moved cursor what `p` does, unless `p` ends with an excused fault. -/
def Follows (f : Nat → Nat) (excused : GrammarCause → Prop) (m : α → α) (p q : Parser α) : Prop :=
  ∀ k, (∃ fault, p k = .error fault ∧ excused fault.cause) ∨
    q (k.relocate f) = relocateOutcome f m (p k)

namespace Follows

variable {m : α → α} {m' : β → β} {p q p' q' : Parser α} {g g' : α → Parser β}

theorem pure {x y : α} (h : y = m x) :
    Follows f excused m (Pure.pure x) (Pure.pure y) := by
  intro k
  rw [h]
  exact .inr rfl

theorem bind (hp : Follows f excused m p q) (hg : ∀ x, Follows f excused m' (g x) (g' (m x))) :
    Follows f excused m' (p >>= g) (q >>= g') := by
  intro k
  rcases hp k with ⟨fault, herror, hexcused⟩ | hq
  · exact .inl ⟨fault, bind_of_error herror, hexcused⟩
  · cases hout : p k with
    | error fault =>
      rw [hout] at hq
      rw [bind_of_error hout, bind_of_error hq]
      exact .inr rfl
    | ok result =>
      obtain ⟨x, k₁⟩ := result
      rw [hout] at hq
      rw [bind_of_ok hout, bind_of_ok hq]
      exact hg x k₁

theorem ite {c : Prop} [Decidable c] (hp : Follows f excused m p q)
    (hp' : Follows f excused m p' q') :
    Follows f excused m (if c then p else p') (if c then q else q') := by
  split
  · exact hp
  · exact hp'

theorem fail (cause : GrammarCause) {span span' : Span} (h : span' = span.relocate f) :
    Follows f excused m (Parser.fail cause span) (Parser.fail cause span') := by
  intro k
  rw [h]
  exact .inr rfl

theorem get : Follows f excused (Cursor.relocate f) (get : Parser Cursor) get := fun _ => .inr rfl

theorem current : Follows f excused (Token.relocate f) current current := fun _ => .inr rfl

theorem peek : Follows f excused (fun kind => kind) peek peek := fun _ => .inr rfl

theorem here : Follows f excused f here here := fun _ => .inr rfl

theorem spanFrom (hf : Monotone f) (start : Nat) :
    Follows f excused (Span.relocate f) (spanFrom start) (spanFrom (f start)) := by
  intro k
  right
  show Except.ok (Span.mk (f start) (max (f k.before.stop) (f start)), k.relocate f) =
    .ok (⟨f start, f (max k.before.stop start)⟩, k.relocate f)
  rw [hf.map_max]

theorem tooDeep (limit : Nat) :
    Follows f excused m (Parser.tooDeep limit) (Parser.tooDeep limit) :=
  current.bind fun _ => .fail _ rfl

/-- Where there is no room and this is excused, anything may happen. -/
theorem excuse {limit : Nat} (h : excused (.tooDeep limit)) :
    Follows f excused m (Parser.tooDeep limit) q :=
  fun _ => .inl ⟨_, rfl, h⟩

theorem advance : Follows f excused (Token.relocate f) advance advance := by
  intro k
  right
  obtain ⟨token, rest, before⟩ := k
  rcases rest with _ | ⟨fault | next, rest⟩ <;> rfl

theorem expect (kind : Kind) : Follows f excused (Token.relocate f) (expect kind) (expect kind) :=
  current.bind fun _ => .ite advance (.fail _ rfl)

theorem accept (kind : Kind) : Follows f excused (fun b => b) (accept kind) (accept kind) :=
  peek.bind fun _ => .ite (advance.bind fun _ => .pure rfl) (.pure rfl)

theorem symbol (s : Symbol) : Follows f excused (fun u => u) (symbol s) (symbol s) :=
  (expect _).bind fun _ => .pure rfl

theorem word (w : Keyword) : Follows f excused (fun u => u) (word w) (word w) :=
  (expect _).bind fun _ => .pure rfl

theorem name : Follows f excused (fun n => n) name name := (expect _).bind fun _ => .pure rfl

/-! ### Loops -/

theorem statementsUpTo {item item' : Parser Stmt}
    (hitem : Follows f excused (Stmt.relocate f) item item') (left : Nat) :
    Follows f excused (relocateStmts f) (statementsUpTo item left) (statementsUpTo item' left) := by
  induction left with
  | zero =>
    exact peek.bind fun _ => .ite (.pure rfl)
      (hitem.bind fun stmt => .fail _ (stmt.span_relocate f))
  | succ left ih =>
    exact peek.bind fun _ => .ite (.pure rfl) (hitem.bind fun _ => ih.bind fun _ => .pure rfl)

theorem argumentsUpTo {item item' : Parser Expr}
    (hitem : Follows f excused (Expr.relocate f) item item') (left : Nat)
    {separator : Parser Unit} (hseparator : Follows f excused (fun u => u) separator separator) :
    Follows f excused (relocateArguments f) (argumentsUpTo item left separator)
      (argumentsUpTo item' left separator) := by
  induction left generalizing separator with
  | zero =>
    exact peek.bind fun _ => .ite (.pure rfl) (hseparator.bind fun _ =>
      hitem.bind fun e => .fail _ (e.span_relocate f))
  | succ left ih =>
    exact peek.bind fun _ => .ite (.pure rfl) (hseparator.bind fun _ => hitem.bind fun _ =>
      (ih (symbol _)).bind fun _ => .pure rfl)

theorem arguments {item item' : Parser Expr}
    (hitem : Follows f excused (Expr.relocate f) item item') :
    Follows f excused (relocateArguments f) (arguments item) (arguments item') :=
  (symbol _).bind fun _ => (argumentsUpTo hitem _ (.pure rfl)).bind fun _ =>
    (symbol _).bind fun _ => .pure rfl

theorem chain {link link' : Expr → Parser (Option Expr)}
    (hlink : ∀ base, Follows f excused (Option.map (Expr.relocate f)) (link base)
      (link' (base.relocate f))) (left : Nat) (base : Expr) :
    Follows f excused (Expr.relocate f) (chain link left base)
      (chain link' left (base.relocate f)) := by
  induction left generalizing base with
  | zero => exact current.bind fun _ => .fail _ rfl
  | succ left ih =>
    refine (hlink base).bind fun o => ?_
    cases o with
    | none => exact .pure rfl
    | some longer => exact ih longer

theorem roundsAfter {mark : Kind} (hp : Follows f excused m p q) (left : Nat) :
    Follows f excused (List.map m) (roundsAfter mark p left) (roundsAfter mark q left) := by
  induction left with
  | zero => exact .pure rfl
  | succ left ih =>
    exact (accept _).bind fun _ => .ite (hp.bind fun _ => ih.bind fun _ => .pure rfl) (.pure rfl)

theorem eachAfter {mark : Kind} (hp : Follows f excused m p q) :
    Follows f excused (List.map m) (eachAfter mark p) (eachAfter mark q) := by
  refine get.bind fun k => ?_
  have hlength : (k.relocate f).rest.length = k.rest.length := List.length_map _
  rw [hlength]
  exact roundsAfter hp _

end Follows

/-! ### Productions -/

namespace Production

variable {list list' : Parser (List Stmt)} {body body' : Parser Block}
  {value value' cond cond' : Parser Expr} {bracket bracket' : Parser Index}

theorem follows_block (hf : Monotone f)
    (hlist : Follows f excused (relocateStmts f) list list') :
    Follows f excused (Block.relocate f) (block list) (block list') :=
  Follows.here.bind fun _ => hlist.bind fun _ => (Follows.spanFrom hf _).bind fun _ => .pure rfl

theorem follows_parameters : Follows f excused (fun names => names) parameters parameters := by
  refine Follows.peek.bind fun _ => .ite (.pure rfl) ?_
  refine Follows.name.bind fun _ => (Follows.eachAfter .name).bind fun names => .pure ?_
  rw [List.map_id']

theorem follows_function (hf : Monotone f)
    (hlist : Follows f excused (relocateStmts f) list list') :
    Follows f excused (Stmt.relocate f) (function list) (function list') :=
  Follows.here.bind fun _ => (Follows.word _).bind fun _ => Follows.name.bind fun _ =>
    (Follows.symbol _).bind fun _ => follows_parameters.bind fun _ =>
      (Follows.symbol _).bind fun _ => (Follows.word _).bind fun _ => hlist.bind fun _ =>
        (Follows.word _).bind fun _ => (Follows.spanFrom hf _).bind fun _ => .pure rfl

theorem follows_optional (mark : Kind) (hvalue : Follows f excused (Expr.relocate f) value value') :
    Follows f excused (Option.map (Expr.relocate f)) (optional mark value)
      (optional mark value') :=
  (Follows.accept _).bind fun _ => .ite (hvalue.bind fun _ => .pure rfl) (.pure rfl)

theorem follows_var (hf : Monotone f)
    (hvalue : Follows f excused (Expr.relocate f) value value') :
    Follows f excused (Stmt.relocate f) (var value) (var value') :=
  Follows.here.bind fun _ => (Follows.word _).bind fun _ => Follows.name.bind fun _ =>
    (follows_optional _ hvalue).bind fun _ => (Follows.spanFrom hf _).bind fun _ => .pure rfl

theorem follows_assignment (hf : Monotone f)
    (hvalue : Follows f excused (Expr.relocate f) value value') :
    Follows f excused (Stmt.relocate f) (assignment value) (assignment value') :=
  Follows.here.bind fun _ => hvalue.bind fun _ => (Follows.accept _).bind fun _ =>
    .ite (hvalue.bind fun _ => (Follows.spanFrom hf _).bind fun _ => .pure rfl)
      ((Follows.spanFrom hf _).bind fun _ => .pure rfl)

/-- An arm of an `if` with its spans moved. -/
def relocateArm (f : Nat → Nat) (arm : Expr × Block) : Expr × Block :=
  (arm.1.relocate f, arm.2.relocate f)

theorem otherwise_relocate (f : Nat → Nat) (last : Option Block) (arms : List (Expr × Block)) :
    otherwise (last.map (Block.relocate f)) (arms.map (relocateArm f)) =
      (otherwise last arms).relocate f := by
  induction arms with
  | nil => cases last <;> rfl
  | cons arm arms ih => exact congrArg (Otherwise.elseIf _ _) ih

theorem follows_arm (hcond : Follows f excused (Expr.relocate f) cond cond')
    (hbody : Follows f excused (Block.relocate f) body body') :
    Follows f excused (relocateArm f) (arm cond body) (arm cond' body') :=
  hcond.bind fun _ => (Follows.word _).bind fun _ => hbody.bind fun _ => .pure rfl

theorem follows_branch (hf : Monotone f)
    (hcond : Follows f excused (Expr.relocate f) cond cond')
    (hbody : Follows f excused (Block.relocate f) body body') :
    Follows f excused (Stmt.relocate f) (branch cond body) (branch cond' body') := by
  refine Follows.here.bind fun _ => (Follows.word _).bind fun _ =>
    (follows_arm hcond hbody).bind fun first =>
      (Follows.eachAfter (follows_arm hcond hbody)).bind fun arms =>
        (Follows.accept _).bind fun _ => ?_
  -- with or without an `else`, what is behind it is the same
  have hend : ∀ (last : Option Block) start, Follows f excused (Stmt.relocate f)
      (do word .kwEndif
          return .branch first.1 first.2 (otherwise last arms) (← spanFrom start))
      (do word .kwEndif
          return .branch (first.1.relocate f) (first.2.relocate f)
            (otherwise (last.map (Block.relocate f)) (arms.map (relocateArm f)))
            (← spanFrom (f start))) := by
    intro last start
    refine (Follows.word _).bind fun _ => (Follows.spanFrom hf _).bind fun _ => .pure ?_
    rw [otherwise_relocate, Stmt.relocate]
  exact .ite (hbody.bind fun last => hend (some last) _) (hend none _)

theorem follows_loop (hf : Monotone f)
    (hcond : Follows f excused (Expr.relocate f) cond cond')
    (hbody : Follows f excused (Block.relocate f) body body') :
    Follows f excused (Stmt.relocate f) (loop cond body) (loop cond' body') :=
  Follows.here.bind fun _ => (Follows.word _).bind fun _ => hcond.bind fun _ =>
    (Follows.word _).bind fun _ => hbody.bind fun _ => (Follows.word _).bind fun _ =>
      (Follows.spanFrom hf _).bind fun _ => .pure rfl

theorem follows_direction : Follows f excused (fun way => way) direction direction := by
  refine Follows.current.bind fun token => ?_
  dsimp only [Token.relocate]
  split
  · exact Follows.advance.bind fun _ => .pure rfl
  · exact Follows.advance.bind fun _ => .pure rfl
  · exact .fail _ rfl

theorem follows_count (hf : Monotone f)
    (hvalue : Follows f excused (Expr.relocate f) value value')
    (hbody : Follows f excused (Block.relocate f) body body') :
    Follows f excused (Stmt.relocate f) (count value body) (count value' body') :=
  Follows.here.bind fun _ => (Follows.word _).bind fun _ => Follows.name.bind fun _ =>
    (Follows.symbol _).bind fun _ => hvalue.bind fun _ => follows_direction.bind fun _ =>
      hvalue.bind fun _ => (follows_optional _ hvalue).bind fun _ =>
        (Follows.word _).bind fun _ => hbody.bind fun _ => (Follows.word _).bind fun _ =>
          (Follows.spanFrom hf _).bind fun _ => .pure rfl

theorem follows_each (hf : Monotone f)
    (hvalue : Follows f excused (Expr.relocate f) value value')
    (hbody : Follows f excused (Block.relocate f) body body') :
    Follows f excused (Stmt.relocate f) (each value body) (each value' body') := by
  refine Follows.here.bind fun _ => (Follows.word _).bind fun _ => Follows.name.bind fun _ =>
    (Follows.word _).bind fun _ => (Follows.arguments hvalue).bind fun collections => ?_
  rw [isEmpty_relocateArguments]
  refine .ite ?_ ?_
  · exact Follows.get.bind fun _ => (Follows.fail (m := id) _ rfl).bind fun _ =>
      (Follows.word _).bind fun _ => hbody.bind fun _ => (Follows.word _).bind fun _ =>
        (Follows.spanFrom hf _).bind fun _ => .pure rfl
  · exact (Follows.word _).bind fun _ => hbody.bind fun _ => (Follows.word _).bind fun _ =>
      (Follows.spanFrom hf _).bind fun _ => .pure rfl

theorem follows_scope (hf : Monotone f) (hbody : Follows f excused (Block.relocate f) body body') :
    Follows f excused (Stmt.relocate f) (scope body) (scope body') :=
  Follows.here.bind fun _ => (Follows.word _).bind fun _ => hbody.bind fun _ =>
    (Follows.word _).bind fun _ => (Follows.spanFrom hf _).bind fun _ => .pure rfl

theorem follows_single (hf : Monotone f) {stmt : Span → Stmt}
    (hstmt : ∀ span, (stmt span).relocate f = stmt (span.relocate f)) :
    Follows f excused (Stmt.relocate f) (single stmt) (single stmt) :=
  Follows.here.bind fun _ => Follows.advance.bind fun _ =>
    (Follows.spanFrom hf _).bind fun span => .pure (hstmt span).symm

theorem follows_operand {layer : Layer} {tighter tighter' : Layer → Parser Expr}
    {unary unary' : Parser Expr}
    (htighter : ∀ layer, Follows f excused (Expr.relocate f) (tighter layer) (tighter' layer))
    (hunary : Follows f excused (Expr.relocate f) unary unary') :
    Follows f excused (Expr.relocate f) (operand layer tighter unary)
      (operand layer tighter' unary') := by
  unfold operand
  split
  · exact htighter _
  · exact hunary

theorem follows_unary (hf : Monotone f) {operand operand' primary primary' : Parser Expr}
    (hoperand : Follows f excused (Expr.relocate f) operand operand')
    (hprimary : Follows f excused (Expr.relocate f) primary primary') :
    Follows f excused (Expr.relocate f) (unary operand primary) (unary operand' primary') := by
  refine Follows.here.bind fun _ => Follows.peek.bind fun kind => ?_
  split
  · exact Follows.advance.bind fun _ => hoperand.bind fun _ =>
      (Follows.spanFrom hf _).bind fun _ => .pure rfl
  · exact hprimary

theorem follows_parenthesized (hf : Monotone f)
    (hvalue : Follows f excused (Expr.relocate f) value value') :
    Follows f excused (Expr.relocate f) (parenthesized value) (parenthesized value') := by
  have hrest : Follows f excused (Expr.relocate f)
      (do let value ← value; symbol .rightParen; return value)
      (do let value ← value'; symbol .rightParen; return value) :=
    hvalue.bind fun _ => (Follows.symbol _).bind fun _ => .pure rfl
  refine (Follows.expect _).bind fun opening => Follows.current.bind fun token => ?_
  refine .ite ?_ hrest
  refine Follows.bind (m := id) (.fail _ ?_) fun _ => hrest
  exact Span.cover_relocate hf _ _

theorem follows_index (hvalue : Follows f excused (Expr.relocate f) value value') :
    Follows f excused (Index.relocate f) (index value) (index value') := by
  refine (Follows.symbol _).bind fun _ => Follows.bind (Follows.peek.bind fun kind => ?_) fun _ =>
    (Follows.symbol _).bind fun _ => .pure rfl
  split
  · exact Follows.advance.bind fun _ => .pure rfl
  · exact Follows.advance.bind fun _ => hvalue.bind fun _ => .pure rfl
  · exact Follows.advance.bind fun _ => hvalue.bind fun _ => .pure rfl
  · exact hvalue.bind fun _ => .pure rfl

theorem follows_optionalIndex (hindex : Follows f excused (Index.relocate f) bracket bracket') :
    Follows f excused (Index.relocate f) (optionalIndex bracket) (optionalIndex bracket') :=
  Follows.peek.bind fun _ => .ite hindex (.pure rfl)

theorem follows_indexedCall (hf : Monotone f)
    (hindex : Follows f excused (Index.relocate f) bracket bracket') (call : Expr) :
    Follows f excused (Expr.relocate f) (indexedCall bracket call)
      (indexedCall bracket' (call.relocate f)) := by
  unfold indexedCall
  rw [Expr.span_relocate]
  exact Follows.peek.bind fun _ => .ite
    (hindex.bind fun _ => (Follows.spanFrom hf _).bind fun _ => .pure rfl) (.pure rfl)

theorem follows_suffix (hf : Monotone f)
    (hvalue : Follows f excused (Expr.relocate f) value value')
    (hindex : Follows f excused (Index.relocate f) bracket bracket') (base : Expr) :
    Follows f excused (Option.map (Expr.relocate f)) (suffix value bracket base)
      (suffix value' bracket' (base.relocate f)) := by
  unfold suffix
  rw [Expr.span_relocate]
  refine Follows.peek.bind fun kind => ?_
  split
  · exact (Follows.arguments hvalue).bind fun _ => (Follows.spanFrom hf _).bind fun _ =>
      (follows_indexedCall hf hindex _).bind fun _ => .pure rfl
  · refine Follows.advance.bind fun _ => (Follows.expect _).bind fun _ =>
      Follows.peek.bind fun _ => .ite ?_ ?_
    · exact (Follows.arguments hvalue).bind fun _ => (Follows.spanFrom hf _).bind fun _ =>
        (Follows.spanFrom hf _).bind fun _ => (follows_indexedCall hf hindex _).bind fun _ =>
          .pure rfl
    · exact (follows_optionalIndex hindex).bind fun _ => (Follows.spanFrom hf _).bind fun _ =>
        .pure rfl
  · exact Follows.advance.bind fun _ => Follows.name.bind fun _ =>
      (follows_optionalIndex hindex).bind fun _ => (Follows.spanFrom hf _).bind fun _ => .pure rfl
  · exact Follows.advance.bind fun _ => Follows.name.bind fun _ =>
      (follows_optionalIndex hindex).bind fun _ => (Follows.spanFrom hf _).bind fun _ => .pure rfl
  · exact Follows.advance.bind fun _ => (Follows.spanFrom hf _).bind fun _ => .pure rfl
  · exact .pure rfl

theorem follows_primary (hf : Monotone f) {group group' : Parser Expr}
    {suffixes suffixes' : Expr → Parser Expr}
    (hindex : Follows f excused (Index.relocate f) bracket bracket')
    (hgroup : Follows f excused (Expr.relocate f) group group')
    (hsuffixes : ∀ base, Follows f excused (Expr.relocate f) (suffixes base)
      (suffixes' (base.relocate f))) :
    Follows f excused (Expr.relocate f) (primary bracket group suffixes)
      (primary bracket' group' suffixes') := by
  refine Follows.current.bind fun token => ?_
  dsimp only [Token.relocate]
  split
  · exact Follows.advance.bind fun _ => .pure rfl
  · exact Follows.advance.bind fun _ => .pure rfl
  · exact Follows.advance.bind fun _ => .pure rfl
  · exact Follows.advance.bind fun _ => Follows.peek.bind fun _ => .ite
      (hindex.bind fun _ => (Follows.spanFrom hf _).bind fun _ => hsuffixes _) (hsuffixes _)
  · exact hgroup.bind fun _ => hsuffixes _
  · exact .fail _ rfl

end Production

/-! ### The grammar -/

/-- Whether every production does in `room'` what it does in `room`, from a moved cursor. -/
structure Grammar.Following (f : Nat → Nat) (excused : GrammarCause → Prop)
    (limit room limit' room' : Nat) : Prop where
  statements : Follows f excused (relocateStmts f) (statements limit room)
    (statements limit' room')
  function : Follows f excused (Stmt.relocate f) (function limit room) (function limit' room')
  statement : Follows f excused (Stmt.relocate f) (statement limit room) (statement limit' room')
  var : Follows f excused (Stmt.relocate f) (var limit room) (var limit' room')
  assignment : Follows f excused (Stmt.relocate f) (assignment limit room)
    (assignment limit' room')
  branch : Follows f excused (Stmt.relocate f) (branch limit room) (branch limit' room')
  loop : Follows f excused (Stmt.relocate f) (loop limit room) (loop limit' room')
  count : Follows f excused (Stmt.relocate f) (count limit room) (count limit' room')
  each : Follows f excused (Stmt.relocate f) (each limit room) (each limit' room')
  scope : Follows f excused (Stmt.relocate f) (scope limit room) (scope limit' room')
  binary : ∀ layer, Follows f excused (Expr.relocate f) (binary limit layer room)
    (binary limit' layer room')
  operations : ∀ layer start left, Follows f excused (Expr.relocate f)
    (operations limit layer start room left)
    (operations limit' layer (f start) room' (left.relocate f))
  unary : Follows f excused (Expr.relocate f) (unary limit room) (unary limit' room')
  primary : Follows f excused (Expr.relocate f) (primary limit room) (primary limit' room')
  parenthesized : Follows f excused (Expr.relocate f) (parenthesized limit room)
    (parenthesized limit' room')
  suffixes : ∀ base, Follows f excused (Expr.relocate f) (suffixes limit room base)
    (suffixes limit' room' (base.relocate f))
  index : Follows f excused (Index.relocate f) (index limit room) (index limit' room')

namespace Grammar.Following

variable {limit limit' room room' : Nat}

theorem zero (limit : Nat) : Following f excused limit 0 limit 0 where
  statements := .tooDeep limit
  function := .tooDeep limit
  statement := .tooDeep limit
  var := .tooDeep limit
  assignment := .tooDeep limit
  branch := .tooDeep limit
  loop := .tooDeep limit
  count := .tooDeep limit
  each := .tooDeep limit
  scope := .tooDeep limit
  binary := fun _ => .tooDeep limit
  operations := by
    intro layer start left
    refine Follows.peek.bind fun kind => ?_
    cases layer.operator? kind with
    | none => exact .pure rfl
    | some op => exact .tooDeep limit
  unary := .tooDeep limit
  primary := .tooDeep limit
  parenthesized := .tooDeep limit
  suffixes := fun _ => .tooDeep limit
  index := .tooDeep limit

/-- Where a production that has no room is excused, all is well with more room. -/
theorem excused_zero (h : excused (.tooDeep limit)) (limit' room' : Nat) :
    Following f excused limit 0 limit' room' where
  statements := .excuse h
  function := .excuse h
  statement := .excuse h
  var := .excuse h
  assignment := .excuse h
  branch := .excuse h
  loop := .excuse h
  count := .excuse h
  each := .excuse h
  scope := .excuse h
  binary := fun _ => .excuse h
  operations := by
    -- only a layer that finds no operator comes to a result without room
    intro layer start left
    cases room' with
    | zero =>
      refine Follows.peek.bind fun kind => ?_
      cases layer.operator? kind with
      | none => exact .pure rfl
      | some op => exact .excuse h
    | succ room' =>
      refine Follows.peek.bind fun kind => ?_
      cases layer.operator? kind with
      | none => exact .pure rfl
      | some op => exact .excuse h
  unary := .excuse h
  primary := .excuse h
  parenthesized := .excuse h
  suffixes := fun _ => .excuse h
  index := .excuse h

theorem statement_succ (h : Following f excused limit room limit' room') (hf : Monotone f) :
    Follows f excused (Stmt.relocate f) (Grammar.statement limit (room + 1))
      (Grammar.statement limit' (room' + 1)) := by
  refine Follows.current.bind fun token => ?_
  dsimp only [Token.relocate]
  split
  · exact h.var
  · exact h.branch
  · exact h.loop
  · exact h.count
  · exact h.each
  · exact h.scope
  · exact Production.follows_single hf fun _ => rfl
  · exact Production.follows_single hf fun _ => rfl
  · exact .ite h.assignment (.fail _ rfl)

theorem operations_succ (h : Following f excused limit room limit' room') (hf : Monotone f)
    (layer : Layer) (start : Nat) (left : Expr) :
    Follows f excused (Expr.relocate f) (Grammar.operations limit layer start (room + 1) left)
      (Grammar.operations limit' layer (f start) (room' + 1) (left.relocate f)) := by
  refine Follows.peek.bind fun kind => ?_
  cases layer.operator? kind with
  | none => exact .pure rfl
  | some op =>
    exact Follows.advance.bind fun _ =>
      (Production.follows_operand h.binary h.unary).bind fun _ =>
        (Follows.spanFrom hf _).bind fun _ => h.operations _ _ _

theorem succ (h : Following f excused limit room limit' room') (hf : Monotone f) :
    Following f excused limit (room + 1) limit' (room' + 1) where
  statements := .statementsUpTo (Follows.peek.bind fun _ => .ite h.function h.statement) _
  function := Production.follows_function hf h.statements
  statement := h.statement_succ hf
  var := Production.follows_var hf (h.binary _)
  assignment := Production.follows_assignment hf (h.binary _)
  branch := Production.follows_branch hf h.parenthesized (Production.follows_block hf h.statements)
  loop := Production.follows_loop hf h.parenthesized (Production.follows_block hf h.statements)
  count := Production.follows_count hf (h.binary _) (Production.follows_block hf h.statements)
  each := Production.follows_each hf (h.binary _) (Production.follows_block hf h.statements)
  scope := Production.follows_scope hf (Production.follows_block hf h.statements)
  binary := fun _ => Follows.here.bind fun _ =>
    (Production.follows_operand h.binary h.unary).bind fun _ => h.operations _ _ _
  operations := h.operations_succ hf
  unary := Production.follows_unary hf h.unary h.primary
  primary := Production.follows_primary hf h.index h.parenthesized h.suffixes
  parenthesized := Production.follows_parenthesized hf (h.binary _)
  suffixes := Follows.chain (Production.follows_suffix hf (h.binary _) h.index) _
  index := Production.follows_index (h.binary _)

end Grammar.Following

/-- **The grammar knows no places**: from a moved cursor every production comes to the moved
outcome. -/
theorem Grammar.relocates (hf : Monotone f) (limit room : Nat) :
    Following f excused limit room limit room := by
  induction room with
  | zero => exact .zero limit
  | succ room ih => exact ih.succ hf

/-- **More room changes nothing**: where running out of room is excused, every production comes
to the same outcome with more room. -/
theorem Grammar.loosens (hf : Monotone f) {limit : Nat} (h : excused (.tooDeep limit))
    (limit' : Nat) {room room' : Nat} (hroom : room ≤ room') :
    Following f excused limit room limit' room' := by
  induction room generalizing room' with
  | zero => exact .excused_zero h limit' room'
  | succ room ih =>
    obtain ⟨more, rfl⟩ := Nat.exists_eq_add_of_le' hroom
    have hmore : room ≤ more + room := Nat.le_add_left room more
    exact (ih hmore).succ hf

/-! ### Scripts -/

theorem Cursor.relocate_id (k : Cursor) : k.relocate id = k := by
  have hpull : ∀ pull, relocatePull id pull = pull := by
    intro pull
    cases pull <;> rfl
  rw [Cursor.relocate, List.map_id'' hpull]
  rfl

theorem relocateOutcome_id (out : Except (Fault GrammarCause) (Program × Cursor)) :
    relocateOutcome id (Program.relocate id) out = out := by
  cases out with
  | error fault => rfl
  | ok result => rw [relocateOutcome, Program.relocate_id, Cursor.relocate_id]

theorem Grammar.follows_script {limit limit' : Nat} (h : limit ≤ limit') (length : Nat) :
    Follows id (· = .tooDeep limit) (Program.relocate id) (script limit length)
      (script limit' length) := by
  have hroom : Following id (· = .tooDeep limit) limit (limit - 1) limit' (limit' - 1) := by
    refine loosens monotone_id ?_ limit' (Nat.sub_le_sub_right h 1)
    rfl
  exact Follows.advance.bind fun _ => hroom.statements.bind fun _ => Follows.current.bind fun _ =>
    .ite (.pure rfl) (.fail _ rfl)

/-- **A higher bound on the depth changes nothing**, unless the lower one is exceeded. -/
theorem Program.parse_loosens {maxDepth maxDepth' : Nat} (h : maxDepth ≤ maxDepth')
    (text : String) :
    (∃ fault, Program.parse maxDepth text = .error fault ∧ fault.cause = .tooDeep maxDepth) ∨
      Program.parse maxDepth text = Program.parse maxDepth' text := by
  rw [Program.parse, Program.parse]
  rcases Grammar.follows_script h text.utf8ByteSize
    (Cursor.start (Lexer.ofText text).pulls) with ⟨fault, herror, hcause⟩ | hsame
  · left
    rw [herror]
    exact ⟨fault, rfl, hcause⟩
  · right
    rw [Cursor.relocate_id, relocateOutcome_id] at hsame
    rw [hsame]

end FormCalc
