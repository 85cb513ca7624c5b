import FormCalc.Proofs.Grammar.Reading
import FormCalc.Proofs.Token.Fault
import FormCalc.Tree.Grammar

/-!
# Where grammatical faults lie

A parser blames the token at hand, the token before it, a tree it has just read, or what the
lexer blames.  All of these are stretches of the text as long as the cursor holds nothing else
(`Cursor.Inside`).

`Blames text R p` says that a failure of `p` blames a stretch of the text, and that a success
gives a result with the property `R` and a cursor that can go on.  Results matter in two ways:
a tree that is refused is blamed itself, and the start of one may be the start of another.
`Grammar.blaming` collects this for all productions, by induction on the room for nesting.
-/

namespace FormCalc

open FormCalc.Parser

variable {α β : Type} {text : String} {k : Cursor}

/-! ### Cursors inside a text -/

/-- Whether every span that a cursor holds is a stretch of the text. -/
structure Cursor.Inside (text : String) (k : Cursor) : Prop where
  current : k.current.span.Inside text
  before : k.before.Inside text
  rest : ∀ pull ∈ k.rest, (pullSpan pull).Inside text

/-- Whether a parser blames a stretch of the text where it fails, and where it succeeds gives a
result of a kind and a cursor inside the text. -/
def Blames (text : String) (R : α → Prop) (p : Parser α) : Prop :=
  ∀ ⦃k : Cursor⦄, k.Inside text →
    (∀ fault, p k = .error fault → fault.span.Inside text) ∧
      ∀ x k', p k = .ok (x, k') → R x ∧ k'.Inside text

/-- Whether a parser blames a stretch of the text where it fails. -/
abbrev BlamesInside (text : String) (p : Parser α) : Prop := Blames text (fun _ => True) p

/-- Whether a parser gives expressions on stretches of the text, or blames such a stretch. -/
abbrev BlamesExpr (text : String) (p : Parser Expr) : Prop :=
  Blames text (fun e => e.span.Inside text) p

/-- Whether a parser gives statements on stretches of the text, or blames such a stretch. -/
abbrev BlamesStmt (text : String) (p : Parser Stmt) : Prop :=
  Blames text (fun stmt => stmt.span.Inside text) p

namespace Blames

variable {Q : α → Prop} {R : β → Prop} {p q : Parser α} {f : α → Parser β}

theorem pure {x : α} (h : Q x) : Blames text Q (Pure.pure x) := by
  intro k hk
  refine ⟨fun fault hfault => (by cases hfault), fun y k' hy => ?_⟩
  obtain ⟨rfl, rfl⟩ := Prod.mk.inj (pure_eq_ok.mp hy)
  exact ⟨h, hk⟩

theorem bind (hp : Blames text Q p) (hf : ∀ x, Q x → Blames text R (f x)) :
    Blames text R (p >>= f) := by
  intro k hk
  obtain ⟨herror, hok⟩ := hp hk
  cases hout : p k with
  | error fault =>
    rw [bind_of_error hout]
    refine ⟨fun fault' hfault => ?_, fun y k' hy => by cases hy⟩
    obtain rfl := Except.error.inj hfault
    exact herror fault hout
  | ok result =>
    obtain ⟨x, k₁⟩ := result
    obtain ⟨hx, hk₁⟩ := hok x k₁ hout
    rw [bind_of_ok hout]
    exact hf x hx hk₁

/-- A sequence in which the first result does not matter. -/
theorem next (hp : Blames text Q p) (hf : ∀ x, Blames text R (f x)) : Blames text R (p >>= f) :=
  hp.bind fun x _ => hf x

theorem ite {c : Prop} [Decidable c] (hp : Blames text Q p) (hq : Blames text Q q) :
    Blames text Q (if c then p else q) := by
  split
  · exact hp
  · exact hq

theorem fail (cause : GrammarCause) {span : Span} (h : span.Inside text) :
    Blames text Q (Parser.fail cause span) := by
  intro k hk
  refine ⟨fun fault hfault => ?_, fun x k' h => by cases h⟩
  obtain rfl := Except.error.inj hfault
  exact h

theorem get : Blames text (Cursor.Inside text) (get : Parser Cursor) := by
  intro k hk
  refine ⟨fun fault hfault => (by cases hfault), fun x k' h => ?_⟩
  obtain ⟨rfl, rfl⟩ := Prod.mk.inj (Except.ok.inj h)
  exact ⟨hk, hk⟩

theorem current : Blames text (fun token => token.span.Inside text) current :=
  get.bind fun _ hk => .pure hk.current

theorem peek : BlamesInside text peek := get.next fun _ => .pure trivial

theorem here : Blames text (IsBoundary text) here := current.bind fun _ htoken => .pure htoken.start

/-- A span that ends with the token consumed last is a stretch of the text if it starts in it. -/
theorem spanFrom {start : Nat} (h : IsBoundary text start) :
    Blames text (Span.Inside text) (spanFrom start) := by
  refine get.bind fun k hk => .pure ⟨Nat.le_max_right _ _, h, ?_⟩
  rcases Nat.le_total k.before.stop start with hle | hle
  · rw [Nat.max_eq_right hle]
    exact h
  · rw [Nat.max_eq_left hle]
    exact hk.before.stop

theorem tooDeep (limit : Nat) : Blames text Q (Parser.tooDeep limit) :=
  current.bind fun _ htoken => .fail _ htoken

theorem advance : Blames text (fun token => token.span.Inside text) advance := by
  rintro ⟨current, rest, before⟩ ⟨hcurrent, -, hrest⟩
  match rest with
  | [] =>
    refine ⟨fun fault hfault => ?_, fun x k' h => by cases h⟩
    obtain rfl := Except.error.inj hfault
    exact hcurrent
  | .ok next :: rest =>
    obtain ⟨hnext, hmore⟩ := List.forall_mem_cons.mp hrest
    refine ⟨fun fault hfault => (by cases hfault), fun x k' h => ?_⟩
    obtain ⟨rfl, rfl⟩ := Prod.mk.inj (Except.ok.inj h)
    exact ⟨hcurrent, hnext, hcurrent, hmore⟩
  | .error found :: rest =>
    refine ⟨fun fault hfault => ?_, fun x k' h => by cases h⟩
    obtain rfl := Except.error.inj hfault
    exact hrest (.error found) List.mem_cons_self

theorem expect (kind : Kind) : Blames text (fun token => token.span.Inside text) (expect kind) :=
  current.bind fun _ htoken => .ite advance (.fail _ htoken)

theorem accept (kind : Kind) : BlamesInside text (accept kind) :=
  peek.next fun _ => .ite (advance.next fun _ => .pure trivial) (.pure trivial)

theorem symbol (s : Symbol) : BlamesInside text (symbol s) :=
  (expect _).next fun _ => .pure trivial

theorem word (w : Keyword) : BlamesInside text (word w) := (expect _).next fun _ => .pure trivial

theorem name : BlamesInside text name := (expect _).next fun _ => .pure trivial

/-! ### Loops -/

theorem statementsUpTo {item : Parser Stmt} (hitem : BlamesStmt text item) (left : Nat) :
    BlamesInside text (statementsUpTo item left) := by
  induction left with
  | zero =>
    exact peek.next fun _ => .ite (.pure trivial) (hitem.bind fun _ hstmt => .fail _ hstmt)
  | succ left ih =>
    exact peek.next fun _ => .ite (.pure trivial)
      (hitem.next fun _ => ih.next fun _ => .pure trivial)

theorem argumentsUpTo {item : Parser Expr} (hitem : BlamesExpr text item) (left : Nat)
    {separator : Parser Unit} (hseparator : BlamesInside text separator) :
    BlamesInside text (argumentsUpTo item left separator) := by
  induction left generalizing separator with
  | zero =>
    exact peek.next fun _ => .ite (.pure trivial) (hseparator.next fun _ =>
      hitem.bind fun _ he => .fail _ he)
  | succ left ih =>
    exact peek.next fun _ => .ite (.pure trivial) (hseparator.next fun _ =>
      hitem.next fun _ => (ih (symbol _)).next fun _ => .pure trivial)

theorem arguments {item : Parser Expr} (hitem : BlamesExpr text item) :
    BlamesInside text (arguments item) :=
  (symbol _).next fun _ => (argumentsUpTo hitem _ (.pure trivial)).next fun _ =>
    (symbol _).next fun _ => .pure trivial

theorem chain {link : Expr → Parser (Option Expr)}
    (hlink : ∀ base, base.span.Inside text →
      Blames text (fun o => ∀ longer ∈ o, longer.span.Inside text) (link base)) (left : Nat) :
    ∀ base : Expr, base.span.Inside text → BlamesExpr text (chain link left base) := by
  induction left with
  | zero => exact fun _ _ => current.bind fun _ htoken => .fail _ htoken
  | succ left ih =>
    intro base hbase
    refine (hlink base hbase).bind fun o ho => ?_
    cases o with
    | none => exact .pure hbase
    | some longer => exact ih longer (ho longer rfl)

theorem roundsAfter {mark : Kind} {item : Parser α} (hitem : BlamesInside text item) (left : Nat) :
    BlamesInside text (roundsAfter mark item left) := by
  induction left with
  | zero => exact .pure trivial
  | succ left ih =>
    exact (accept _).next fun _ => .ite (hitem.next fun _ => ih.next fun _ => .pure trivial)
      (.pure trivial)

theorem eachAfter {mark : Kind} {item : Parser α} (hitem : BlamesInside text item) :
    BlamesInside text (eachAfter mark item) := get.next fun _ => roundsAfter hitem _

end Blames

/-! ### Productions -/

namespace Production

variable {list : Parser (List Stmt)} {body : Parser Block} {value cond : Parser Expr}
  {bracket : Parser Index}

theorem blames_block (hlist : BlamesInside text list) : BlamesInside text (block list) :=
  Blames.here.bind fun _ hstart => hlist.next fun _ => (Blames.spanFrom hstart).next fun _ =>
    .pure trivial

theorem blames_parameters : BlamesInside text parameters :=
  Blames.peek.next fun _ => .ite (.pure trivial)
    (Blames.name.next fun _ => (Blames.eachAfter .name).next fun _ => .pure trivial)

theorem blames_function (hlist : BlamesInside text list) : BlamesStmt text (function list) :=
  Blames.here.bind fun _ hstart => (Blames.word _).next fun _ => Blames.name.next fun _ =>
    (Blames.symbol _).next fun _ => blames_parameters.next fun _ => (Blames.symbol _).next fun _ =>
      (Blames.word _).next fun _ => hlist.next fun _ => (Blames.word _).next fun _ =>
        (Blames.spanFrom hstart).bind fun _ hspan => .pure hspan

theorem blames_optional (mark : Kind) (hvalue : BlamesExpr text value) :
    BlamesInside text (optional mark value) :=
  (Blames.accept _).next fun _ => .ite (hvalue.next fun _ => .pure trivial) (.pure trivial)

theorem blames_var (hvalue : BlamesExpr text value) : BlamesStmt text (var value) :=
  Blames.here.bind fun _ hstart => (Blames.word _).next fun _ => Blames.name.next fun _ =>
    (blames_optional _ hvalue).next fun _ => (Blames.spanFrom hstart).bind fun _ hspan =>
      .pure hspan

theorem blames_assignment (hvalue : BlamesExpr text value) :
    BlamesStmt text (assignment value) :=
  Blames.here.bind fun _ hstart => hvalue.next fun _ => (Blames.accept _).next fun _ =>
    .ite (hvalue.next fun _ => (Blames.spanFrom hstart).bind fun _ hspan => .pure hspan)
      ((Blames.spanFrom hstart).bind fun _ hspan => .pure hspan)

theorem blames_arm (hcond : BlamesExpr text cond) (hbody : BlamesInside text body) :
    BlamesInside text (arm cond body) :=
  hcond.next fun _ => (Blames.word _).next fun _ => hbody.next fun _ => .pure trivial

theorem blames_branch (hcond : BlamesExpr text cond) (hbody : BlamesInside text body) :
    BlamesStmt text (branch cond body) := by
  have harm := blames_arm hcond hbody
  refine Blames.here.bind fun start hstart => (Blames.word _).next fun _ => harm.next fun first =>
    (Blames.eachAfter harm).next fun arms => (Blames.accept _).next fun _ => ?_
  have hend : ∀ last, BlamesStmt text (do
      word .kwEndif
      return .branch first.1 first.2 (otherwise last arms) (← spanFrom start)) :=
    fun _ => (Blames.word _).next fun _ => (Blames.spanFrom hstart).bind fun _ hspan => .pure hspan
  have hpure : ∀ last : Option Block, BlamesInside text (pure last) := fun _ => .pure trivial
  exact .ite (hbody.next fun _ => (hpure _).next hend) ((hpure _).next hend)

theorem blames_loop (hcond : BlamesExpr text cond) (hbody : BlamesInside text body) :
    BlamesStmt text (loop cond body) :=
  Blames.here.bind fun _ hstart => (Blames.word _).next fun _ => hcond.next fun _ =>
    (Blames.word _).next fun _ => hbody.next fun _ => (Blames.word _).next fun _ =>
      (Blames.spanFrom hstart).bind fun _ hspan => .pure hspan

theorem blames_direction : BlamesInside text direction := by
  refine Blames.current.bind fun token htoken => ?_
  split
  · exact Blames.advance.next fun _ => .pure trivial
  · exact Blames.advance.next fun _ => .pure trivial
  · exact .fail _ htoken

theorem blames_count (hvalue : BlamesExpr text value) (hbody : BlamesInside text body) :
    BlamesStmt text (count value body) :=
  Blames.here.bind fun _ hstart => (Blames.word _).next fun _ => Blames.name.next fun _ =>
    (Blames.symbol _).next fun _ => hvalue.next fun _ => blames_direction.next fun _ =>
      hvalue.next fun _ => (blames_optional _ hvalue).next fun _ => (Blames.word _).next fun _ =>
        hbody.next fun _ => (Blames.word _).next fun _ => (Blames.spanFrom hstart).bind
          fun _ hspan => .pure hspan

/-- Where there is no collection, the parenthesis that closes the list is to blame. -/
theorem blames_each (hvalue : BlamesExpr text value) (hbody : BlamesInside text body) :
    BlamesStmt text (each value body) := by
  refine Blames.here.bind fun start hstart => (Blames.word _).next fun _ =>
    Blames.name.next fun name => (Blames.word _).next fun _ =>
      (Blames.arguments hvalue).next fun collections => ?_
  have hend : BlamesStmt text (do
      word .kwDo
      let body ← body
      word .kwEndfor
      return .each name collections body (← spanFrom start)) :=
    (Blames.word _).next fun _ => hbody.next fun _ => (Blames.word _).next fun _ =>
      (Blames.spanFrom hstart).bind fun _ hspan => .pure hspan
  refine .ite (Blames.get.bind fun k hk => ?_) hend
  have hfail : BlamesInside text
      (Parser.fail (.expectedExpression (.symbol .rightParen)) k.before : Parser PUnit) :=
    .fail _ hk.before
  exact hfail.next fun _ => hend

theorem blames_scope (hbody : BlamesInside text body) : BlamesStmt text (scope body) :=
  Blames.here.bind fun _ hstart => (Blames.word _).next fun _ => hbody.next fun _ =>
    (Blames.word _).next fun _ => (Blames.spanFrom hstart).bind fun _ hspan => .pure hspan

theorem blames_single {stmt : Span → Stmt} (h : ∀ span, (stmt span).span = span) :
    BlamesStmt text (single stmt) := by
  refine Blames.here.bind fun _ hstart => Blames.advance.next fun _ =>
    (Blames.spanFrom hstart).bind fun span hspan => .pure ?_
  rw [h]
  exact hspan

theorem blames_operand {layer : Layer} {tighter : Layer → Parser Expr} {unary : Parser Expr}
    (htighter : ∀ layer, BlamesExpr text (tighter layer)) (hunary : BlamesExpr text unary) :
    BlamesExpr text (operand layer tighter unary) := by
  unfold operand
  split
  · exact htighter _
  · exact hunary

theorem blames_unary {operand primary : Parser Expr} (hoperand : BlamesExpr text operand)
    (hprimary : BlamesExpr text primary) : BlamesExpr text (unary operand primary) := by
  refine Blames.here.bind fun _ hstart => Blames.peek.next fun kind => ?_
  split
  · exact Blames.advance.next fun _ => hoperand.next fun _ => (Blames.spanFrom hstart).bind
      fun _ hspan => .pure hspan
  · exact hprimary

/-- Empty parentheses are blamed from the first to the second. -/
theorem blames_parenthesized (hvalue : BlamesExpr text value) :
    BlamesExpr text (parenthesized value) := by
  have hrest : BlamesExpr text (do let value ← value; symbol .rightParen; return value) :=
    hvalue.bind fun _ he => (Blames.symbol _).next fun _ => .pure he
  refine (Blames.expect _).bind fun opening hopening => Blames.current.bind fun token htoken =>
    .ite ?_ hrest
  have hfail : BlamesInside text
      (Parser.fail .emptyParens (opening.span.cover token.span) : Parser PUnit) :=
    .fail _ (hopening.cover htoken)
  exact hfail.next fun _ => hrest

theorem blames_index (hvalue : BlamesExpr text value) : BlamesInside text (index value) := by
  have hentry : ∀ mode, BlamesInside text (do return Index.entry mode (← value)) :=
    fun _ => hvalue.next fun _ => .pure trivial
  refine (Blames.symbol _).next fun _ => Blames.next (Q := fun _ => True)
    (Blames.peek.next fun kind => ?_) fun _ => (Blames.symbol _).next fun _ => .pure trivial
  split
  · exact Blames.advance.next fun _ => .pure trivial
  · exact Blames.advance.next fun _ => hentry _
  · exact Blames.advance.next fun _ => hentry _
  · exact hentry _

theorem blames_optionalIndex (hindex : BlamesInside text bracket) :
    BlamesInside text (optionalIndex bracket) :=
  Blames.peek.next fun _ => .ite hindex (.pure trivial)

theorem blames_indexedCall (hindex : BlamesInside text bracket) (call : Expr)
    (hcall : call.span.Inside text) : BlamesExpr text (indexedCall bracket call) :=
  Blames.peek.next fun _ => .ite
    (hindex.next fun _ => (Blames.spanFrom hcall.start).bind fun _ hspan => .pure hspan)
    (.pure hcall)

/-- What a suffix makes of its base starts where the base does. -/
theorem blames_suffix (hvalue : BlamesExpr text value) (hindex : BlamesInside text bracket)
    {base : Expr} (hbase : base.span.Inside text) :
    Blames text (fun o => ∀ longer ∈ o, longer.span.Inside text) (suffix value bracket base) := by
  have hsome : ∀ {e : Expr}, e.span.Inside text → ∀ longer ∈ some e, longer.span.Inside text := by
    intro e he longer hlonger
    obtain rfl := Option.some.inj hlonger
    exact he
  have haccessor : ∀ f : Index → Span → Expr, (∀ index span, (f index span).span = span) →
      Blames text (fun o => ∀ longer ∈ o, longer.span.Inside text) (do
        let index ← optionalIndex bracket
        return some (f index (← spanFrom base.span.start))) := by
    intro f hf
    refine (blames_optionalIndex hindex).next fun index =>
      (Blames.spanFrom hbase.start).bind fun span hspan => .pure (hsome ?_)
    rw [hf]
    exact hspan
  refine Blames.peek.next fun kind => ?_
  split
  · exact (Blames.arguments hvalue).next fun _ => (Blames.spanFrom hbase.start).bind
      fun span hspan => (blames_indexedCall hindex (.call base _ false span) hspan).bind
        fun _ he => .pure (hsome he)
  · refine Blames.advance.next fun _ => (Blames.expect _).bind fun member hmember =>
      Blames.peek.next fun _ => .ite ?_ (haccessor (.dot base _) fun _ _ => rfl)
    exact (Blames.arguments hvalue).next fun _ => (Blames.spanFrom hmember.start).next fun _ =>
      (Blames.spanFrom hbase.start).bind fun span hspan =>
        (blames_indexedCall hindex (.method base _ span) hspan).bind
          fun _ he => .pure (hsome he)
  · exact Blames.advance.next fun _ => Blames.name.next fun name =>
      haccessor (.descendant base name) fun _ _ => rfl
  · exact Blames.advance.next fun _ => Blames.name.next fun _ =>
      haccessor (.dot base _) fun _ _ => rfl
  · exact Blames.advance.next fun _ => (Blames.spanFrom hbase.start).bind fun _ hspan =>
      .pure (hsome hspan)
  · exact .pure nofun

theorem blames_primary {group : Parser Expr} {suffixes : Expr → Parser Expr}
    (hindex : BlamesInside text bracket) (hgroup : BlamesExpr text group)
    (hsuffixes : ∀ base : Expr, base.span.Inside text → BlamesExpr text (suffixes base)) :
    BlamesExpr text (primary bracket group suffixes) := by
  refine Blames.current.bind fun token htoken => ?_
  split
  · exact Blames.advance.next fun _ => .pure htoken
  · exact Blames.advance.next fun _ => .pure htoken
  · exact Blames.advance.next fun _ => .pure htoken
  · exact Blames.advance.next fun _ => Blames.peek.next fun _ => .ite
      (hindex.next fun _ => (Blames.spanFrom htoken.start).bind fun _ hspan => hsuffixes _ hspan)
      (hsuffixes _ htoken)
  · exact hgroup.bind fun _ hbase => hsuffixes _ hbase
  · exact .fail _ htoken

end Production

/-! ### The grammar -/

/-- Whether every production blames a stretch of the text, with this much room for nesting. -/
structure Grammar.Blaming (text : String) (limit room : Nat) : Prop where
  statements : BlamesInside text (statements limit room)
  function : BlamesStmt text (function limit room)
  statement : BlamesStmt text (statement limit room)
  var : BlamesStmt text (var limit room)
  assignment : BlamesStmt text (assignment limit room)
  branch : BlamesStmt text (branch limit room)
  loop : BlamesStmt text (loop limit room)
  count : BlamesStmt text (count limit room)
  each : BlamesStmt text (each limit room)
  scope : BlamesStmt text (scope limit room)
  binary : ∀ layer, BlamesExpr text (binary limit layer room)
  operations : ∀ layer start (left : Expr), IsBoundary text start → left.span.Inside text →
    BlamesExpr text (operations limit layer start room left)
  unary : BlamesExpr text (unary limit room)
  primary : BlamesExpr text (primary limit room)
  parenthesized : BlamesExpr text (parenthesized limit room)
  suffixes : ∀ base : Expr, base.span.Inside text → BlamesExpr text (suffixes limit room base)
  index : BlamesInside text (index limit room)

namespace Grammar.Blaming

variable {limit room : Nat}

theorem zero (limit : Nat) : Blaming text limit 0 where
  statements := .tooDeep limit
  function := .tooDeep limit
  statement := .tooDeep limit
  var := .tooDeep limit
  assignment := .tooDeep limit
  branch := .tooDeep limit
  loop := .tooDeep limit
  count := .tooDeep limit
  each := .tooDeep limit
  scope := .tooDeep limit
  binary := fun _ => .tooDeep limit
  operations := by
    intro layer start left _ hleft
    refine Blames.peek.next fun kind => ?_
    cases layer.operator? kind with
    | none => exact .pure hleft
    | some op => exact .tooDeep limit
  unary := .tooDeep limit
  primary := .tooDeep limit
  parenthesized := .tooDeep limit
  suffixes := fun _ _ => .tooDeep limit
  index := .tooDeep limit

theorem statement_succ (h : Blaming text limit room) :
    BlamesStmt text (Grammar.statement limit (room + 1)) := by
  refine Blames.current.bind fun token htoken => ?_
  split
  · exact h.var
  · exact h.branch
  · exact h.loop
  · exact h.count
  · exact h.each
  · exact h.scope
  · exact Production.blames_single fun _ => rfl
  · exact Production.blames_single fun _ => rfl
  · exact .ite h.assignment (.fail _ htoken)

theorem operations_succ (h : Blaming text limit room) (layer : Layer) (start : Nat) (left : Expr)
    (hstart : IsBoundary text start) (hleft : left.span.Inside text) :
    BlamesExpr text (Grammar.operations limit layer start (room + 1) left) := by
  refine Blames.peek.next fun kind => ?_
  cases layer.operator? kind with
  | none => exact .pure hleft
  | some op =>
    exact Blames.advance.next fun _ => (Production.blames_operand h.binary h.unary).next fun _ =>
      (Blames.spanFrom hstart).bind fun _ hspan => h.operations _ _ _ hstart hspan

theorem succ (h : Blaming text limit room) : Blaming text limit (room + 1) where
  statements := .statementsUpTo (Blames.peek.next fun _ => .ite h.function h.statement) _
  function := Production.blames_function h.statements
  statement := h.statement_succ
  var := Production.blames_var (h.binary _)
  assignment := Production.blames_assignment (h.binary _)
  branch := Production.blames_branch h.parenthesized (Production.blames_block h.statements)
  loop := Production.blames_loop h.parenthesized (Production.blames_block h.statements)
  count := Production.blames_count (h.binary _) (Production.blames_block h.statements)
  each := Production.blames_each (h.binary _) (Production.blames_block h.statements)
  scope := Production.blames_scope (Production.blames_block h.statements)
  binary := fun _ => Blames.here.bind fun _ hstart =>
    (Production.blames_operand h.binary h.unary).bind fun _ he => h.operations _ _ _ hstart he
  operations := h.operations_succ
  unary := Production.blames_unary h.unary h.primary
  primary := Production.blames_primary h.index h.parenthesized h.suffixes
  parenthesized := Production.blames_parenthesized (h.binary _)
  suffixes := Blames.chain (fun _ hbase => Production.blames_suffix (h.binary _) h.index hbase) _
  index := Production.blames_index (h.binary _)

end Grammar.Blaming

/-- **Every production blames a stretch of the text.** -/
theorem Grammar.blaming (text : String) (limit room : Nat) : Blaming text limit room := by
  induction room with
  | zero => exact .zero limit
  | succ room ih => exact ih.succ

/-! ### Scripts -/

theorem Grammar.blames_script (limit length : Nat) : BlamesInside text (script limit length) :=
  Blames.advance.next fun _ => (blaming text limit _).statements.next fun _ =>
    Blames.current.bind fun _ htoken => .ite (.pure trivial) (.fail _ htoken)

/-- In front of the first token there are only spans of the text. -/
theorem Cursor.inside_start (text : String) :
    (Cursor.start (Lexer.ofText text).pulls).Inside text :=
  ⟨Span.inside_origin text, Span.inside_origin text, fun _ hpull =>
    Lexer.inside_of_mem_pulls hpull⟩

theorem Program.script_of_parse {maxDepth : Nat} {fault : Fault GrammarCause}
    (h : Program.parse maxDepth text = .error fault) :
    Grammar.script maxDepth text.utf8ByteSize (Cursor.start (Lexer.ofText text).pulls) =
      .error fault := by
  unfold Program.parse at h
  cases hout : Grammar.script maxDepth text.utf8ByteSize
      (Cursor.start (Lexer.ofText text).pulls) with
  | error found =>
    rw [hout] at h
    exact congrArg Except.error (Except.error.inj h)
  | ok result =>
    rw [hout] at h
    cases h

/-- **A script that does not parse is blamed for a stretch of it.** -/
theorem Program.inside_of_parse {maxDepth : Nat} {fault : Fault GrammarCause}
    (h : Program.parse maxDepth text = .error fault) : fault.span.Inside text := by
  obtain ⟨herror, -⟩ :=
    Grammar.blames_script maxDepth text.utf8ByteSize (Cursor.inside_start text)
  exact herror fault (Program.script_of_parse h)

end FormCalc
