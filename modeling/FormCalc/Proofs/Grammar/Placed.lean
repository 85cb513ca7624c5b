import FormCalc.Proofs.Grammar.Correctness
import FormCalc.Proofs.Tree.Placed

/-!
# Parsed trees stand in their places

The spans of a parsed tree are made of the starts of tokens at hand and of the ends of tokens
consumed last, so everything rests on the order of tokens (`Cursor.Sits`).

A parser that goes from one cursor to another gives a tree between the two.  An expression
starts no earlier than the token at hand and ends with the last token consumed
(`PlacesExpr`).  What is put behind an expression keeps its start (`PlacesBehind`), although
the token there may be a parenthesis in front of it.  A block ends no later than the token at
hand behind it, since an empty block stands in front of that token (`PlacesBlock`).

`Grammar.Placing` collects this for all productions, and `Grammar.placing` proves it by
induction on the room for nesting.
-/

namespace FormCalc

open FormCalc.Parser

variable {α : Type} {text : String} {tokens : List Token} {k k' : Cursor}

/-! ### Cursors among the tokens of a text -/

/-- Whether a cursor stands among tokens that are placed in a text. -/
structure Cursor.Sits (text : String) (tokens : List Token) (k : Cursor) : Prop where
  placed : ∀ token ∈ tokens, token.Placed text
  ahead : k.tokens <:+ tokens
  order : InOrder k.before.stop text.utf8ByteSize (k.tokens.map Token.span)
  before : IsBoundary text k.before.stop

/-- Whether a cursor leads to another one, or is the same. -/
structure Cursor.Reaches (text : String) (tokens : List Token) (k k' : Cursor) : Prop where
  sits : k'.Sits text tokens
  before_le : k.before.stop ≤ k'.before.stop
  start_le : k.current.span.start ≤ k'.current.span.start
  gap : k'.before.stop ≤ k'.current.span.start

/-- Whether a cursor leads to another one past the token at hand. -/
structure Cursor.Beyond (text : String) (tokens : List Token) (k k' : Cursor) : Prop where
  sits : k'.Sits text tokens
  start_le : k.current.span.start ≤ k'.before.stop
  gap : k'.before.stop ≤ k'.current.span.start

namespace Cursor.Sits

theorem gap (hs : k.Sits text tokens) : k.before.stop ≤ k.current.span.start := hs.order.1

theorem current (hs : k.Sits text tokens) : k.current.Placed text :=
  hs.placed _ (hs.ahead.mem List.mem_cons_self)

theorem here (hs : k.Sits text tokens) : IsBoundary text k.current.span.start :=
  hs.current.shows.start

theorem reaches_self (hs : k.Sits text tokens) : k.Reaches text tokens k :=
  ⟨hs, Nat.le_refl _, Nat.le_refl _, hs.gap⟩

/-- Of tokens in order, those that are passed stand in front of the others. -/
theorem inOrder_passed {segment rest : List Token} {before : Span} {hi : Nat}
    (h : InOrder before.stop hi ((segment ++ rest).map Token.span)) :
    InOrder before.stop (segment.foldl (fun _ token => token.span) before).stop
        (segment.map Token.span) ∧
      InOrder (segment.foldl (fun _ token => token.span) before).stop hi (rest.map Token.span) := by
  induction segment generalizing before with
  | nil => exact ⟨Nat.le_refl _, h⟩
  | cons token segment ih =>
    obtain ⟨hstart, hspan, hrest⟩ := h
    obtain ⟨hpassed, hleft⟩ := ih hrest
    exact ⟨⟨hstart, hspan, hpassed⟩, hleft⟩

theorem isBoundary_passed {segment : List Token} {before : Span}
    (hbefore : IsBoundary text before.stop) (hplaced : ∀ token ∈ segment, token.Placed text) :
    IsBoundary text (segment.foldl (fun _ token => token.span) before).stop := by
  induction segment generalizing before with
  | nil => exact hbefore
  | cons token segment ih =>
    obtain ⟨htoken, hrest⟩ := List.forall_mem_cons.mp hplaced
    exact ih htoken.shows.stop hrest

/-- A cursor goes on among the tokens where it stood. -/
theorem passes (hs : k.Sits text tokens) {segment : List Token} (hp : k.Passes segment k') :
    k'.Sits text tokens ∧ InOrder k.before.stop k'.before.stop (segment.map Token.span) := by
  have horder := hs.order
  rw [hp.tokens] at horder
  obtain ⟨hpassed, hleft⟩ := inOrder_passed horder
  have hahead := hs.ahead
  rw [hp.tokens] at hahead
  have hsegment : ∀ token ∈ segment, token.Placed text := fun token htoken =>
    hs.placed token (hahead.mem (List.mem_append_left _ htoken))
  have hbefore := isBoundary_passed hs.before hsegment
  rw [← hp.before] at hpassed hleft hbefore
  exact ⟨⟨hs.placed, (List.suffix_append _ _).trans hahead, hleft, hbefore⟩, hpassed⟩

theorem beyond (hs : k.Sits text tokens) {token : Token} {segment : List Token}
    (hp : k.Passes (token :: segment) k') : k.Beyond text tokens k' := by
  obtain ⟨hs', hpassed⟩ := hs.passes hp
  obtain ⟨hcurrent, -⟩ := List.cons.inj hp.tokens
  obtain ⟨-, hspan, hrest⟩ := hpassed
  have hstop := hrest.le
  rw [← hcurrent] at hspan hstop
  exact ⟨hs', Nat.le_trans hspan hstop, hs'.gap⟩

end Cursor.Sits

theorem Cursor.Beyond.reaches (h : k.Beyond text tokens k') (hs : k.Sits text tokens) :
    k.Reaches text tokens k' := by
  obtain ⟨hs', hstart, hgap⟩ := h
  have hfirst := hs.gap
  exact ⟨hs', by omega, by omega, hgap⟩

theorem Cursor.Beyond.trans {k₁ : Cursor} (h : k.Beyond text tokens k₁)
    (h' : k₁.Reaches text tokens k') : k.Beyond text tokens k' :=
  ⟨h'.sits, Nat.le_trans h.start_le h'.before_le, h'.gap⟩

theorem Cursor.Reaches.trans {k₁ : Cursor} (h : k.Reaches text tokens k₁)
    (h' : k₁.Reaches text tokens k') : k.Reaches text tokens k' :=
  ⟨h'.sits, Nat.le_trans h.before_le h'.before_le, Nat.le_trans h.start_le h'.start_le, h'.gap⟩

/-- Whatever a parser does, it leads to a cursor among the same tokens. -/
theorem Moves.reaches {p : Parser α} (hp : Moves p) (hs : k.Sits text tokens) {x : α}
    (h : p k = .ok (x, k')) : k.Reaches text tokens k' := by
  obtain ⟨segment, hpasses⟩ := hp h
  cases segment with
  | nil =>
    obtain ⟨hs', -⟩ := hs.passes hpasses
    obtain ⟨hcurrent, -⟩ := List.cons.inj hpasses.tokens
    have hbefore : k'.before = k.before := hpasses.before
    exact ⟨hs', Nat.le_of_eq (by rw [hbefore]), Nat.le_of_eq (by rw [hcurrent]), hs'.gap⟩
  | cons token segment => exact (hs.beyond hpasses).reaches hs

/-! ### Steps that consume a token -/

namespace Cursor.Sits

theorem advance (hs : k.Sits text tokens) {token : Token}
    (h : Parser.advance k = .ok (token, k')) :
    token = k.current ∧ k'.before = k.current.span ∧ k.Beyond text tokens k' := by
  obtain ⟨htoken, hpasses⟩ := Cursor.Passes.of_advance h
  exact ⟨htoken, hpasses.before, hs.beyond hpasses⟩

theorem expect (hs : k.Sits text tokens) {kind : Kind} {token : Token}
    (h : Parser.expect kind k = .ok (token, k')) :
    token = k.current ∧ k'.before = k.current.span ∧ k.Beyond text tokens k' := by
  unfold Parser.expect at h
  rw [current_bind] at h
  split at h
  · exact hs.advance h
  · cases h

theorem symbol (hs : k.Sits text tokens) {s : Symbol} {u : Unit}
    (h : Parser.symbol s k = .ok (u, k')) : k.Beyond text tokens k' := by
  obtain ⟨token, k₁, htoken, hk⟩ := bind_eq_ok.mp h
  obtain ⟨-, rfl⟩ := Prod.mk.inj (pure_eq_ok.mp hk)
  exact (hs.expect htoken).2.2

theorem word (hs : k.Sits text tokens) {w : Keyword} {u : Unit}
    (h : Parser.word w k = .ok (u, k')) : k.Beyond text tokens k' := by
  obtain ⟨token, k₁, htoken, hk⟩ := bind_eq_ok.mp h
  obtain ⟨-, rfl⟩ := Prod.mk.inj (pure_eq_ok.mp hk)
  exact (hs.expect htoken).2.2

theorem name (hs : k.Sits text tokens) {name : String}
    (h : Parser.name k = .ok (name, k')) : k.Beyond text tokens k' := by
  obtain ⟨token, k₁, htoken, hk⟩ := bind_eq_ok.mp h
  obtain ⟨-, rfl⟩ := Prod.mk.inj (pure_eq_ok.mp hk)
  exact (hs.expect htoken).2.2

theorem accept (hs : k.Sits text tokens) {kind : Kind} {b : Bool}
    (h : Parser.accept kind k = .ok (b, k')) :
    (b = true ∧ k.Beyond text tokens k') ∨ (b = false ∧ k' = k) := by
  unfold Parser.accept at h
  rw [peek_bind] at h
  split at h
  · obtain ⟨token, k₁, htoken, hk⟩ := bind_eq_ok.mp h
    obtain ⟨rfl, rfl⟩ := Prod.mk.inj (pure_eq_ok.mp hk)
    exact .inl ⟨rfl, (hs.advance htoken).2.2⟩
  · obtain ⟨rfl, rfl⟩ := Prod.mk.inj (pure_eq_ok.mp h)
    exact .inr ⟨rfl, rfl⟩

/-! ### Spans that end here -/

/-- A span that ends with the token consumed last holds what is in front of that end. -/
theorem holds (hs : k.Sits text tokens) {start : Nat} (hstart : IsBoundary text start)
    {parts : List Span} (h : InOrder start (max k.before.stop start) parts) :
    Span.Holds text ⟨start, max k.before.stop start⟩ parts := by
  refine Span.holds_of_inOrder hstart ?_ h
  rcases Nat.le_total k.before.stop start with hle | hle
  · rw [Nat.max_eq_right hle]
    exact hstart
  · rw [Nat.max_eq_left hle]
    exact hs.before

/-- An expression whose span ends here lies in front of this place. -/
theorem lies (hs : k.Sits text tokens) {start lo : Nat} {e : Expr} {parts : List Span}
    (hspan : e.span = ⟨start, max k.before.stop start⟩) (hlo : lo ≤ start)
    (hstart : IsBoundary text start) (hparts : InOrder start k.before.stop parts)
    (hplaced : e.span.Holds text parts → e.Placed text) : e.Lies text lo k.before.stop := by
  have hle := hparts.le
  have hholds := hs.holds hstart (hparts.mono (Nat.le_refl _) (Nat.le_max_left _ start))
  rw [← hspan] at hholds
  refine .of_placed (hplaced hholds) ?_ ?_
  · rw [hspan]
    exact hlo
  · rw [hspan]
    exact Nat.max_le.mpr ⟨Nat.le_refl _, hle⟩

/-- The token at hand, once it is consumed, is the place of a leaf. -/
theorem leaf (hs : k.Sits text tokens) (hbefore : k'.before = k.current.span) {e : Expr}
    (hspan : e.span = k.current.span)
    (hplaced : k.current.span.Holds text [] → k.current.span.Shows text k.current.text →
      e.Placed text) : e.Lies text k.current.span.start k'.before.stop := by
  have hshows := hs.current.shows
  refine .of_placed (hplaced hshows.holds hshows) ?_ ?_
  · exact Nat.le_of_eq (congrArg Span.start hspan.symm)
  · exact Nat.le_of_eq (congrArg Span.stop (hspan.trans hbefore.symm))

end Cursor.Sits

/-! ### What the parts of productions give -/

section Parts

variable (text tokens)

/-- Whether a parser gives expressions between the token at hand and the last one consumed. -/
def PlacesExpr (p : Parser Expr) : Prop :=
  ∀ ⦃k : Cursor⦄ ⦃e : Expr⦄ ⦃k' : Cursor⦄, k.Sits text tokens → p k = .ok (e, k') →
    k.Beyond text tokens k' ∧ e.Lies text k.current.span.start k'.before.stop

/-- Whether a parser takes an expression in front of the token at hand and gives one that starts
with it. -/
def PlacesBehind (p : Expr → Parser Expr) : Prop :=
  ∀ ⦃k : Cursor⦄ ⦃lo : Nat⦄ ⦃base e : Expr⦄ ⦃k' : Cursor⦄, k.Sits text tokens →
    base.Lies text lo k.before.stop → p base k = .ok (e, k') →
      k.Reaches text tokens k' ∧ e.Lies text lo k'.before.stop

/-- Whether a parser gives indexes between the token at hand and the last one consumed. -/
def PlacesIndex (p : Parser Index) : Prop :=
  ∀ ⦃k : Cursor⦄ ⦃index : Index⦄ ⦃k' : Cursor⦄, k.Sits text tokens → p k = .ok (index, k') →
    k.Beyond text tokens k' ∧ index.Placed text ∧
      InOrder k.current.span.start k'.before.stop index.spans

/-- Whether a parser gives statements between the token at hand and the last one consumed,
unless there are none. -/
def PlacesStmts (p : Parser (List Stmt)) : Prop :=
  ∀ ⦃k : Cursor⦄ ⦃stmts : List Stmt⦄ ⦃k' : Cursor⦄, k.Sits text tokens →
    p k = .ok (stmts, k') → k.Reaches text tokens k' ∧ PlacedStmts text tokens stmts ∧
      ((stmts = [] ∧ k' = k) ∨
        InOrder k.current.span.start k'.before.stop (stmts.map Stmt.span))

/-- Whether a parser gives blocks between the token at hand and the one behind. -/
def PlacesBlock (p : Parser Block) : Prop :=
  ∀ ⦃k : Cursor⦄ ⦃body : Block⦄ ⦃k' : Cursor⦄, k.Sits text tokens → p k = .ok (body, k') →
    k.Reaches text tokens k' ∧ body.Placed text tokens ∧
      InOrder k.current.span.start k'.current.span.start [body.span]

/-- Whether a parser gives statements that run from the token at hand to the last one
consumed. -/
def PlacesStmt (p : Parser Stmt) : Prop :=
  ∀ ⦃k : Cursor⦄ ⦃stmt : Stmt⦄ ⦃k' : Cursor⦄, k.Sits text tokens → p k = .ok (stmt, k') →
    k.Beyond text tokens k' ∧ stmt.Placed text tokens ∧
      stmt.span = ⟨k.current.span.start, k'.before.stop⟩

end Parts

namespace Production

variable {list : Parser (List Stmt)} {body : Parser Block} {value cond : Parser Expr}
  {bracket : Parser Index}

/-! ### Expressions -/

theorem places_unary {operand primary : Parser Expr} (hoperand : PlacesExpr text tokens operand)
    (hprimary : PlacesExpr text tokens primary) :
    PlacesExpr text tokens (unary operand primary) := by
  intro k e k' hs h
  simp only [unary, here_bind, peek_bind] at h
  cases hop : UnaryOp.ofKind? k.current.kind with
  | none =>
    rw [hop] at h
    exact hprimary hs h
  | some op =>
    rw [hop] at h
    simp only [bind_eq_ok, spanFrom_bind, pure_eq_ok, Prod.mk.injEq] at h
    obtain ⟨_, k₁, hsign, inner, k₂, hinner, rfl, rfl⟩ := h
    obtain ⟨-, -, hs₁, hstart₁, hgap₁⟩ := hs.advance hsign
    obtain ⟨⟨hs₂, hstart₂, hgap₂⟩, hlies⟩ := hoperand hs₁ hinner
    refine ⟨⟨hs₂, by omega, hgap₂⟩, ?_⟩
    have hparts : InOrder k.current.span.start k₂.before.stop [inner.span] :=
      hlies.alone.mono (by omega) (Nat.le_refl _)
    exact hs₂.lies rfl (Nat.le_refl _) hs.here hparts fun hholds => ⟨hholds, hlies.placed⟩

theorem places_parenthesized (hvalue : PlacesExpr text tokens value) :
    PlacesExpr text tokens (parenthesized value) := by
  intro k e k' hs h
  simp only [parenthesized, bind_eq_ok, current_bind] at h
  obtain ⟨_, k₁, hopen, h⟩ := h
  obtain ⟨-, -, hs₁, hstart₁, hgap₁⟩ := hs.expect hopen
  split at h
  · cases h
  · simp only [bind_eq_ok, pure_eq_ok, Prod.mk.injEq] at h
    obtain ⟨inner, k₂, hinner, _, k₃, hclose, rfl, rfl⟩ := h
    obtain ⟨⟨hs₂, hstart₂, hgap₂⟩, hlies⟩ := hvalue hs₁ hinner
    obtain ⟨hs₃, hstart₃, hgap₃⟩ := hs₂.symbol hclose
    have hlo := hlies.lo_le
    have hhi := hlies.le_hi
    exact ⟨⟨hs₃, by omega, hgap₃⟩, .of_placed hlies.placed (by omega) (by omega)⟩

/-- The expression of an index stands behind its sign. -/
theorem places_signed (hvalue : PlacesExpr text tokens value) {k₁ : Cursor} {token : Token}
    {e : Expr} (hs : k.Sits text tokens) (hsign : advance k = .ok (token, k₁))
    (h : value k₁ = .ok (e, k')) (mode : IndexMode) :
    k.Beyond text tokens k' ∧ (Index.entry mode e).Placed text ∧
      InOrder k.current.span.start k'.before.stop (Index.entry mode e).spans := by
  obtain ⟨-, -, hs₁, hstart₁, hgap₁⟩ := hs.advance hsign
  obtain ⟨⟨hs₂, hstart₂, hgap₂⟩, hlies⟩ := hvalue hs₁ h
  exact ⟨⟨hs₂, by omega, hgap₂⟩, hlies.placed, hlies.alone.mono (by omega) (Nat.le_refl _)⟩

theorem places_entry (hvalue : PlacesExpr text tokens value) :
    PlacesIndex text tokens (entry value) := by
  intro k i k' hs h
  simp only [entry, peek_bind] at h
  generalize k.current.kind = kind at h
  split at h
  · simp only [bind_eq_ok, pure_eq_ok, Prod.mk.injEq] at h
    obtain ⟨_, k₁, hstar, rfl, rfl⟩ := h
    obtain ⟨-, -, hs₁, hstart₁, hgap₁⟩ := hs.advance hstar
    exact ⟨⟨hs₁, hstart₁, hgap₁⟩, trivial, hstart₁⟩
  · simp only [bind_eq_ok, pure_eq_ok, Prod.mk.injEq] at h
    obtain ⟨_, k₁, hsign, e, k₂, he, rfl, rfl⟩ := h
    exact places_signed hvalue hs hsign he _
  · simp only [bind_eq_ok, pure_eq_ok, Prod.mk.injEq] at h
    obtain ⟨_, k₁, hsign, e, k₂, he, rfl, rfl⟩ := h
    exact places_signed hvalue hs hsign he _
  · simp only [bind_eq_ok, pure_eq_ok, Prod.mk.injEq] at h
    obtain ⟨e, k₁, he, rfl, rfl⟩ := h
    obtain ⟨hbeyond, hlies⟩ := hvalue hs he
    exact ⟨hbeyond, hlies.placed, hlies.alone⟩

theorem places_index (hvalue : PlacesExpr text tokens value) :
    PlacesIndex text tokens (index value) := by
  intro k i k' hs h
  rw [index_eq] at h
  simp only [bind_eq_ok, pure_eq_ok, Prod.mk.injEq] at h
  obtain ⟨_, k₁, hopen, inner, k₂, hinner, _, k₃, hclose, rfl, rfl⟩ := h
  obtain ⟨hs₁, hstart₁, hgap₁⟩ := hs.symbol hopen
  obtain ⟨⟨hs₂, hstart₂, hgap₂⟩, hplaced, horder⟩ := places_entry hvalue hs₁ hinner
  obtain ⟨hs₃, hstart₃, hgap₃⟩ := hs₂.symbol hclose
  exact ⟨⟨hs₃, by omega, hgap₃⟩, hplaced, horder.mono (by omega) (by omega)⟩

theorem places_optionalIndex (hbracket : PlacesIndex text tokens bracket)
    (hs : k.Sits text tokens) {i : Index} (h : optionalIndex bracket k = .ok (i, k')) :
    k.Reaches text tokens k' ∧ i.Placed text ∧ InOrder k.before.stop k'.before.stop i.spans := by
  unfold optionalIndex at h
  rw [peek_bind] at h
  split at h
  · obtain ⟨hbeyond, hplaced, horder⟩ := hbracket hs h
    exact ⟨hbeyond.reaches hs, hplaced, horder.mono hs.gap (Nat.le_refl _)⟩
  · obtain ⟨rfl, rfl⟩ := Prod.mk.inj (pure_eq_ok.mp h)
    exact ⟨hs.reaches_self, trivial, Nat.le_refl _⟩

/-! ### Arguments -/

theorem places_argumentsUpTo (hvalue : PlacesExpr text tokens value) (left : Nat)
    {separator : Parser Unit} (hseparator : Moves separator) (hs : k.Sits text tokens)
    {args : List Expr} (h : argumentsUpTo value left separator k = .ok (args, k')) :
    k.Reaches text tokens k' ∧ PlacedArguments text args ∧
      InOrder k.before.stop k'.before.stop (args.map Expr.span) := by
  induction left generalizing separator k args with
  | zero =>
    rw [argumentsUpTo, peek_bind] at h
    split at h
    · obtain ⟨rfl, rfl⟩ := Prod.mk.inj (pure_eq_ok.mp h)
      exact ⟨hs.reaches_self, trivial, Nat.le_refl _⟩
    · simp [bind_eq_ok] at h
  | succ left ih =>
    rw [argumentsUpTo, peek_bind] at h
    split at h
    · obtain ⟨rfl, rfl⟩ := Prod.mk.inj (pure_eq_ok.mp h)
      exact ⟨hs.reaches_self, trivial, Nat.le_refl _⟩
    · simp only [bind_eq_ok, pure_eq_ok, Prod.mk.injEq] at h
      obtain ⟨_, k₁, hmark, first, k₂, hfirst, rest, k₃, hrest, rfl, rfl⟩ := h
      obtain ⟨hs₁, hbefore₁, hstart₁, hgap₁⟩ := hseparator.reaches hs hmark
      obtain ⟨⟨hs₂, hstart₂, hgap₂⟩, hlies⟩ := hvalue hs₁ hfirst
      obtain ⟨⟨hs₃, hbefore₃, hstart₃, hgap₃⟩, hplaced, horder⟩ := ih (.symbol _) hs₂ hrest
      refine ⟨⟨hs₃, by omega, by omega, hgap₃⟩, ⟨hlies.placed, hplaced⟩, ?_⟩
      exact (hlies.inOrder horder).mono (by omega) (Nat.le_refl _)

theorem places_arguments (hvalue : PlacesExpr text tokens value) (hs : k.Sits text tokens)
    {args : List Expr} (h : arguments value k = .ok (args, k')) :
    k.Beyond text tokens k' ∧ PlacedArguments text args ∧
      InOrder k.current.span.start k'.before.stop (args.map Expr.span) := by
  simp only [arguments, bind_eq_ok, pure_eq_ok, Prod.mk.injEq] at h
  obtain ⟨_, k₁, hopen, inner, k₂, hinner, _, k₃, hclose, rfl, rfl⟩ := h
  obtain ⟨hs₁, hstart₁, hgap₁⟩ := hs.symbol hopen
  obtain ⟨⟨hs₂, hbefore₂, hstart₂, hgap₂⟩, hplaced, horder⟩ :=
    places_argumentsUpTo hvalue maxLinks (.pure ()) hs₁ hinner
  obtain ⟨hs₃, hstart₃, hgap₃⟩ := hs₂.symbol hclose
  exact ⟨⟨hs₃, by omega, hgap₃⟩, hplaced, horder.mono (by omega) (by omega)⟩

/-! ### Accessors and calls -/

theorem places_indexedCall (hbracket : PlacesIndex text tokens bracket) :
    PlacesBehind text tokens (indexedCall bracket) := by
  intro k lo call e k' hs hcall h
  unfold indexedCall at h
  rw [peek_bind] at h
  split at h
  · simp only [bind_eq_ok, spanFrom_bind, pure_eq_ok, Prod.mk.injEq] at h
    obtain ⟨i, k₁, hi, rfl, rfl⟩ := h
    obtain ⟨hbeyond, hplaced, horder⟩ := hbracket hs hi
    have hparts := hcall.parts (horder.mono hs.gap (Nat.le_refl _))
    refine ⟨hbeyond.reaches hs, ?_⟩
    exact hbeyond.sits.lies rfl hcall.lo_le hcall.start hparts
      fun hholds => ⟨hholds, hcall.placed, hplaced⟩
  · obtain ⟨rfl, rfl⟩ := Prod.mk.inj (pure_eq_ok.mp h)
    exact ⟨hs.reaches_self, hcall⟩

/-- What an accessor makes of its base, where an index may follow. -/
theorem lies_accessor (hbracket : PlacesIndex text tokens bracket) {k₁ : Cursor} {lo : Nat}
    {base e : Expr} {i : Index} (hbase : base.Lies text lo k.before.stop)
    (hreaches : k.Reaches text tokens k₁) (h : optionalIndex bracket k₁ = .ok (i, k'))
    (hspan : e.span = ⟨base.span.start, max k'.before.stop base.span.start⟩)
    (hplaced : e.span.Holds text (base.span :: i.spans) → base.Placed text → i.Placed text →
      e.Placed text) :
    k.Reaches text tokens k' ∧ e.Lies text lo k'.before.stop := by
  obtain ⟨hreaches', hindex, horder⟩ := places_optionalIndex hbracket hreaches.sits h
  have hparts := hbase.parts (horder.mono hreaches.before_le (Nat.le_refl _))
  exact ⟨hreaches.trans hreaches', hreaches'.sits.lies hspan hbase.lo_le hbase.start hparts
    fun hholds => hplaced hholds hbase.placed hindex⟩

/-- An accessor with a mark and a name, where an index may follow. -/
theorem lies_marked (hbracket : PlacesIndex text tokens bracket) {k₁ k₂ : Cursor} {lo : Nat}
    {base e : Expr} {token : Token} {name : String} {i : Index} (hs : k.Sits text tokens)
    (hbase : base.Lies text lo k.before.stop) (hmark : advance k = .ok (token, k₁))
    (hname : Parser.name k₁ = .ok (name, k₂)) (h : optionalIndex bracket k₂ = .ok (i, k'))
    (hspan : e.span = ⟨base.span.start, max k'.before.stop base.span.start⟩)
    (hplaced : e.span.Holds text (base.span :: i.spans) → base.Placed text → i.Placed text →
      e.Placed text) :
    k.Reaches text tokens k' ∧ e.Lies text lo k'.before.stop := by
  obtain ⟨-, -, hbeyond⟩ := hs.advance hmark
  have hreaches := (hbeyond.sits.name hname).reaches hbeyond.sits
  exact lies_accessor hbracket hbase ((hbeyond.reaches hs).trans hreaches) h hspan hplaced

theorem lies_call (hvalue : PlacesExpr text tokens value) {lo : Nat} {callee : Expr}
    {args : List Expr} (isMethod : Bool) (hs : k.Sits text tokens)
    (hcallee : callee.Lies text lo k.before.stop) (h : arguments value k = .ok (args, k')) :
    k.Beyond text tokens k' ∧ (Expr.call callee args isMethod
      ⟨callee.span.start, max k'.before.stop callee.span.start⟩).Lies text lo k'.before.stop := by
  obtain ⟨hbeyond, hplaced, horder⟩ := places_arguments hvalue hs h
  have hparts := hcallee.parts (horder.mono hs.gap (Nat.le_refl _))
  refine ⟨hbeyond, hbeyond.sits.lies rfl hcallee.lo_le hcallee.start hparts ?_⟩
  exact fun hholds => ⟨hholds, hcallee.placed, hplaced⟩

theorem lies_method {lo mid : Nat} {receiver call : Expr} (hs : k.Sits text tokens)
    (hreceiver : receiver.Lies text lo mid) (hcall : call.Lies text mid k.before.stop) :
    (Expr.method receiver call
      ⟨receiver.span.start, max k.before.stop receiver.span.start⟩).Lies text lo
        k.before.stop := by
  have hparts := hreceiver.parts hcall.alone
  refine hs.lies rfl hreceiver.lo_le hreceiver.start hparts ?_
  exact fun hholds => ⟨hholds, hreceiver.placed, hcall.placed⟩

theorem places_suffix (hvalue : PlacesExpr text tokens value)
    (hbracket : PlacesIndex text tokens bracket) {lo : Nat} {base : Expr} {o : Option Expr}
    (hs : k.Sits text tokens) (hbase : base.Lies text lo k.before.stop)
    (h : suffix value bracket base k = .ok (o, k')) :
    k.Reaches text tokens k' ∧ ∀ longer ∈ o, longer.Lies text lo k'.before.stop := by
  simp only [suffix, peek_bind] at h
  generalize k.current.kind = kind at h
  split at h
  · -- a call
    simp only [bind_eq_ok, spanFrom_bind, pure_eq_ok, Prod.mk.injEq] at h
    obtain ⟨args, k₁, hargs, e, k₂, he, rfl, rfl⟩ := h
    obtain ⟨hbeyond, hcall⟩ := lies_call hvalue false hs hbase hargs
    obtain ⟨hreaches, hlies⟩ := places_indexedCall hbracket hbeyond.sits hcall he
    exact ⟨(hbeyond.trans hreaches).reaches hs, by simpa using hlies⟩
  · -- a member or a method, whose name is behind the point
    simp only [bind_eq_ok, peek_bind] at h
    obtain ⟨_, k₁, hpoint, member, k₂, hmember, h⟩ := h
    obtain ⟨-, -, hbeyond₁⟩ := hs.advance hpoint
    obtain ⟨rfl, hbefore₂, hbeyond₂⟩ := hbeyond₁.sits.expect hmember
    have hreaches₂ := (hbeyond₁.trans (hbeyond₂.reaches hbeyond₁.sits)).reaches hs
    split at h
    · simp only [bind_eq_ok, spanFrom_bind, pure_eq_ok, Prod.mk.injEq] at h
      obtain ⟨args, k₃, hargs, e, k₄, he, rfl, rfl⟩ := h
      have hname : (Expr.identifier k₁.current.text k₁.current.span).Lies text
          k₁.current.span.start k₂.before.stop :=
        hbeyond₁.sits.leaf hbefore₂ rfl fun hholds hshows => ⟨hholds, hshows⟩
      have hfront : k.before.stop ≤ k₁.current.span.start :=
        Nat.le_trans (hbeyond₁.reaches hs).before_le hbeyond₁.gap
      obtain ⟨hbeyond₃, hcall⟩ := lies_call hvalue true hbeyond₂.sits hname hargs
      have hmethod := lies_method hbeyond₃.sits hbase (hcall.mono hfront (Nat.le_refl _))
      obtain ⟨hreaches₄, hlies⟩ := places_indexedCall hbracket hbeyond₃.sits hmethod he
      have hreaches₃ := hreaches₂.trans (hbeyond₃.reaches hbeyond₂.sits)
      exact ⟨hreaches₃.trans hreaches₄, by simpa using hlies⟩
    · simp only [bind_eq_ok, spanFrom_bind, pure_eq_ok, Prod.mk.injEq] at h
      obtain ⟨i, k₃, hi, rfl, rfl⟩ := h
      obtain ⟨hreaches, hlies⟩ :=
        lies_accessor (e := .dot base (.named k₁.current.text) i _) hbracket hbase hreaches₂ hi rfl
          fun hholds hplaced hindex => ⟨hholds, hplaced, hindex⟩
      exact ⟨hreaches, by simpa using hlies⟩
  · simp only [bind_eq_ok, spanFrom_bind, pure_eq_ok, Prod.mk.injEq] at h
    obtain ⟨_, k₁, hpoint, n, k₂, hn, i, k₃, hi, rfl, rfl⟩ := h
    obtain ⟨hreaches, hlies⟩ :=
      lies_marked (e := .descendant base n i _) hbracket hs hbase hpoint hn hi rfl
        fun hholds hplaced hindex => ⟨hholds, hplaced, hindex⟩
    exact ⟨hreaches, by simpa using hlies⟩
  · simp only [bind_eq_ok, spanFrom_bind, pure_eq_ok, Prod.mk.injEq] at h
    obtain ⟨_, k₁, hpoint, n, k₂, hn, i, k₃, hi, rfl, rfl⟩ := h
    obtain ⟨hreaches, hlies⟩ :=
      lies_marked (e := .dot base (.hash n) i _) hbracket hs hbase hpoint hn hi rfl
        fun hholds hplaced hindex => ⟨hholds, hplaced, hindex⟩
    exact ⟨hreaches, by simpa using hlies⟩
  · simp only [bind_eq_ok, spanFrom_bind, pure_eq_ok, Prod.mk.injEq] at h
    obtain ⟨_, k₁, hstar, rfl, rfl⟩ := h
    obtain ⟨-, -, hbeyond⟩ := hs.advance hstar
    have hnone : InOrder k.before.stop k₁.before.stop [] := Nat.le_trans hs.gap hbeyond.start_le
    have hlies : (Expr.dot base .star .none
        ⟨base.span.start, max k₁.before.stop base.span.start⟩).Lies text lo k₁.before.stop :=
      hbeyond.sits.lies rfl hbase.lo_le hbase.start (hbase.parts hnone)
        fun hholds => ⟨hholds, hbase.placed, trivial⟩
    exact ⟨hbeyond.reaches hs, by simpa using hlies⟩
  · obtain ⟨rfl, rfl⟩ := Prod.mk.inj (pure_eq_ok.mp h)
    exact ⟨hs.reaches_self, by simp⟩

theorem places_chain {link : Expr → Parser (Option Expr)}
    (hlink : ∀ ⦃k : Cursor⦄ ⦃lo : Nat⦄ ⦃base : Expr⦄ ⦃o : Option Expr⦄ ⦃k' : Cursor⦄,
      k.Sits text tokens → base.Lies text lo k.before.stop → link base k = .ok (o, k') →
        k.Reaches text tokens k' ∧ ∀ longer ∈ o, longer.Lies text lo k'.before.stop)
    (left : Nat) : PlacesBehind text tokens (chain link left) := by
  induction left with
  | zero =>
    intro k lo base e k' hs hbase h
    rw [chain, current_bind] at h
    cases h
  | succ left ih =>
    intro k lo base e k' hs hbase h
    rw [chain] at h
    obtain ⟨o, k₁, ho, hrest⟩ := bind_eq_ok.mp h
    obtain ⟨hreaches₁, hlonger⟩ := hlink hs hbase ho
    cases o with
    | none =>
      obtain ⟨rfl, rfl⟩ := Prod.mk.inj (pure_eq_ok.mp hrest)
      exact ⟨hreaches₁, hbase.mono (Nat.le_refl _) hreaches₁.before_le⟩
    | some longer =>
      obtain ⟨hreaches, hlies⟩ := ih hreaches₁.sits (hlonger longer rfl) hrest
      exact ⟨hreaches₁.trans hreaches, hlies⟩

theorem places_primary {group : Parser Expr} {suffixes : Expr → Parser Expr}
    (hbracket : PlacesIndex text tokens bracket) (hgroup : PlacesExpr text tokens group)
    (hsuffixes : PlacesBehind text tokens suffixes) :
    PlacesExpr text tokens (primary bracket group suffixes) := by
  intro k e k' hs h
  simp only [primary, current_bind] at h
  generalize hkind : k.current.kind = kind at h
  split at h
  · simp only [bind_eq_ok, pure_eq_ok, Prod.mk.injEq] at h
    obtain ⟨_, k₁, htoken, rfl, rfl⟩ := h
    obtain ⟨-, hbefore, hbeyond⟩ := hs.advance htoken
    refine ⟨hbeyond, hs.leaf hbefore rfl fun hholds hshows => ?_⟩
    rw [hs.current.keyword _ hkind] at hshows
    exact ⟨hholds, hshows⟩
  · simp only [bind_eq_ok, pure_eq_ok, Prod.mk.injEq] at h
    obtain ⟨_, k₁, htoken, rfl, rfl⟩ := h
    obtain ⟨-, hbefore, hbeyond⟩ := hs.advance htoken
    exact ⟨hbeyond, hs.leaf hbefore rfl fun hholds hshows => ⟨hholds, hshows⟩⟩
  · simp only [bind_eq_ok, pure_eq_ok, Prod.mk.injEq] at h
    obtain ⟨_, k₁, htoken, rfl, rfl⟩ := h
    obtain ⟨-, hbefore, hbeyond⟩ := hs.advance htoken
    exact ⟨hbeyond, hs.leaf hbefore rfl fun hholds hshows => ⟨hholds, hshows⟩⟩
  · -- a name, which an index right behind it makes an element
    simp only [bind_eq_ok, peek_bind] at h
    obtain ⟨_, k₁, htoken, h⟩ := h
    obtain ⟨-, hbefore, hbeyond₁⟩ := hs.advance htoken
    split at h
    · simp only [bind_eq_ok, spanFrom_bind] at h
      obtain ⟨i, k₂, hi, h⟩ := h
      obtain ⟨hs₁, hstart₁, hgap₁⟩ := hbeyond₁
      obtain ⟨⟨hs₂, hstart₂, hgap₂⟩, hplaced, horder⟩ := hbracket hs₁ hi
      have hbase : (Expr.element (.named k.current.text) i ⟨k.current.span.start,
          max k₂.before.stop k.current.span.start⟩).Lies text k.current.span.start
            k₂.before.stop :=
        hs₂.lies rfl (Nat.le_refl _) hs.here (horder.mono (by omega) (Nat.le_refl _))
          fun hholds => ⟨hholds, hplaced⟩
      obtain ⟨hreaches, hlies⟩ := hsuffixes hs₂ hbase h
      have hbeyond : k.Beyond text tokens k₂ := ⟨hs₂, by omega, hgap₂⟩
      exact ⟨hbeyond.trans hreaches, hlies⟩
    · have hbase : (Expr.identifier k.current.text k.current.span).Lies text
          k.current.span.start k₁.before.stop :=
        hs.leaf hbefore rfl fun hholds hshows => ⟨hholds, hshows⟩
      obtain ⟨hreaches, hlies⟩ := hsuffixes hbeyond₁.sits hbase h
      exact ⟨hbeyond₁.trans hreaches, hlies⟩
  · obtain ⟨inner, k₁, hinner, h⟩ := bind_eq_ok.mp h
    obtain ⟨hbeyond₁, hbase⟩ := hgroup hs hinner
    obtain ⟨hreaches, hlies⟩ := hsuffixes hbeyond₁.sits hbase h
    exact ⟨hbeyond₁.trans hreaches, hlies⟩
  · cases h

theorem places_operand {layer : Layer} {tighter : Layer → Parser Expr} {unary : Parser Expr}
    (htighter : ∀ layer, PlacesExpr text tokens (tighter layer))
    (hunary : PlacesExpr text tokens unary) :
    PlacesExpr text tokens (operand layer tighter unary) := by
  unfold operand
  split
  · exact htighter _
  · exact hunary

/-! ### Statements -/

/-- A statement that ends here has run from the token that was at hand. -/
theorem placed_stmt (hbeyond : k.Beyond text tokens k') (hs : k.Sits text tokens) {stmt : Stmt}
    {parts : List Span}
    (hspan : stmt.span = ⟨k.current.span.start, max k'.before.stop k.current.span.start⟩)
    (hparts : InOrder k.current.span.start k'.before.stop parts)
    (hplaced : stmt.span.Holds text parts → stmt.Placed text tokens) :
    k.Beyond text tokens k' ∧ stmt.Placed text tokens ∧
      stmt.span = ⟨k.current.span.start, k'.before.stop⟩ := by
  have hholds := hbeyond.sits.holds hs.here
    (hparts.mono (Nat.le_refl _) (Nat.le_max_left _ k.current.span.start))
  rw [← hspan] at hholds
  refine ⟨hbeyond, hplaced hholds, ?_⟩
  rw [hspan, Nat.max_eq_left hbeyond.start_le]

theorem places_block (hlist : PlacesStmts text tokens list) :
    PlacesBlock text tokens (block list) := by
  intro k b k' hs h
  simp only [block, here_bind, bind_eq_ok, spanFrom_bind, pure_eq_ok, Prod.mk.injEq] at h
  obtain ⟨stmts, k₁, hstmts, rfl, rfl⟩ := h
  obtain ⟨hreaches, hplaced, horder⟩ := hlist hs hstmts
  have hparts : InOrder k.current.span.start (max k₁.before.stop k.current.span.start)
      (stmts.map Stmt.span) := by
    rcases horder with ⟨rfl, rfl⟩ | horder
    · exact Nat.le_max_right _ _
    · exact horder.mono (Nat.le_refl _) (Nat.le_max_left _ _)
  refine ⟨hreaches, ⟨hreaches.sits.holds hs.here hparts, hplaced⟩, ?_⟩
  exact ⟨Nat.le_refl _, Nat.le_max_right _ _, Nat.max_le.mpr ⟨hreaches.gap, hreaches.start_le⟩⟩

theorem places_function (hlist : PlacesStmts text tokens list) :
    PlacesStmt text tokens (function list) := by
  intro k stmt k' hs h
  simp only [function, here_bind, bind_eq_ok, spanFrom_bind, pure_eq_ok, Prod.mk.injEq] at h
  obtain ⟨_, k₁, hfunc, n, k₂, hn, _, k₃, hopen, params, k₄, hparams, _, k₅, hclose, _, k₆, hdo,
    stmts, k₇, hstmts, _, k₈, hend, rfl, rfl⟩ := h
  obtain ⟨hs₁, hstart₁, hgap₁⟩ := hs.word hfunc
  obtain ⟨hs₂, hstart₂, hgap₂⟩ := hs₁.name hn
  obtain ⟨hs₃, hstart₃, hgap₃⟩ := hs₂.symbol hopen
  obtain ⟨hs₄, hbefore₄, hstart₄, hgap₄⟩ := moves_parameters.reaches hs₃ hparams
  obtain ⟨hs₅, hstart₅, hgap₅⟩ := hs₄.symbol hclose
  obtain ⟨hs₆, hstart₆, hgap₆⟩ := hs₅.word hdo
  obtain ⟨⟨hs₇, hbefore₇, hstart₇, hgap₇⟩, hplaced, horder⟩ := hlist hs₆ hstmts
  obtain ⟨hs₈, hstart₈, hgap₈⟩ := hs₇.word hend
  have hparts : InOrder k.current.span.start k₈.before.stop (stmts.map Stmt.span) := by
    rcases horder with ⟨rfl, rfl⟩ | horder
    · show k.current.span.start ≤ k₈.before.stop
      omega
    · exact horder.mono (by omega) (by omega)
  exact placed_stmt ⟨hs₈, by omega, hgap₈⟩ hs rfl hparts fun hholds => ⟨hholds, hplaced⟩

theorem places_optional (mark : Kind) (hvalue : PlacesExpr text tokens value)
    (hs : k.Sits text tokens) {o : Option Expr} (h : optional mark value k = .ok (o, k')) :
    k.Reaches text tokens k' ∧ PlacedOptional text o ∧
      InOrder k.before.stop k'.before.stop (optionalSpans o) := by
  unfold optional at h
  obtain ⟨b, k₁, hmark, hpart⟩ := bind_eq_ok.mp h
  rcases hs.accept hmark with ⟨rfl, hs₁, hstart₁, hgap₁⟩ | ⟨rfl, rfl⟩
  · simp only [↓reduceIte, bind_eq_ok, pure_eq_ok, Prod.mk.injEq] at hpart
    obtain ⟨e, k₂, he, rfl, rfl⟩ := hpart
    obtain ⟨⟨hs₂, hstart₂, hgap₂⟩, hlies⟩ := hvalue hs₁ he
    have hgap := hs.gap
    exact ⟨⟨hs₂, by omega, by omega, hgap₂⟩, hlies.placed,
      hlies.alone.mono (by omega) (Nat.le_refl _)⟩
  · obtain ⟨rfl, rfl⟩ := Prod.mk.inj (pure_eq_ok.mp hpart)
    exact ⟨hs.reaches_self, trivial, Nat.le_refl _⟩

theorem places_var (hvalue : PlacesExpr text tokens value) :
    PlacesStmt text tokens (var value) := by
  intro k stmt k' hs h
  simp only [var, here_bind, bind_eq_ok, spanFrom_bind, pure_eq_ok, Prod.mk.injEq] at h
  obtain ⟨_, k₁, hvar, n, k₂, hn, init, k₃, hinit, rfl, rfl⟩ := h
  obtain ⟨hs₁, hstart₁, hgap₁⟩ := hs.word hvar
  obtain ⟨hs₂, hstart₂, hgap₂⟩ := hs₁.name hn
  obtain ⟨⟨hs₃, hbefore₃, hstart₃, hgap₃⟩, hplaced, horder⟩ := places_optional _ hvalue hs₂ hinit
  exact placed_stmt ⟨hs₃, by omega, hgap₃⟩ hs rfl (horder.mono (by omega) (Nat.le_refl _))
    fun hholds => ⟨hholds, hplaced⟩

theorem places_assignment (hvalue : PlacesExpr text tokens value) :
    PlacesStmt text tokens (assignment value) := by
  intro k stmt k' hs h
  simp only [assignment, here_bind, bind_eq_ok] at h
  obtain ⟨target, k₁, htarget, b, k₂, hmark, h⟩ := h
  obtain ⟨hbeyond₁, hlies⟩ := hvalue hs htarget
  rcases hbeyond₁.sits.accept hmark with ⟨rfl, hs₂, hstart₂, hgap₂⟩ | ⟨rfl, rfl⟩
  · simp only [↓reduceIte, bind_eq_ok, spanFrom_bind, pure_eq_ok, Prod.mk.injEq] at h
    obtain ⟨e, k₃, he, rfl, rfl⟩ := h
    obtain ⟨⟨hs₃, hstart₃, hgap₃⟩, hlies'⟩ := hvalue hs₂ he
    obtain ⟨hs₁, hstart₁, hgap₁⟩ := hbeyond₁
    have hparts : InOrder k.current.span.start k₃.before.stop [target.span, e.span] :=
      hlies.inOrder (hlies'.alone.mono (by omega) (Nat.le_refl _))
    -- the assignment and the statement have one span
    have hassign : (Expr.assign target e ⟨k.current.span.start,
        max k₃.before.stop k.current.span.start⟩).Lies text k.current.span.start
          k₃.before.stop :=
      hs₃.lies rfl (Nat.le_refl _) hs.here hparts
        fun hholds => ⟨hholds, hlies.placed, hlies'.placed⟩
    exact placed_stmt ⟨hs₃, by omega, hgap₃⟩ hs rfl hassign.alone
      fun hholds => ⟨hholds, hassign.placed⟩
  · simp only [Bool.false_eq_true, ↓reduceIte, spanFrom_bind, pure_eq_ok, Prod.mk.injEq] at h
    obtain ⟨rfl, rfl⟩ := h
    exact placed_stmt hbeyond₁ hs rfl hlies.alone fun hholds => ⟨hholds, hlies.placed⟩

theorem places_loop (hcond : PlacesExpr text tokens cond) (hbody : PlacesBlock text tokens body) :
    PlacesStmt text tokens (loop cond body) := by
  intro k stmt k' hs h
  simp only [loop, here_bind, bind_eq_ok, spanFrom_bind, pure_eq_ok, Prod.mk.injEq] at h
  obtain ⟨_, k₁, hwhile, e, k₂, he, _, k₃, hdo, b, k₄, hb, _, k₅, hend, rfl, rfl⟩ := h
  obtain ⟨hs₁, hstart₁, hgap₁⟩ := hs.word hwhile
  obtain ⟨⟨hs₂, hstart₂, hgap₂⟩, hlies⟩ := hcond hs₁ he
  obtain ⟨hs₃, hstart₃, hgap₃⟩ := hs₂.word hdo
  obtain ⟨⟨hs₄, hbefore₄, hstart₄, hgap₄⟩, hplaced, horder⟩ := hbody hs₃ hb
  obtain ⟨hs₅, hstart₅, hgap₅⟩ := hs₄.word hend
  have hparts : InOrder k.current.span.start k₅.before.stop [e.span, b.span] :=
    (hlies.inOrder (horder.mono (by omega) hstart₅)).mono (by omega) (Nat.le_refl _)
  exact placed_stmt ⟨hs₅, by omega, hgap₅⟩ hs rfl hparts
    fun hholds => ⟨hholds, hlies.placed, hplaced⟩

theorem places_scope (hbody : PlacesBlock text tokens body) :
    PlacesStmt text tokens (scope body) := by
  intro k stmt k' hs h
  simp only [scope, here_bind, bind_eq_ok, spanFrom_bind, pure_eq_ok, Prod.mk.injEq] at h
  obtain ⟨_, k₁, hdo, b, k₂, hb, _, k₃, hend, rfl, rfl⟩ := h
  obtain ⟨hs₁, hstart₁, hgap₁⟩ := hs.word hdo
  obtain ⟨⟨hs₂, hbefore₂, hstart₂, hgap₂⟩, hplaced, horder⟩ := hbody hs₁ hb
  obtain ⟨hs₃, hstart₃, hgap₃⟩ := hs₂.word hend
  exact placed_stmt ⟨hs₃, by omega, hgap₃⟩ hs rfl (horder.mono (by omega) hstart₃)
    fun hholds => ⟨hholds, hplaced⟩

theorem places_count (hvalue : PlacesExpr text tokens value)
    (hbody : PlacesBlock text tokens body) : PlacesStmt text tokens (count value body) := by
  intro k stmt k' hs h
  simp only [count, here_bind, bind_eq_ok, spanFrom_bind, pure_eq_ok, Prod.mk.injEq] at h
  obtain ⟨_, k₁, hfor, n, k₂, hn, _, k₃, hassign, first, k₄, hfirst, way, k₅, hway, final, k₆,
    hfinal, step, k₇, hstep, _, k₈, hdo, b, k₉, hb, _, k₁₀, hend, rfl, rfl⟩ := h
  obtain ⟨hs₁, hstart₁, hgap₁⟩ := hs.word hfor
  obtain ⟨hs₂, hstart₂, hgap₂⟩ := hs₁.name hn
  obtain ⟨hs₃, hstart₃, hgap₃⟩ := hs₂.symbol hassign
  obtain ⟨⟨hs₄, hstart₄, hgap₄⟩, hfirst⟩ := hvalue hs₃ hfirst
  obtain ⟨hs₅, hbefore₅, hstart₅, hgap₅⟩ := moves_direction.reaches hs₄ hway
  obtain ⟨⟨hs₆, hstart₆, hgap₆⟩, hfinal⟩ := hvalue hs₅ hfinal
  obtain ⟨⟨hs₇, hbefore₇, hstart₇, hgap₇⟩, hstep, hsteps⟩ := places_optional _ hvalue hs₆ hstep
  obtain ⟨hs₈, hstart₈, hgap₈⟩ := hs₇.word hdo
  obtain ⟨⟨hs₉, hbefore₉, hstart₉, hgap₉⟩, hplaced, horder⟩ := hbody hs₈ hb
  obtain ⟨hs₁₀, hstart₁₀, hgap₁₀⟩ := hs₉.word hend
  have htail : InOrder k₆.before.stop k₁₀.before.stop (optionalSpans step ++ [b.span]) :=
    hsteps.append (horder.mono (by omega) hstart₁₀)
  have hparts : InOrder k.current.span.start k₁₀.before.stop
      (first.span :: final.span :: (optionalSpans step ++ [b.span])) :=
    (hfirst.inOrder ((hfinal.inOrder htail).mono (by omega) (Nat.le_refl _))).mono (by omega)
      (Nat.le_refl _)
  exact placed_stmt ⟨hs₁₀, by omega, hgap₁₀⟩ hs rfl hparts
    fun hholds => ⟨hholds, hfirst.placed, hfinal.placed, hstep, hplaced⟩

theorem places_each (hvalue : PlacesExpr text tokens value)
    (hbody : PlacesBlock text tokens body) : PlacesStmt text tokens (each value body) := by
  intro k stmt k' hs h
  simp only [each, here_bind, bind_eq_ok] at h
  obtain ⟨_, k₁, heach, n, k₂, hn, _, k₃, hin, args, k₄, hargs, h⟩ := h
  split at h
  · cases h
  · simp only [bind_eq_ok, spanFrom_bind, pure_eq_ok, Prod.mk.injEq] at h
    obtain ⟨_, k₅, hdo, b, k₆, hb, _, k₇, hend, rfl, rfl⟩ := h
    obtain ⟨hs₁, hstart₁, hgap₁⟩ := hs.word heach
    obtain ⟨hs₂, hstart₂, hgap₂⟩ := hs₁.name hn
    obtain ⟨hs₃, hstart₃, hgap₃⟩ := hs₂.word hin
    obtain ⟨⟨hs₄, hstart₄, hgap₄⟩, hargs, hspans⟩ := places_arguments hvalue hs₃ hargs
    obtain ⟨hs₅, hstart₅, hgap₅⟩ := hs₄.word hdo
    obtain ⟨⟨hs₆, hbefore₆, hstart₆, hgap₆⟩, hplaced, horder⟩ := hbody hs₅ hb
    obtain ⟨hs₇, hstart₇, hgap₇⟩ := hs₆.word hend
    have hparts : InOrder k.current.span.start k₇.before.stop
        (args.map Expr.span ++ [b.span]) :=
      (hspans.append (horder.mono (by omega) hstart₇)).mono (by omega) (Nat.le_refl _)
    exact placed_stmt ⟨hs₇, by omega, hgap₇⟩ hs rfl hparts
      fun hholds => ⟨hholds, hargs, hplaced⟩

theorem places_single {stmt : Span → Stmt} (hspan : ∀ span, (stmt span).span = span)
    (hplaced : ∀ span : Span, span.Holds text [] → (stmt span).Placed text tokens) :
    PlacesStmt text tokens (single stmt) := by
  intro k x k' hs h
  simp only [single, here_bind, bind_eq_ok, spanFrom_bind, pure_eq_ok, Prod.mk.injEq] at h
  obtain ⟨_, k₁, htoken, rfl, rfl⟩ := h
  obtain ⟨-, -, hbeyond⟩ := hs.advance htoken
  have hnone : InOrder k.current.span.start k₁.before.stop [] := hbeyond.start_le
  refine placed_stmt hbeyond hs (hspan _) hnone fun hholds => hplaced _ ?_
  rwa [hspan] at hholds

/-! ### Choices -/

theorem places_arm (hcond : PlacesExpr text tokens cond) (hbody : PlacesBlock text tokens body)
    (hs : k.Sits text tokens) {e : Expr} {b : Block} (h : arm cond body k = .ok ((e, b), k')) :
    k.Beyond text tokens k' ∧ e.Placed text ∧ b.Placed text tokens ∧
      InOrder k.current.span.start k'.current.span.start [e.span, b.span] := by
  simp only [arm, bind_eq_ok, pure_eq_ok, Prod.mk.injEq] at h
  obtain ⟨e, k₁, he, _, k₂, hthen, b, k₃, hb, ⟨rfl, rfl⟩, rfl⟩ := h
  obtain ⟨⟨hs₁, hstart₁, hgap₁⟩, hlies⟩ := hcond hs he
  obtain ⟨hs₂, hstart₂, hgap₂⟩ := hs₁.word hthen
  obtain ⟨⟨hs₃, hbefore₃, hstart₃, hgap₃⟩, hplaced, horder⟩ := hbody hs₂ hb
  exact ⟨⟨hs₃, by omega, hgap₃⟩, hlies.placed, hplaced,
    hlies.inOrder (horder.mono (by omega) (Nat.le_refl _))⟩

theorem places_optionalBlock (hbody : PlacesBlock text tokens body) (hs : k.Sits text tokens)
    {last : Option Block} (h : arms.optionalBlock body k = .ok (last, k')) :
    k.Reaches text tokens k' ∧ (otherwise last []).Placed text tokens ∧
      InOrder k.current.span.start k'.current.span.start (otherwise last []).spans := by
  unfold arms.optionalBlock at h
  obtain ⟨b, k₁, hmark, hpart⟩ := bind_eq_ok.mp h
  rcases hs.accept hmark with ⟨rfl, hs₁, hstart₁, hgap₁⟩ | ⟨rfl, rfl⟩
  · simp only [↓reduceIte, bind_eq_ok, pure_eq_ok, Prod.mk.injEq] at hpart
    obtain ⟨b, k₂, hb, rfl, rfl⟩ := hpart
    obtain ⟨⟨hs₂, hbefore₂, hstart₂, hgap₂⟩, hplaced, horder⟩ := hbody hs₁ hb
    have hgap := hs.gap
    exact ⟨⟨hs₂, by omega, by omega, hgap₂⟩, hplaced, horder.mono (by omega) (Nat.le_refl _)⟩
  · obtain ⟨rfl, rfl⟩ := Prod.mk.inj (pure_eq_ok.mp hpart)
    exact ⟨hs.reaches_self, trivial, Nat.le_refl _⟩

theorem places_arms (hcond : PlacesExpr text tokens cond) (hbody : PlacesBlock text tokens body)
    {n : Nat} (hs : k.Sits text tokens) {parts : List (Expr × Block) × Option Block}
    (h : arms cond body n k = .ok (parts, k')) :
    k.Reaches text tokens k' ∧ (otherwise parts.2 parts.1).Placed text tokens ∧
      InOrder k.current.span.start k'.current.span.start (otherwise parts.2 parts.1).spans := by
  induction n generalizing k parts with
  | zero =>
    simp only [arms, roundsAfter, pure_bind, bind_eq_ok, pure_eq_ok, Prod.mk.injEq] at h
    obtain ⟨last, k₁, hlast, rfl, rfl⟩ := h
    exact places_optionalBlock hbody hs hlast
  | succ n ih =>
    rw [arms_succ] at h
    obtain ⟨b, k₁, hmark, hround⟩ := bind_eq_ok.mp h
    rcases hs.accept hmark with ⟨rfl, hs₁, hstart₁, hgap₁⟩ | ⟨rfl, rfl⟩
    · simp only [↓reduceIte, bind_eq_ok, pure_eq_ok, Prod.mk.injEq] at hround
      obtain ⟨⟨e, b⟩, k₂, hfirst, more, k₃, hmore, rfl, rfl⟩ := hround
      obtain ⟨⟨hs₂, hstart₂, hgap₂⟩, he, hb, horder₂⟩ := places_arm hcond hbody hs₁ hfirst
      obtain ⟨⟨hs₃, hbefore₃, hstart₃, hgap₃⟩, hplaced, horder₃⟩ := ih hs₂ hmore
      have hgap := hs.gap
      refine ⟨⟨hs₃, by omega, by omega, hgap₃⟩, ⟨he, hb, hplaced⟩, ?_⟩
      exact (horder₂.append horder₃).mono (by omega) (Nat.le_refl _)
    · simp only [Bool.false_eq_true, ↓reduceIte, bind_eq_ok, pure_eq_ok, Prod.mk.injEq] at hround
      obtain ⟨last, k₂, hlast, rfl, rfl⟩ := hround
      exact places_optionalBlock hbody hs hlast

theorem places_branch (hcond : PlacesExpr text tokens cond)
    (hbody : PlacesBlock text tokens body) : PlacesStmt text tokens (branch cond body) := by
  intro k stmt k' hs h
  rw [branch_eq] at h
  simp only [here_bind, get_bind, bind_eq_ok, spanFrom_bind, pure_eq_ok, Prod.mk.injEq] at h
  obtain ⟨_, k₁, hif, ⟨e, b⟩, k₂, hfirst, parts, k₃, hparts, _, k₄, hend, rfl, rfl⟩ := h
  obtain ⟨hs₁, hstart₁, hgap₁⟩ := hs.word hif
  obtain ⟨⟨hs₂, hstart₂, hgap₂⟩, he, hb, horder₂⟩ := places_arm hcond hbody hs₁ hfirst
  obtain ⟨⟨hs₃, hbefore₃, hstart₃, hgap₃⟩, hplaced, horder₃⟩ := places_arms hcond hbody hs₂ hparts
  obtain ⟨hs₄, hstart₄, hgap₄⟩ := hs₃.word hend
  have hspans : InOrder k.current.span.start k₄.before.stop
      (e.span :: b.span :: (otherwise parts.2 parts.1).spans) :=
    (horder₂.append horder₃).mono (by omega) hstart₄
  exact placed_stmt ⟨hs₄, by omega, hgap₄⟩ hs rfl hspans fun hholds => ⟨hholds, he, hb, hplaced⟩

end Production

/-! ### Lists of statements -/

/-- What a parser reads as a statement are the tokens it passes. -/
theorem runsOver_of_reads {p : Parser Stmt} (hreads : ReadsStatement p) (hmoves : Moves p)
    (hs : k.Sits text tokens) {stmt : Stmt} (h : p k = .ok (stmt, k'))
    (hspan : stmt.span = ⟨k.current.span.start, k'.before.stop⟩) : stmt.RunsOver tokens := by
  obtain ⟨d, hterminals, -, hvalue⟩ := hreads h
  obtain ⟨segment, hpasses⟩ := hmoves h
  obtain ⟨front, hfront⟩ := hs.ahead
  have hyield : d.yield = segment.map Token.terminal := by
    rw [Cursor.terminals, hpasses.tokens, List.map_append] at hterminals
    exact (List.append_cancel_right hterminals).symm
  -- a statement begins with a token of its own, so some token was passed
  rcases List.eq_nil_or_concat segment with rfl | ⟨more, last, rfl⟩
  · have hstarts := d.starts .endOfInput
    rw [hyield] at hstarts
    cases hstarts
  · rw [List.concat_eq_append] at hpasses hyield
    refine ⟨front, more ++ [last], k'.tokens, k.current, last, d, ?_, hyield, hvalue.symm, ?_, ?_,
      ?_⟩
    · rw [← hfront, hpasses.tokens, ← List.append_assoc]
    · have hhead := congrArg List.head? hpasses.tokens
      cases more with
      | nil => exact hhead.symm
      | cons first more => exact hhead.symm
    · exact List.getLast?_concat
    · have hbefore := hpasses.before
      rw [List.foldl_append] at hbefore
      rw [hspan, hbefore]
      rfl

theorem places_statementsUpTo {item : Parser Stmt} (hitem : PlacesStmt text tokens item)
    (hreads : ReadsStatement item) (hmoves : Moves item) (left : Nat) :
    PlacesStmts text tokens (statementsUpTo item left) := by
  induction left with
  | zero =>
    intro k stmts k' hs h
    rw [statementsUpTo, peek_bind] at h
    split at h
    · obtain ⟨rfl, rfl⟩ := Prod.mk.inj (pure_eq_ok.mp h)
      exact ⟨hs.reaches_self, trivial, .inl ⟨rfl, rfl⟩⟩
    · simp [bind_eq_ok] at h
  | succ left ih =>
    intro k stmts k' hs h
    rw [statementsUpTo, peek_bind] at h
    split at h
    · obtain ⟨rfl, rfl⟩ := Prod.mk.inj (pure_eq_ok.mp h)
      exact ⟨hs.reaches_self, trivial, .inl ⟨rfl, rfl⟩⟩
    · simp only [bind_eq_ok, pure_eq_ok, Prod.mk.injEq] at h
      obtain ⟨first, k₁, hfirst, rest, k₂, hrest, rfl, rfl⟩ := h
      obtain ⟨hbeyond, hplaced, hspan⟩ := hitem hs hfirst
      have hruns := runsOver_of_reads hreads hmoves hs hfirst hspan
      obtain ⟨hreaches, hstmts, horder⟩ := ih hbeyond.sits hrest
      refine ⟨(hbeyond.trans hreaches).reaches hs, ⟨hruns, hplaced, hstmts⟩, .inr ?_⟩
      have htail : InOrder k₁.before.stop k₂.before.stop (rest.map Stmt.span) := by
        rcases horder with ⟨rfl, rfl⟩ | horder
        · exact Nat.le_refl _
        · exact horder.mono hbeyond.gap (Nat.le_refl _)
      rw [List.map_cons, hspan]
      exact ⟨Nat.le_refl _, hbeyond.start_le, htail⟩

/-! ### The grammar -/

/-- Whether every production gives trees in their places with this much room for nesting. -/
structure Grammar.Placing (text : String) (tokens : List Token) (limit room : Nat) : Prop where
  statements : PlacesStmts text tokens (statements limit room)
  function : PlacesStmt text tokens (function limit room)
  statement : PlacesStmt text tokens (statement limit room)
  var : PlacesStmt text tokens (var limit room)
  assignment : PlacesStmt text tokens (assignment limit room)
  branch : PlacesStmt text tokens (branch limit room)
  loop : PlacesStmt text tokens (loop limit room)
  count : PlacesStmt text tokens (count limit room)
  each : PlacesStmt text tokens (each limit room)
  scope : PlacesStmt text tokens (scope limit room)
  binary : ∀ layer, PlacesExpr text tokens (binary limit layer room)
  operations : ∀ layer start, IsBoundary text start → ∀ ⦃k : Cursor⦄ ⦃left e : Expr⦄
    ⦃k' : Cursor⦄, k.Sits text tokens → left.Lies text start k.before.stop →
      operations limit layer start room left k = .ok (e, k') →
        k.Reaches text tokens k' ∧ e.Lies text start k'.before.stop
  unary : PlacesExpr text tokens (unary limit room)
  primary : PlacesExpr text tokens (primary limit room)
  parenthesized : PlacesExpr text tokens (parenthesized limit room)
  suffixes : PlacesBehind text tokens (suffixes limit room)
  index : PlacesIndex text tokens (index limit room)

namespace Grammar.Placing

variable {limit room : Nat}

theorem operations_zero (layer : Layer) (start : Nat) (_ : IsBoundary text start) ⦃k : Cursor⦄
    ⦃left e : Expr⦄ ⦃k' : Cursor⦄ (hs : k.Sits text tokens)
    (hleft : left.Lies text start k.before.stop)
    (hrun : Grammar.operations limit layer start 0 left k = .ok (e, k')) :
    k.Reaches text tokens k' ∧ e.Lies text start k'.before.stop := by
  simp only [Grammar.operations, peek_bind] at hrun
  cases hop : layer.operator? k.current.kind with
  | none =>
    rw [hop] at hrun
    obtain ⟨rfl, rfl⟩ := Prod.mk.inj (pure_eq_ok.mp hrun)
    exact ⟨hs.reaches_self, hleft⟩
  | some op =>
    rw [hop] at hrun
    cases hrun

/-- Without room only a layer that finds no operator comes to a result. -/
theorem zero (limit : Nat) : Placing text tokens limit 0 := by
  have hnone : ∀ {α : Type} {k : Cursor} {r : α × Cursor},
      (tooDeep limit : Parser α) k ≠ .ok r := by
    intro α k r h
    cases h
  exact {
    statements := fun _ _ _ _ h => absurd h hnone
    function := fun _ _ _ _ h => absurd h hnone
    statement := fun _ _ _ _ h => absurd h hnone
    var := fun _ _ _ _ h => absurd h hnone
    assignment := fun _ _ _ _ h => absurd h hnone
    branch := fun _ _ _ _ h => absurd h hnone
    loop := fun _ _ _ _ h => absurd h hnone
    count := fun _ _ _ _ h => absurd h hnone
    each := fun _ _ _ _ h => absurd h hnone
    scope := fun _ _ _ _ h => absurd h hnone
    binary := fun _ _ _ _ _ h => absurd h hnone
    operations := operations_zero
    unary := fun _ _ _ _ h => absurd h hnone
    primary := fun _ _ _ _ h => absurd h hnone
    parenthesized := fun _ _ _ _ h => absurd h hnone
    suffixes := fun _ _ _ _ _ _ _ h => absurd h hnone
    index := fun _ _ _ _ h => absurd h hnone }

theorem statement_succ (h : Placing text tokens limit room) :
    PlacesStmt text tokens (Grammar.statement limit (room + 1)) := by
  intro k stmt k' hs hstmt
  simp only [Grammar.statement, current_bind] at hstmt
  generalize k.current.kind = kind at hstmt
  split at hstmt
  · exact h.var hs hstmt
  · exact h.branch hs hstmt
  · exact h.loop hs hstmt
  · exact h.count hs hstmt
  · exact h.each hs hstmt
  · exact h.scope hs hstmt
  · have hleave : ∀ span : Span, span.Holds text [] → (Stmt.leave span).Placed text tokens :=
      fun _ hholds => hholds
    exact Production.places_single (fun _ => rfl) hleave hs hstmt
  · have hskip : ∀ span : Span, span.Holds text [] → (Stmt.skip span).Placed text tokens :=
      fun _ hholds => hholds
    exact Production.places_single (fun _ => rfl) hskip hs hstmt
  · split at hstmt
    · exact h.assignment hs hstmt
    · cases hstmt

theorem statements_succ (h : Placing text tokens limit room) :
    PlacesStmts text tokens (Grammar.statements limit (room + 1)) := by
  refine places_statementsUpTo ?_ ?_ ?_ _
  · intro k stmt k' hs hstmt
    rw [peek_bind] at hstmt
    split at hstmt
    · exact h.function hs hstmt
    · exact h.statement hs hstmt
  · intro k stmt k' hstmt
    rw [peek_bind] at hstmt
    split at hstmt
    · exact (sound limit room).function hstmt
    · exact (sound limit room).statement hstmt
  · exact Moves.peek.bind fun _ => .ite (forward limit room).function (forward limit room).statement

theorem operations_succ (h : Placing text tokens limit room) (layer : Layer) (start : Nat)
    (hstart : IsBoundary text start) ⦃k : Cursor⦄ ⦃left e : Expr⦄ ⦃k' : Cursor⦄
    (hs : k.Sits text tokens) (hleft : left.Lies text start k.before.stop)
    (hrun : Grammar.operations limit layer start (room + 1) left k = .ok (e, k')) :
    k.Reaches text tokens k' ∧ e.Lies text start k'.before.stop := by
  simp only [Grammar.operations, peek_bind] at hrun
  cases hop : layer.operator? k.current.kind with
  | none =>
    rw [hop] at hrun
    obtain ⟨rfl, rfl⟩ := Prod.mk.inj (pure_eq_ok.mp hrun)
    exact ⟨hs.reaches_self, hleft⟩
  | some op =>
    rw [hop] at hrun
    simp only [bind_eq_ok, spanFrom_bind] at hrun
    obtain ⟨_, k₁, hsign, right, k₂, hright, hrest⟩ := hrun
    obtain ⟨-, -, hs₁, hstart₁, hgap₁⟩ := hs.advance hsign
    obtain ⟨⟨hs₂, hstart₂, hgap₂⟩, hright⟩ :=
      Production.places_operand h.binary h.unary hs₁ hright
    have hgap := hs.gap
    have hparts : InOrder start k₂.before.stop [left.span, right.span] :=
      hleft.inOrder (hright.alone.mono (by omega) (Nat.le_refl _))
    have hboth : (Expr.binary op left right ⟨start, max k₂.before.stop start⟩).Lies text start
        k₂.before.stop :=
      hs₂.lies rfl (Nat.le_refl _) hstart hparts
        fun hholds => ⟨hholds, hleft.placed, hright.placed⟩
    obtain ⟨hreaches, hlies⟩ := h.operations layer start hstart hs₂ hboth hrest
    have hfirst : k.Reaches text tokens k₂ := ⟨hs₂, by omega, by omega, hgap₂⟩
    exact ⟨hfirst.trans hreaches, hlies⟩

theorem binary_succ (h : Placing text tokens limit room) (layer : Layer) :
    PlacesExpr text tokens (Grammar.binary limit layer (room + 1)) := by
  intro k e k' hs hrun
  simp only [Grammar.binary, here_bind, bind_eq_ok] at hrun
  obtain ⟨first, k₁, hfirst, hrest⟩ := hrun
  obtain ⟨hbeyond, hlies⟩ := Production.places_operand h.binary h.unary hs hfirst
  obtain ⟨hreaches, he⟩ := h.operations layer _ hs.here hbeyond.sits hlies hrest
  exact ⟨hbeyond.trans hreaches, he⟩

theorem succ (h : Placing text tokens limit room) : Placing text tokens limit (room + 1) where
  statements := h.statements_succ
  function := Production.places_function h.statements
  statement := h.statement_succ
  var := Production.places_var (h.binary _)
  assignment := Production.places_assignment (h.binary _)
  branch := Production.places_branch h.parenthesized (Production.places_block h.statements)
  loop := Production.places_loop h.parenthesized (Production.places_block h.statements)
  count := Production.places_count (h.binary _) (Production.places_block h.statements)
  each := Production.places_each (h.binary _) (Production.places_block h.statements)
  scope := Production.places_scope (Production.places_block h.statements)
  binary := h.binary_succ
  operations := h.operations_succ
  unary := Production.places_unary h.unary h.primary
  primary := Production.places_primary h.index h.parenthesized h.suffixes
  parenthesized := Production.places_parenthesized (h.binary _)
  suffixes := Production.places_chain (fun _ _ _ _ _ hs hbase hlink =>
    Production.places_suffix (h.binary _) h.index hs hbase hlink) _
  index := Production.places_index (h.binary _)

end Grammar.Placing

/-- **Every production gives trees in their places.** -/
theorem Grammar.placing (limit room : Nat) : Placing text tokens limit room := by
  induction room with
  | zero => exact .zero limit
  | succ room ih => exact ih.succ

/-! ### Scripts -/

/-- Behind the first step the parser stands in front of all tokens. -/
theorem Lexes.sits {mark token : Token} (h : Lexes text tokens mark)
    (hstart : advance (Cursor.start (Lexer.ofText text).pulls) = .ok (token, k)) :
    k.Sits text (tokens ++ [mark]) := by
  have hpulls : (Lexer.ofText text).pulls = (tokens ++ [mark]).map .ok ++ [] := by
    rw [h.pulls, List.map_append, List.append_nil]
    rfl
  obtain ⟨horder, hplaced⟩ := Lexer.placed_pulls hpulls
  obtain ⟨-, hpasses⟩ := Cursor.Passes.of_advance hstart
  have hbefore : k.before = .origin := hpasses.before
  have hk := h.tokens_of_start hstart
  refine ⟨hplaced, ?_, ?_, ?_⟩
  · exact hk ▸ List.suffix_rfl
  · rw [hbefore, hk]
    exact horder
  · rw [hbefore]
    exact isBoundary_zero text

end FormCalc
