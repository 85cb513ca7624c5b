import FormCalc.Proofs.Grammar.Reading
import FormCalc.Proofs.Token.Final
import FormCalc.Tree.Grammar

/-!
# What a parser asks the lexer for

A parser that stands before some tokens either asks for more than these, or comes to its outcome
without.  Every rule of the grammar that consumes a token has looked at its kind before, and none
of them takes an end mark.  So where there is an end mark or a fault among the tokens, nothing is
asked for behind it, at whatever depth the parser meets it.

* `AsksBeyond p k`: with a fault behind the tokens before `k`, that fault is the outcome.
* `Demand p k`: the parser asks beyond these tokens, and no end mark is among them; or it comes to
  an outcome, whatever is behind them.
* `Grammar.allSparing`: this holds for every production, at every cursor.
* `Grammar.asks_or_settles`, `Grammar.script_append`: and so it does for whole scripts.
* `Grammar.explains_of_script`: where a fault of a script comes from.
-/

namespace FormCalc

open FormCalc.Parser

variable {α β : Type} {k k₁ k' : Cursor}

/-! ### Cursors -/

namespace Cursor

/-- What a parser has before it, from the token at hand on. -/
def pulls (k : Cursor) : List Pull := .ok k.current :: k.rest

/-- A cursor with more behind the last token. -/
def extend (more : List Pull) (k : Cursor) : Cursor := ⟨k.current, k.rest ++ more, k.before⟩

theorem extend_nil (k : Cursor) : k.extend [] = k := by
  rw [extend, List.append_nil]

/-- Whether neither an end mark nor a fault is before a parser. -/
def IsOpen (k : Cursor) : Prop := ∀ pull ∈ k.pulls, ¬Lexer.IsLast pull

/-- Whether a cursor goes on to another past tokens that are no end marks. -/
def Leads (k k' : Cursor) : Prop :=
  ∃ segment : List Token, k.pulls = segment.map .ok ++ k'.pulls ∧
    ∀ token ∈ segment, token.kind ≠ .endOfInput

namespace Leads

theorem refl (k : Cursor) : k.Leads k := ⟨[], rfl, nofun⟩

theorem trans (h : k.Leads k₁) (h' : k₁.Leads k') : k.Leads k' := by
  obtain ⟨segment, hpulls, hkinds⟩ := h
  obtain ⟨more, hpulls', hkinds'⟩ := h'
  refine ⟨segment ++ more, ?_, List.forall_mem_append.mpr ⟨hkinds, hkinds'⟩⟩
  rw [hpulls, hpulls', List.map_append, List.append_assoc]

theorem mem (h : k.Leads k') {pull : Pull} (hmem : pull ∈ k'.pulls) : pull ∈ k.pulls := by
  obtain ⟨segment, hpulls, -⟩ := h
  rw [hpulls]
  exact List.mem_append_right _ hmem

theorem isOpen (h : k.Leads k') (hopen : k'.IsOpen) : k.IsOpen := by
  obtain ⟨segment, hpulls, hkinds⟩ := h
  intro pull hmem
  rw [hpulls, List.mem_append, List.mem_map] at hmem
  rcases hmem with ⟨token, htoken, rfl⟩ | hmem
  · exact hkinds token htoken
  · exact hopen pull hmem

theorem length_le (h : k.Leads k') : k'.rest.length ≤ k.rest.length := by
  obtain ⟨segment, hpulls, -⟩ := h
  have hlength := congrArg List.length hpulls
  simp only [pulls, List.length_cons, List.length_append, List.length_map] at hlength
  omega

end Leads

end Cursor

/-! ### Demands -/

/-- Whether a grammar gives this cause on its own account.  A fault of the lexer is no cause of
its own, and neither is a token that stands for a fault. -/
def GrammarCause.isOwn : GrammarCause → Bool
  | .lexical _ | .expectedExpression .invalid => false
  | _ => true

/-- Where a fault of a parser comes from: the lexer, the grammar, or a token that starts no
expression. -/
inductive Cursor.Explains (k : Cursor) : Fault GrammarCause → Prop
  | lexical {fault : Fault LexicalCause} (h : .error fault ∈ k.pulls) :
      k.Explains (fault.map .lexical)
  | own {cause : GrammarCause} {span : Span} (h : cause.isOwn = true) : k.Explains ⟨cause, span⟩
  | noExpression {token : Token} {span : Span} (h : .ok token ∈ k.pulls) :
      k.Explains ⟨.expectedExpression token.kind, span⟩

theorem Cursor.Explains.mono {fault : Fault GrammarCause} (hfault : k'.Explains fault)
    (h : ∀ pull ∈ k'.pulls, pull ∈ k.pulls) : k.Explains fault := by
  cases hfault with
  | lexical hmem => exact .lexical (h _ hmem)
  | own hown => exact .own hown
  | noExpression hmem => exact .noExpression (h _ hmem)

/-- Whether a parser asks for more tokens than there are: it fails with whatever fault it is
answered with. -/
def AsksBeyond (p : Parser α) (k : Cursor) : Prop :=
  ∀ fault more, p (k.extend (.error fault :: more)) = .error (fault.map .lexical)

/-- What a parser does at a cursor.  It asks beyond the tokens there are, and none of them is an
end mark; or it comes to an outcome, whatever is behind them. -/
inductive Demand (p : Parser α) (k : Cursor) : Prop
  | beyond (h : AsksBeyond p k) (hopen : k.IsOpen) : Demand p k
  | done (x : α) (k' : Cursor) (h : ∀ more, p (k.extend more) = .ok (x, k'.extend more))
      (hleads : k.Leads k') : Demand p k
  | failed {fault : Fault GrammarCause} (h : ∀ more, p (k.extend more) = .error fault)
      (hexplains : k.Explains fault) : Demand p k

/-- Whether a parser asks for nothing behind an end mark, wherever it stands. -/
def Sparing (p : Parser α) : Prop := ∀ k, Demand p k

namespace Demand

variable {p : Parser α} {q : Parser β} {f : α → Parser β}

/-- What is done from a later cursor on is done from an earlier one. -/
theorem after {r : Parser β} (hr : Demand r k') (hleads : k.Leads k')
    (h : ∀ more, q (k.extend more) = r (k'.extend more)) : Demand q k := by
  cases hr with
  | beyond hasks hopen =>
    exact .beyond (fun fault more => (h _).trans (hasks fault more)) (hleads.isOpen hopen)
  | done x k'' hdone hleads' =>
    exact .done x k'' (fun more => (h more).trans (hdone more)) (hleads.trans hleads')
  | failed hfailed hexplains =>
    exact .failed (fun more => (h more).trans (hfailed more))
      (hexplains.mono fun _ => hleads.mem)

/-- A parser that begins with another one does what this one does, as long as it is not done. -/
theorem andThen (hp : Demand p k)
    (hfault : ∀ {more fault}, p (k.extend more) = .error fault → q (k.extend more) = .error fault)
    (hdone : ∀ x k', (∀ more, p (k.extend more) = .ok (x, k'.extend more)) → k.Leads k' →
      Demand q k) : Demand q k := by
  cases hp with
  | beyond hasks hopen => exact .beyond (fun fault more => hfault (hasks fault more)) hopen
  | done x k' h hleads => exact hdone x k' h hleads
  | failed h hexplains => exact .failed (fun more => hfault (h more)) hexplains

theorem bind (hp : Demand p k) (hf : ∀ x, Sparing (f x)) : Demand (p >>= f) k :=
  hp.andThen bind_of_error fun x k' h hleads =>
    (hf x k').after hleads fun more => bind_of_ok (h more)

/-- A token that starts no expression is refused. -/
theorem noExpression (span : Span) :
    Demand (fail (.expectedExpression k.current.kind) span : Parser α) k :=
  .failed (fun _ => rfl) (.noExpression List.mem_cons_self)

/-- A token that is no end mark is consumed. -/
theorem consume {kind : Kind} (hkind : k.current.kind = kind) (h : kind ≠ .endOfInput) :
    Demand advance k := by
  obtain ⟨token, rest, before⟩ := k
  have htoken : token.kind ≠ .endOfInput := hkind ▸ h
  rcases rest with _ | ⟨fault | next, rest⟩
  · exact .beyond (fun fault more => rfl) (List.forall_mem_singleton.mpr htoken)
  · exact .failed (fun more => rfl) (.lexical (List.mem_cons_of_mem _ List.mem_cons_self))
  · refine .done token ⟨next, rest, token.span⟩ (fun more => rfl) ⟨[token], rfl, ?_⟩
    exact List.forall_mem_singleton.mpr htoken

end Demand

namespace Sparing

variable {p q : Parser α} {f : α → Parser β}

theorem pure (x : α) : Sparing (Pure.pure x) :=
  fun k => .done x k (fun _ => rfl) (.refl k)

theorem bind (hp : Sparing p) (hf : ∀ x, Sparing (f x)) : Sparing (p >>= f) :=
  fun k => (hp k).bind hf

theorem ite {c : Prop} [Decidable c] (hp : Sparing p) (hq : Sparing q) :
    Sparing (if c then p else q) := by
  split
  · exact hp
  · exact hq

theorem fail {cause : GrammarCause} (h : cause.isOwn = true) (span : Span) :
    Sparing (Parser.fail cause span : Parser α) :=
  fun _ => .failed (fun _ => rfl) (.own h)

/-- A parser that goes by the token at hand. -/
theorem ofCurrent {f : Token → Parser β} (h : ∀ k, Demand (f k.current) k) :
    Sparing (current >>= f) :=
  fun k => (h k).after (.refl k) fun _ => rfl

/-- A parser that goes by the kind of the token at hand. -/
theorem ofPeek {f : Kind → Parser β} (h : ∀ k, Demand (f k.current.kind) k) :
    Sparing (peek >>= f) :=
  fun k => (h k).after (.refl k) fun _ => rfl

theorem current : Sparing current := ofCurrent fun _ => pure _ _

theorem peek : Sparing peek := ofPeek fun _ => pure _ _

theorem here : Sparing here := current.bind fun _ => .pure _

theorem spanFrom (start : Nat) : Sparing (spanFrom start) :=
  fun k => .done ⟨start, max k.before.stop start⟩ k (fun _ => rfl) (.refl k)

theorem tooDeep (limit : Nat) : Sparing (Parser.tooDeep limit : Parser α) :=
  current.bind fun _ => .fail rfl _

theorem expect {kind : Kind} (h : kind ≠ .endOfInput) : Sparing (expect kind) := by
  refine ofCurrent fun k => ?_
  split
  · rename_i hkind
    exact .consume hkind h
  · exact fail rfl _ k

theorem accept {kind : Kind} (h : kind ≠ .endOfInput) : Sparing (accept kind) := by
  refine ofPeek fun k => ?_
  split
  · rename_i hkind
    exact (Demand.consume hkind h).bind fun _ => .pure _
  · exact pure _ k

theorem symbol (s : Symbol) : Sparing (symbol s) :=
  (expect (by nofun)).bind fun _ => .pure _

theorem word (w : Keyword) : Sparing (word w) :=
  (expect (by nofun)).bind fun _ => .pure _

theorem name : Sparing name := (expect (by nofun)).bind fun _ => .pure _

/-! ### Loops -/

theorem statementsUpTo {item : Parser Stmt} (hitem : Sparing item) (left : Nat) :
    Sparing (statementsUpTo item left) := by
  induction left with
  | zero => exact peek.bind fun _ => .ite (.pure _) (hitem.bind fun _ => .fail rfl _)
  | succ left ih =>
    exact peek.bind fun _ => .ite (.pure _) (hitem.bind fun _ => ih.bind fun _ => .pure _)

theorem argumentsUpTo {item : Parser Expr} (hitem : Sparing item) (left : Nat)
    {separator : Parser Unit} (hseparator : Sparing separator) :
    Sparing (argumentsUpTo item left separator) := by
  induction left generalizing separator with
  | zero =>
    exact peek.bind fun _ => .ite (.pure _) (hseparator.bind fun _ => hitem.bind fun _ =>
      .fail rfl _)
  | succ left ih =>
    exact peek.bind fun _ => .ite (.pure _) (hseparator.bind fun _ => hitem.bind fun _ =>
      (ih (symbol _)).bind fun _ => .pure _)

theorem arguments {item : Parser Expr} (hitem : Sparing item) : Sparing (arguments item) :=
  (symbol _).bind fun _ => (argumentsUpTo hitem _ (.pure _)).bind fun _ =>
    (symbol _).bind fun _ => .pure _

theorem chain {link : Expr → Parser (Option Expr)} (hlink : ∀ base, Sparing (link base))
    (left : Nat) (base : Expr) : Sparing (chain link left base) := by
  induction left generalizing base with
  | zero => exact current.bind fun _ => .fail rfl _
  | succ left ih =>
    refine (hlink base).bind fun o => ?_
    cases o with
    | none => exact .pure _
    | some longer => exact ih longer

end Sparing

/-! #### Rounds behind a mark -/

section Rounds

variable {mark : Kind} {item : Parser α}

/-- Rounds of `item`, as many as there are tokens left, and some more. -/
def roundsWith (mark : Kind) (item : Parser α) (extra : Nat) : Parser (List α) := do
  let k ← get
  roundsAfter mark item (k.rest.length + extra)

/-- One round whose mark has been consumed, and as many more as there are tokens left. -/
def roundWith (mark : Kind) (item : Parser α) (extra : Nat) : Parser (List α) := do
  let k ← get
  let first ← item
  return first :: (← roundsAfter mark item (k.rest.length + extra))

theorem roundsWith_of_ne (h : k.current.kind ≠ mark) (extra : Nat) :
    roundsWith mark item extra k = .ok ([], k) := by
  rw [roundsWith, get_bind]
  cases k.rest.length + extra with
  | zero => rfl
  | succ left =>
    have haccept : accept mark k = .ok (false, k) := by
      rw [accept, peek_bind, if_neg h]
      rfl
    rw [roundsAfter, bind_of_ok haccept]
    rfl

theorem roundsWith_of_error (h : k.current.kind = mark) {fault : Fault LexicalCause}
    {rest : List Pull} (hrest : k.rest = .error fault :: rest) (extra : Nat) :
    roundsWith mark item extra k = .error (fault.map .lexical) := by
  have haccept : accept mark k = .error (fault.map .lexical) := by
    rw [accept, peek_bind, if_pos h]
    refine bind_of_error ?_
    rw [advance, hrest]
  rw [roundsWith, get_bind, hrest, List.length_cons, Nat.add_right_comm, roundsAfter,
    bind_of_error haccept]

theorem roundsWith_of_ok (h : k.current.kind = mark) {next : Token} {rest : List Pull}
    (hrest : k.rest = .ok next :: rest) (extra : Nat) :
    roundsWith mark item extra k = roundWith mark item extra ⟨next, rest, k.current.span⟩ := by
  have hadvance : advance k = .ok (k.current, ⟨next, rest, k.current.span⟩) := by
    rw [advance, hrest]
  have haccept : accept mark k = .ok (true, ⟨next, rest, k.current.span⟩) := by
    rw [accept, peek_bind, if_pos h, bind_of_ok hadvance]
    rfl
  rw [roundsWith, get_bind, hrest, List.length_cons, Nat.add_right_comm, roundsAfter,
    bind_of_ok haccept]
  rfl

/-- Behind `item` there are fewer tokens left than rounds, so that the difference is extra. -/
theorem Demand.roundWith (hitem : Demand item k) (hrounds : ∀ k', k.Leads k' → ∀ extra,
    Demand (roundsWith mark item extra) k') (extra : Nat) :
    Demand (roundWith mark item extra) k := by
  refine hitem.andThen ?_ fun first k' hfirst hleads => ?_
  · intro more fault h
    rw [FormCalc.roundWith, get_bind, bind_of_error h]
  have hle := hleads.length_le
  have hrest := (hrounds k' hleads (k.rest.length - k'.rest.length + extra)).bind fun others =>
    .pure (first :: others)
  refine hrest.after hleads fun more => ?_
  have hleft : (k.extend more).rest.length + extra =
      (k'.extend more).rest.length + (k.rest.length - k'.rest.length + extra) := by
    simp only [Cursor.extend, List.length_append]
    omega
  rw [FormCalc.roundWith, get_bind, bind_of_ok (hfirst more), hleft]
  rfl

/-- **There are enough rounds.**  Each of them consumes a token, so that with as many rounds as
tokens the loop ends where a mark is missing, or else it asks for more tokens. -/
theorem Sparing.roundsWith (hmark : mark ≠ .endOfInput) (hitem : Sparing item) (extra : Nat) :
    Sparing (roundsWith mark item extra) := by
  intro k
  -- The tokens left get fewer with each round, and the rounds that `item` makes needless are extra.
  induction hlength : k.rest.length using Nat.strongRecOn generalizing k extra with
  | ind length ih =>
    by_cases hkind : k.current.kind = mark
    · have hkinds : ∀ more, (k.extend more).current.kind = mark := fun _ => hkind
      have htoken : k.current.kind ≠ .endOfInput := hkind ▸ hmark
      obtain ⟨token, rest, before⟩ := k
      rcases rest with _ | ⟨fault | next, rest⟩
      · refine .beyond (fun fault more => roundsWith_of_error (hkinds _) rfl extra) ?_
        exact List.forall_mem_singleton.mpr htoken
      · exact .failed (fun more => roundsWith_of_error (hkinds more) rfl extra)
          (.lexical (List.mem_cons_of_mem _ List.mem_cons_self))
      · have hround : Demand (roundWith mark item extra) ⟨next, rest, token.span⟩ := by
          refine (hitem _).roundWith (fun k' hleads extra => ih _ ?_ extra k' rfl) extra
          rw [← hlength]
          exact Nat.lt_succ_of_le hleads.length_le
        exact hround.after ⟨[token], rfl, List.forall_mem_singleton.mpr htoken⟩ fun more =>
          roundsWith_of_ok (hkinds more) rfl extra
    · have hkinds : ∀ more, (k.extend more).current.kind ≠ mark := fun _ => hkind
      exact .done [] k (fun more => roundsWith_of_ne (hkinds more) extra) (.refl k)

theorem Sparing.eachAfter (hmark : mark ≠ .endOfInput) (hitem : Sparing item) :
    Sparing (eachAfter mark item) := Sparing.roundsWith hmark hitem 0

end Rounds

/-! ### Productions -/

namespace Production

variable {list : Parser (List Stmt)} {body : Parser Block} {value cond : Parser Expr}
  {bracket : Parser Index}

theorem sparing_block (hlist : Sparing list) : Sparing (block list) :=
  Sparing.here.bind fun _ => hlist.bind fun _ => (Sparing.spanFrom _).bind fun _ => .pure _

theorem sparing_parameters : Sparing parameters :=
  Sparing.peek.bind fun _ => .ite (.pure _)
    (Sparing.name.bind fun _ => (Sparing.eachAfter (by nofun) .name).bind fun _ => .pure _)

theorem sparing_function (hlist : Sparing list) : Sparing (function list) :=
  Sparing.here.bind fun _ => (Sparing.word _).bind fun _ => Sparing.name.bind fun _ =>
    (Sparing.symbol _).bind fun _ => sparing_parameters.bind fun _ =>
      (Sparing.symbol _).bind fun _ => (Sparing.word _).bind fun _ => hlist.bind fun _ =>
        (Sparing.word _).bind fun _ => (Sparing.spanFrom _).bind fun _ => .pure _

theorem sparing_optional {mark : Kind} (hmark : mark ≠ .endOfInput) (hvalue : Sparing value) :
    Sparing (optional mark value) :=
  (Sparing.accept hmark).bind fun _ => .ite (hvalue.bind fun _ => .pure _) (.pure _)

theorem sparing_var (hvalue : Sparing value) : Sparing (var value) :=
  Sparing.here.bind fun _ => (Sparing.word _).bind fun _ => Sparing.name.bind fun _ =>
    (sparing_optional (by nofun) hvalue).bind fun _ => (Sparing.spanFrom _).bind fun _ => .pure _

theorem sparing_assignment (hvalue : Sparing value) : Sparing (assignment value) :=
  Sparing.here.bind fun _ => hvalue.bind fun _ => (Sparing.accept (by nofun)).bind fun _ =>
    .ite (hvalue.bind fun _ => (Sparing.spanFrom _).bind fun _ => .pure _)
      ((Sparing.spanFrom _).bind fun _ => .pure _)

theorem sparing_arm (hcond : Sparing cond) (hbody : Sparing body) :
    Sparing (arm cond body) :=
  hcond.bind fun _ => (Sparing.word _).bind fun _ => hbody.bind fun _ => .pure _

theorem sparing_branch (hcond : Sparing cond) (hbody : Sparing body) :
    Sparing (branch cond body) := by
  have hend : ∀ f : Span → Stmt, ∀ start,
      Sparing (do word .kwEndif; return f (← spanFrom start)) :=
    fun _ _ => (Sparing.word _).bind fun _ => (Sparing.spanFrom _).bind fun _ => .pure _
  exact Sparing.here.bind fun _ => (Sparing.word _).bind fun _ =>
    (sparing_arm hcond hbody).bind fun _ =>
      (Sparing.eachAfter (by nofun) (sparing_arm hcond hbody)).bind fun _ =>
        (Sparing.accept (by nofun)).bind fun _ =>
          .ite (hbody.bind fun _ => (Sparing.pure _).bind fun _ => hend _ _)
            ((Sparing.pure _).bind fun _ => hend _ _)

theorem sparing_loop (hcond : Sparing cond) (hbody : Sparing body) :
    Sparing (loop cond body) :=
  Sparing.here.bind fun _ => (Sparing.word _).bind fun _ => hcond.bind fun _ =>
    (Sparing.word _).bind fun _ => hbody.bind fun _ => (Sparing.word _).bind fun _ =>
      (Sparing.spanFrom _).bind fun _ => .pure _

theorem sparing_direction : Sparing direction := by
  refine Sparing.ofCurrent fun k => ?_
  split
  · rename_i hkind
    exact (Demand.consume hkind nofun).bind fun _ => .pure _
  · rename_i hkind
    exact (Demand.consume hkind nofun).bind fun _ => .pure _
  · exact Sparing.fail rfl _ k

theorem sparing_count (hvalue : Sparing value) (hbody : Sparing body) :
    Sparing (count value body) :=
  Sparing.here.bind fun _ => (Sparing.word _).bind fun _ => Sparing.name.bind fun _ =>
    (Sparing.symbol _).bind fun _ => hvalue.bind fun _ => sparing_direction.bind fun _ =>
      hvalue.bind fun _ => (sparing_optional (by nofun) hvalue).bind fun _ =>
        (Sparing.word _).bind fun _ => hbody.bind fun _ => (Sparing.word _).bind fun _ =>
          (Sparing.spanFrom _).bind fun _ => .pure _

theorem sparing_each (hvalue : Sparing value) (hbody : Sparing body) :
    Sparing (each value body) := by
  refine Sparing.here.bind fun _ => (Sparing.word _).bind fun _ => Sparing.name.bind fun _ =>
    (Sparing.word _).bind fun _ => (Sparing.arguments hvalue).bind fun _ => .ite ?_ ?_
  · exact fun k => .failed (fun _ => rfl) (.own rfl)
  · exact (Sparing.word _).bind fun _ => hbody.bind fun _ => (Sparing.word _).bind fun _ =>
      (Sparing.spanFrom _).bind fun _ => .pure _

theorem sparing_scope (hbody : Sparing body) : Sparing (scope body) :=
  Sparing.here.bind fun _ => (Sparing.word _).bind fun _ => hbody.bind fun _ =>
    (Sparing.word _).bind fun _ => (Sparing.spanFrom _).bind fun _ => .pure _

/-- A statement of one word is read where a token is that is no end mark. -/
theorem demand_single (h : k.current.kind ≠ .endOfInput) (stmt : Span → Stmt) :
    Demand (single stmt) k := by
  have hrest : Demand (do let _ ← advance; return stmt (← spanFrom k.current.span.start)) k :=
    (Demand.consume rfl h).bind fun _ => (Sparing.spanFrom _).bind fun _ => .pure _
  exact hrest.after (.refl k) fun _ => rfl

theorem sparing_unary {operand primary : Parser Expr} (hoperand : Sparing operand)
    (hprimary : Sparing primary) : Sparing (unary operand primary) := by
  refine Sparing.here.bind fun _ => Sparing.ofPeek fun k => ?_
  split
  · rename_i op hop
    have hkind : k.current.kind ≠ .endOfInput := by
      intro heq
      rw [heq] at hop
      cases hop
    exact (Demand.consume rfl hkind).bind fun _ => hoperand.bind fun _ =>
      (Sparing.spanFrom _).bind fun _ => .pure _
  · exact hprimary k

theorem sparing_parenthesized (hvalue : Sparing value) :
    Sparing (parenthesized value) := by
  have hrest : Sparing (do let value ← value; symbol .rightParen; return value) :=
    hvalue.bind fun _ => (Sparing.symbol _).bind fun _ => .pure _
  exact (Sparing.expect (by nofun)).bind fun _ => Sparing.current.bind fun _ =>
    .ite ((Sparing.fail rfl _).bind fun _ => hrest) hrest

theorem sparing_index (hvalue : Sparing value) : Sparing (index value) := by
  refine (Sparing.symbol _).bind fun _ => Sparing.bind (Sparing.ofPeek fun k => ?_) fun _ =>
    (Sparing.symbol _).bind fun _ => .pure _
  split
  · rename_i hkind
    exact (Demand.consume hkind nofun).bind fun _ => .pure _
  · rename_i hkind
    exact (Demand.consume hkind nofun).bind fun _ => hvalue.bind fun _ => .pure _
  · rename_i hkind
    exact (Demand.consume hkind nofun).bind fun _ => hvalue.bind fun _ => .pure _
  · exact (hvalue k).bind fun _ => .pure _

theorem sparing_optionalIndex (hindex : Sparing bracket) :
    Sparing (optionalIndex bracket) :=
  Sparing.peek.bind fun _ => .ite hindex (.pure _)

theorem sparing_indexedCall (hindex : Sparing bracket) (call : Expr) :
    Sparing (indexedCall bracket call) :=
  Sparing.peek.bind fun _ => .ite
    (hindex.bind fun _ => (Sparing.spanFrom _).bind fun _ => .pure _) (.pure _)

theorem sparing_suffix (hvalue : Sparing value) (hindex : Sparing bracket)
    (base : Expr) : Sparing (suffix value bracket base) := by
  have haccessor : ∀ f : Index → Span → Option Expr, ∀ start, Sparing (do
      let index ← optionalIndex bracket
      return f index (← spanFrom start)) :=
    fun _ _ => (sparing_optionalIndex hindex).bind fun _ =>
      (Sparing.spanFrom _).bind fun _ => .pure _
  refine Sparing.ofPeek fun k => ?_
  split
  · exact (Sparing.arguments hvalue k).bind fun _ => (Sparing.spanFrom _).bind fun _ =>
      (sparing_indexedCall hindex _).bind fun _ => .pure _
  · rename_i hkind
    refine (Demand.consume hkind nofun).bind fun _ =>
      (Sparing.expect (by nofun)).bind fun _ => Sparing.peek.bind fun _ =>
        .ite ?_ (haccessor (fun index span => some (.dot base _ index span)) _)
    exact (Sparing.arguments hvalue).bind fun _ => (Sparing.spanFrom _).bind fun _ =>
      (Sparing.spanFrom _).bind fun _ => (sparing_indexedCall hindex _).bind fun _ => .pure _
  · rename_i hkind
    exact (Demand.consume hkind nofun).bind fun _ => Sparing.name.bind fun name =>
      haccessor (fun index span => some (.descendant base name index span)) _
  · rename_i hkind
    exact (Demand.consume hkind nofun).bind fun _ => Sparing.name.bind fun _ =>
      haccessor (fun index span => some (.dot base _ index span)) _
  · rename_i hkind
    exact (Demand.consume hkind nofun).bind fun _ =>
      (Sparing.spanFrom _).bind fun _ => .pure _
  · exact Sparing.pure _ k

theorem sparing_primary {group : Parser Expr} {suffixes : Expr → Parser Expr}
    (hindex : Sparing bracket) (hgroup : Sparing group)
    (hsuffixes : ∀ base, Sparing (suffixes base)) :
    Sparing (primary bracket group suffixes) := by
  refine Sparing.ofCurrent fun k => ?_
  split
  · rename_i hkind
    exact (Demand.consume hkind nofun).bind fun _ => .pure _
  · rename_i hkind
    exact (Demand.consume hkind nofun).bind fun _ => .pure _
  · rename_i hkind
    exact (Demand.consume hkind nofun).bind fun _ => .pure _
  · rename_i hkind
    exact (Demand.consume hkind nofun).bind fun _ => Sparing.peek.bind fun _ => .ite
      (hindex.bind fun _ => (Sparing.spanFrom _).bind fun _ => hsuffixes _) (hsuffixes _)
  · exact (hgroup k).bind fun _ => hsuffixes _
  · exact .noExpression _

theorem sparing_operand {layer : Layer} {tighter : Layer → Parser Expr} {unary : Parser Expr}
    (htighter : ∀ layer, Sparing (tighter layer)) (hunary : Sparing unary) :
    Sparing (operand layer tighter unary) := by
  unfold operand
  split
  · exact htighter _
  · exact hunary

end Production

/-! ### The grammar -/

/-- Whether no production asks for a token behind an end mark, with this much room for nesting. -/
structure Grammar.AllSparing (limit room : Nat) : Prop where
  statements : Sparing (statements limit room)
  function : Sparing (function limit room)
  statement : Sparing (statement limit room)
  var : Sparing (var limit room)
  assignment : Sparing (assignment limit room)
  branch : Sparing (branch limit room)
  loop : Sparing (loop limit room)
  count : Sparing (count limit room)
  each : Sparing (each limit room)
  scope : Sparing (scope limit room)
  binary : ∀ layer, Sparing (binary limit layer room)
  operations : ∀ layer start left, Sparing (operations limit layer start room left)
  unary : Sparing (unary limit room)
  primary : Sparing (primary limit room)
  parenthesized : Sparing (parenthesized limit room)
  suffixes : ∀ base, Sparing (suffixes limit room base)
  index : Sparing (index limit room)

namespace Grammar.AllSparing

variable {limit room : Nat}

theorem zero (limit : Nat) : AllSparing limit 0 where
  statements := .tooDeep limit
  function := .tooDeep limit
  statement := .tooDeep limit
  var := .tooDeep limit
  assignment := .tooDeep limit
  branch := .tooDeep limit
  loop := .tooDeep limit
  count := .tooDeep limit
  each := .tooDeep limit
  scope := .tooDeep limit
  binary := fun _ => .tooDeep limit
  operations := by
    intro layer start left
    refine Sparing.peek.bind fun kind => ?_
    cases layer.operator? kind with
    | none => exact .pure _
    | some op => exact .tooDeep limit
  unary := .tooDeep limit
  primary := .tooDeep limit
  parenthesized := .tooDeep limit
  suffixes := fun _ => .tooDeep limit
  index := .tooDeep limit

theorem statement_succ (h : AllSparing limit room) :
    Sparing (Grammar.statement limit (room + 1)) := by
  refine Sparing.ofCurrent fun k => ?_
  split
  · exact h.var k
  · exact h.branch k
  · exact h.loop k
  · exact h.count k
  · exact h.each k
  · exact h.scope k
  · rename_i hkind
    exact Production.demand_single (by rw [hkind]; nofun) _
  · rename_i hkind
    exact Production.demand_single (by rw [hkind]; nofun) _
  · split
    · exact h.assignment k
    · exact .noExpression _

/-- No operator is an end mark. -/
theorem operations_succ (h : AllSparing limit room) (layer : Layer) (start : Nat)
    (left : Expr) : Sparing (Grammar.operations limit layer start (room + 1) left) := by
  refine Sparing.ofPeek fun k => ?_
  have hmark : layer.operator? .endOfInput = none := by cases layer <;> rfl
  cases hop : layer.operator? k.current.kind with
  | none => exact Sparing.pure _ k
  | some op =>
    have hkind : k.current.kind ≠ .endOfInput := by
      intro heq
      rw [heq, hmark] at hop
      cases hop
    exact (Demand.consume rfl hkind).bind fun _ =>
      (Production.sparing_operand h.binary h.unary).bind fun _ =>
        (Sparing.spanFrom _).bind fun _ => h.operations _ _ _

theorem succ (h : AllSparing limit room) : AllSparing limit (room + 1) where
  statements := .statementsUpTo (Sparing.peek.bind fun _ => .ite h.function h.statement) _
  function := Production.sparing_function h.statements
  statement := h.statement_succ
  var := Production.sparing_var (h.binary _)
  assignment := Production.sparing_assignment (h.binary _)
  branch := Production.sparing_branch h.parenthesized (Production.sparing_block h.statements)
  loop := Production.sparing_loop h.parenthesized (Production.sparing_block h.statements)
  count := Production.sparing_count (h.binary _) (Production.sparing_block h.statements)
  each := Production.sparing_each (h.binary _) (Production.sparing_block h.statements)
  scope := Production.sparing_scope (Production.sparing_block h.statements)
  binary := fun _ => Sparing.here.bind fun _ =>
    (Production.sparing_operand h.binary h.unary).bind fun _ => h.operations _ _ _
  operations := h.operations_succ
  unary := Production.sparing_unary h.unary h.primary
  primary := Production.sparing_primary h.index h.parenthesized h.suffixes
  parenthesized := Production.sparing_parenthesized (h.binary _)
  suffixes := Sparing.chain (Production.sparing_suffix (h.binary _) h.index) _
  index := Production.sparing_index (h.binary _)

end Grammar.AllSparing

/-- **No production asks for a token behind an end mark**, at whatever depth it meets the mark. -/
theorem Grammar.allSparing (limit room : Nat) : AllSparing limit room := by
  induction room with
  | zero => exact .zero limit
  | succ room ih => exact ih.succ

/-! ### Whole scripts -/

/-- A script whose first token is at hand. -/
def Grammar.afterFirst (limit length : Nat) : Parser Program := do
  let stmts ← statements limit (limit - 1)
  let token ← current
  if token.kind = .endOfInput ∧ length ≤ token.span.stop then
    return ⟨stmts, ⟨0, length⟩⟩
  else fail (.trailingInput token.kind) token.span

/-- The first call is made before anything is looked at. -/
theorem Grammar.script_start (limit length : Nat) (first : Token) (rest : List Pull) :
    script limit length (Cursor.start (.ok first :: rest)) =
      afterFirst limit length ⟨first, rest, .origin⟩ := rfl

theorem Grammar.sparing_afterFirst (limit length : Nat) : Sparing (afterFirst limit length) :=
  (allSparing limit _).statements.bind fun _ => Sparing.current.bind fun _ =>
    .ite (.pure _) (.fail rfl _)

/-- Whether a script comes to the same, whatever the calls behind some answers would give. -/
def Grammar.Settles (limit length : Nat) (front : List Pull) : Prop :=
  ∀ more, (script limit length (Cursor.start (front ++ more))).map (·.1) =
    (script limit length (Cursor.start front)).map (·.1)

/-- **A script asks for another token, or it is settled.**  It asks only where it has not been
given an end mark or a fault. -/
theorem Grammar.asks_or_settles (limit length : Nat) (front : List Pull) :
    (AsksBeyond (script limit length) (Cursor.start front) ∧
      ∀ pull ∈ front, ¬Lexer.IsLast pull) ∨ Settles limit length front := by
  -- It is enough that there is one outcome for all that could follow.
  have hsettles : ∀ outcome, (∀ more, (script limit length (Cursor.start (front ++ more))).map
      (·.1) = outcome) → Settles limit length front := by
    intro outcome h more
    have hnil := h []
    rw [List.append_nil] at hnil
    rw [h more, hnil]
  rcases front with _ | ⟨fault | first, rest⟩
  · exact .inl ⟨fun fault more => rfl, nofun⟩
  · exact .inr (hsettles (.error (fault.map .lexical)) fun more => rfl)
  · cases sparing_afterFirst limit length ⟨first, rest, .origin⟩ with
    | beyond h hopen => exact .inl ⟨h, hopen⟩
    | done x k' h _ =>
      refine .inr (hsettles (.ok x) fun more => ?_)
      exact congrArg (Except.map Prod.fst) (h more)
    | @failed fault h _ =>
      refine .inr (hsettles (.error fault) fun more => ?_)
      exact congrArg (Except.map Prod.fst) (h more)

/-- A script that was given an end mark or a fault is done, and what it was given explains how it
failed. -/
theorem Grammar.explains_of_script {limit length : Nat} {pulls : List Pull} {last : Pull}
    (hmem : last ∈ pulls) (hlast : Lexer.IsLast last) {fault : Fault GrammarCause}
    (h : script limit length (Cursor.start pulls) = .error fault) :
    (Cursor.start pulls).Explains fault := by
  rcases pulls with _ | ⟨lexical | first, rest⟩
  · cases hmem
  · obtain rfl := Except.error.inj h
    exact .lexical (List.mem_cons_of_mem _ List.mem_cons_self)
  · rw [script_start, ← Cursor.extend_nil ⟨first, rest, .origin⟩] at h
    cases sparing_afterFirst limit length ⟨first, rest, .origin⟩ with
    | beyond _ hopen => exact absurd hlast (hopen last hmem)
    | done x k' hdone _ => cases (hdone []).symm.trans h
    | failed hfailed hexplains =>
      obtain rfl := Except.error.inj ((hfailed []).symm.trans h)
      exact hexplains.mono fun _ => List.mem_cons_of_mem _

/-- **Nothing behind an end mark is read**: a script comes out the same, whatever else a lexer
could be asked for. -/
theorem Grammar.script_append (limit length : Nat) (lexer : Lexer) (more : List Pull) :
    (script limit length (Cursor.start (lexer.pulls ++ more))).map (·.1) =
      (script limit length (Cursor.start lexer.pulls)).map (·.1) := by
  obtain ⟨tokens, last, hpulls, hlast⟩ := lexer.exists_last
  rcases asks_or_settles limit length lexer.pulls with ⟨-, hopen⟩ | hsettles
  · exact absurd hlast (hopen last (by simp [hpulls]))
  · exact hsettles more

end FormCalc
