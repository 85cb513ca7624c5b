import FormCalc.Proofs.Grammar.Demand
import FormCalc.Proofs.Grammar.Fault
import FormCalc.Proofs.Grammar.Progress
import FormCalc.Proofs.Grammar.Soundness
import FormCalc.Proofs.Grammar.Unambiguous
import Mathlib.Data.Nat.Find

/-!
# The calls that a script makes

A parser calls the lexer for one token after the other.  It makes no call once it holds an end
mark, so that the tokens up to the first end mark or fault bound the number of its calls; and every
production and every round of a loop consumes a token, so that it comes to its end.

* `Cursor.Consumes`: a cursor goes on to another past at least one token.
* `Grammar.Completes`, `Grammar.Repeats`: the productions that must consume a token, and the rounds
  of the loops.
* `Grammar.Loops.rounds`: a loop is made of such rounds.
* `CallsAgain`: after a number of answers, the script calls the lexer once more.
* `parse_calls`: how many calls a script makes.
* `first_fault_final`: a lexical fault of a script is the first and the last fault of its lexer.
-/

namespace FormCalc

open FormCalc.Parser

variable {α β : Type} {k k₁ k' : Cursor}

/-! ### Reading consumes -/

/-- Whether a cursor goes on to another past at least one token. -/
def Cursor.Consumes (k k' : Cursor) : Prop :=
  ∃ (token : Token) (segment : List Token), k.Passes (token :: segment) k'

namespace Cursor.Consumes

variable {segment : List Token}

theorem trans_passes (h : k.Consumes k₁) (h' : k₁.Passes segment k') : k.Consumes k' := by
  obtain ⟨token, front, hpasses⟩ := h
  exact ⟨token, front ++ segment, hpasses.trans h'⟩

theorem of_passes (h : k.Passes segment k₁) (h' : k₁.Consumes k') : k.Consumes k' := by
  obtain ⟨token, more, hpasses⟩ := h'
  cases segment with
  | nil => exact ⟨token, more, h.trans hpasses⟩
  | cons first segment => exact ⟨first, segment ++ token :: more, h.trans hpasses⟩

/-- What derives from a rule that cannot be empty is at least one token. -/
theorem of_yield {r : Rule} {d : Derivation r} (hpasses : k.Passes segment k')
    (h : k.terminals = d.yield ++ k'.terminals) (hrule : ¬r.Starts .endOfInput) :
    k.Consumes k' := by
  cases segment with
  | cons token segment => exact ⟨token, segment, hpasses⟩
  | nil =>
    -- Then nothing was derived, but a derivation from this rule begins with a kind of its own.
    have htokens : k.tokens = k'.tokens := hpasses.tokens
    have hyield : d.yield = [] := by
      rw [Cursor.terminals, htokens] at h
      exact List.append_left_eq_self.mp h.symm
    have hstarts := d.starts .endOfInput
    rw [hyield] at hstarts
    exact absurd hstarts hrule

end Cursor.Consumes

/-- Whether a parser consumes a token wherever it succeeds. -/
def Consuming (p : Parser α) : Prop :=
  ∀ ⦃k : Cursor⦄ ⦃x : α⦄ ⦃k' : Cursor⦄, p k = .ok (x, k') → k.Consumes k'

namespace Consuming

variable {p q : Parser α} {f : α → Parser β}

/-- A rule that cannot be empty. -/
theorem of_reads {r : Rule} {R : α → r.Value → Prop} (hp : Reads r R p) (hmoves : Moves p)
    (hrule : ¬r.Starts .endOfInput) : Consuming p := by
  intro k x k' h
  obtain ⟨segment, hpasses⟩ := hmoves h
  obtain ⟨d, hterminals, -⟩ := hp h
  exact .of_yield hpasses hterminals hrule

theorem bind (hp : Consuming p) (hf : ∀ x, Moves (f x)) : Consuming (p >>= f) := by
  intro k y k' h
  obtain ⟨x, k₁, hx, hy⟩ := bind_eq_ok.mp h
  obtain ⟨segment, hpasses⟩ := hf x hy
  exact (hp hx).trans_passes hpasses

theorem ofMoves (hp : Moves p) (hf : ∀ x, Consuming (f x)) : Consuming (p >>= f) := by
  intro k y k' h
  obtain ⟨x, k₁, hx, hy⟩ := bind_eq_ok.mp h
  obtain ⟨segment, hpasses⟩ := hp hx
  exact .of_passes hpasses (hf x hy)

theorem ite {c : Prop} [Decidable c] (hp : Consuming p) (hq : Consuming q) :
    Consuming (if c then p else q) := by
  split
  · exact hp
  · exact hq

theorem advance : Consuming advance := by
  intro k x k' h
  exact ⟨k.current, [], (Cursor.Passes.of_advance h).2⟩

theorem expect (kind : Kind) : Consuming (expect kind) :=
  ofMoves .current fun _ => ite advance fun _ _ _ h => nomatch h

theorem symbol (s : Symbol) : Consuming (symbol s) := (expect _).bind fun _ => .pure _

theorem name : Consuming name := (expect _).bind fun _ => .pure _

end Consuming

/-- An accepted mark is consumed. -/
theorem Cursor.Consumes.of_accept {mark : Kind} (h : accept mark k = .ok (true, k')) :
    k.Consumes k' := by
  unfold accept at h
  rw [peek_bind] at h
  split at h
  · obtain ⟨token, k₁, hadvance, hpure⟩ := bind_eq_ok.mp h
    obtain ⟨-, rfl⟩ := Prod.mk.inj (pure_eq_ok.mp hpure)
    exact Consuming.advance hadvance
  · obtain ⟨hfalse, -⟩ := Prod.mk.inj (pure_eq_ok.mp h)
    cases hfalse

namespace Grammar

variable {limit room : Nat}

theorem consuming_statement : Consuming (statement limit room) :=
  .of_reads (sound limit room).statement (forward limit room).statement nofun

theorem consuming_function : Consuming (function limit room) :=
  .of_reads (sound limit room).function (forward limit room).function nofun

theorem consuming_binary (layer : Layer) : Consuming (binary limit layer room) :=
  .of_reads ((sound limit room).binary layer) ((forward limit room).binary layer) nofun

theorem consuming_operand (layer : Layer) : Consuming
    (Production.operand layer (fun layer => binary limit layer room) (unary limit room)) :=
  .of_reads ((sound limit room).operand layer)
    (Production.moves_operand (forward limit room).binary (forward limit room).unary) nofun

theorem consuming_parenthesized : Consuming (parenthesized limit room) :=
  .of_reads (sound limit room).parenthesized (forward limit room).parenthesized nofun

theorem consuming_index : Consuming (index limit room) :=
  .of_reads (sound limit room).index (forward limit room).index nofun

theorem consuming_arguments {item : Parser Expr} (hitem : Moves item) :
    Consuming (arguments item) :=
  (Consuming.symbol _).bind fun _ => (Moves.argumentsUpTo hitem _ (.pure _)).bind fun _ =>
    (Moves.symbol _).bind fun _ => .pure _

/-- Where a suffix is found, it is consumed. -/
theorem consumes_of_suffix {base longer : Expr} (h : Production.suffix
    (binary limit .logicalOr room) (index limit room) base k = .ok (some longer, k')) :
    k.Consumes k' := by
  have hmoves := Production.moves_suffix ((forward limit room).binary .logicalOr)
    (forward limit room).index base
  obtain ⟨segment, hpasses⟩ := hmoves h
  obtain ⟨d, hterminals, -⟩ :=
    Production.suffix_ok ((sound limit room).binary .logicalOr) (sound limit room).index h
  exact .of_yield hpasses hterminals nofun

/-- The productions that have to consume a token where they succeed. -/
inductive Completes (limit : Nat) (k k' : Cursor) : Prop
  | statement {room : Nat} {stmt : Stmt} (h : statement limit room k = .ok (stmt, k'))
  | function {room : Nat} {stmt : Stmt} (h : function limit room k = .ok (stmt, k'))
  | simple {room : Nat} {expr : Expr} (h : binary limit .logicalOr room k = .ok (expr, k'))
  | operand {layer : Layer} {room : Nat} {expr : Expr}
      (h : Production.operand layer (fun layer => binary limit layer room) (unary limit room) k =
        .ok (expr, k'))
  | parenthesized {room : Nat} {expr : Expr} (h : parenthesized limit room k = .ok (expr, k'))
  | arguments {room : Nat} {args : List Expr}
      (h : arguments (binary limit .logicalOr room) k = .ok (args, k'))
  | index {room : Nat} {bracket : Index} (h : index limit room k = .ok (bracket, k'))

theorem Completes.consumes (h : Completes limit k k') : k.Consumes k' := by
  cases h with
  | statement h => exact consuming_statement h
  | function h => exact consuming_function h
  | simple h => exact consuming_binary _ h
  | operand h => exact consuming_operand _ h
  | parenthesized h => exact consuming_parenthesized h
  | arguments h => exact consuming_arguments ((forward limit _).binary _) h
  | index h => exact consuming_index h

/-- One round of a loop that is completed, with the cursors before and behind it. -/
inductive Repeats (limit : Nat) (k k' : Cursor) : Prop
  /-- A round of `statementsUpTo`. -/
  | statement {room : Nat} {stmt : Stmt} (h : (do
      if (← peek) = .keyword .kwFunc then function limit room
      else statement limit room : Parser Stmt) k = .ok (stmt, k'))
  /-- The first parameter of a function, and a round of `eachAfter` for the others. -/
  | firstParameter {param : String} (h : name k = .ok (param, k'))
  | parameter {k₁ : Cursor} {param : String} (hmark : accept (.symbol .comma) k = .ok (true, k₁))
      (h : name k₁ = .ok (param, k'))
  /-- A round of `argumentsUpTo`, the first of which has no comma. -/
  | argument {room : Nat} {separator : Parser Unit} {arg : Expr}
      (hseparator : separator = pure () ∨ separator = symbol .comma)
      (h : (do separator; binary limit .logicalOr room) k = .ok (arg, k'))
  /-- A round of `eachAfter` for the arms of an `if`. -/
  | elseIf {room : Nat} {k₁ : Cursor} {arm : Expr × Block}
      (hmark : accept (.keyword .kwElseif) k = .ok (true, k₁))
      (h : Production.arm (parenthesized limit room) (Production.block (statements limit room)) k₁ =
        .ok (arm, k'))
  /-- An operator of `operations` and the operand behind it. -/
  | operator {layer : Layer} {room : Nat} {op : BinaryOp} {token : Token} {right : Expr}
      {k₁ : Cursor} (hop : layer.operator? k.current.kind = some op)
      (hmark : advance k = .ok (token, k₁))
      (h : Production.operand layer (fun layer => binary limit layer room) (unary limit room) k₁ =
        .ok (right, k'))
  /-- A round of `chain` that finds a suffix. -/
  | suffix {room : Nat} {base longer : Expr} (h : Production.suffix (binary limit .logicalOr room)
      (index limit room) base k = .ok (some longer, k'))

theorem Repeats.consumes (h : Repeats limit k k') : k.Consumes k' := by
  cases h with
  | statement h =>
    exact Consuming.ofMoves .peek (fun _ => .ite consuming_function consuming_statement) h
  | firstParameter h => exact Consuming.name h
  | parameter hmark h =>
    obtain ⟨segment, hpasses⟩ := Moves.name h
    exact (Cursor.Consumes.of_accept hmark).trans_passes hpasses
  | @argument room separator _ hseparator h =>
    have hmoves : Moves separator := by
      rcases hseparator with rfl | rfl
      · exact .pure ()
      · exact .symbol .comma
    exact Consuming.ofMoves hmoves (fun _ => consuming_binary _) h
  | @elseIf room _ _ hmark h =>
    have hmoves := Production.moves_arm (forward limit room).parenthesized
      (Production.moves_block (forward limit room).statements)
    obtain ⟨segment, hpasses⟩ := hmoves h
    exact (Cursor.Consumes.of_accept hmark).trans_passes hpasses
  | operator _ hmark h =>
    obtain ⟨segment, hpasses⟩ := Moves.advance hmark
    exact .of_passes hpasses (consuming_operand _ h)
  | suffix h => exact consumes_of_suffix h

/-! ### Loops are made of rounds -/

/-- A number of completed rounds, one after the other. -/
inductive Rounds (limit : Nat) : (count : Nat) → Cursor → Cursor → Prop
  | none (k : Cursor) : Rounds limit 0 k k
  | next {count : Nat} {k k₁ k' : Cursor} (h : Repeats limit k k₁)
      (more : Rounds limit count k₁ k') : Rounds limit (count + 1) k k'

/-- Some rounds consume at least as many tokens. -/
theorem Rounds.passes {count : Nat} (h : Rounds limit count k k') :
    ∃ segment, k.Passes segment k' ∧ count ≤ segment.length := by
  induction h with
  | none k => exact ⟨[], .refl k, Nat.le_refl 0⟩
  | next h _ ih =>
    obtain ⟨token, front, hfront⟩ := h.consumes
    obtain ⟨segment, hsegment, hle⟩ := ih
    refine ⟨token :: front ++ segment, hfront.trans hsegment, ?_⟩
    simp only [List.length_append, List.length_cons]
    omega

theorem rounds_statements {stmts : List Stmt} (h : statements limit room k = .ok (stmts, k')) :
    Rounds limit stmts.length k k' := by
  cases room with
  | zero => cases h
  | succ room =>
    rw [statements] at h
    generalize maxStatements = left at h
    induction left generalizing k stmts with
    | zero =>
      rw [statementsUpTo, peek_bind] at h
      split at h
      · obtain ⟨rfl, rfl⟩ := Prod.mk.inj (pure_eq_ok.mp h)
        exact .none k
      · obtain ⟨stmt, k₁, -, hfail⟩ := bind_eq_ok.mp h
        cases hfail
    | succ left ih =>
      rw [statementsUpTo, peek_bind] at h
      split at h
      · obtain ⟨rfl, rfl⟩ := Prod.mk.inj (pure_eq_ok.mp h)
        exact .none k
      · obtain ⟨first, k₁, hfirst, h⟩ := bind_eq_ok.mp h
        obtain ⟨others, k₂, hothers, h⟩ := bind_eq_ok.mp h
        obtain ⟨rfl, rfl⟩ := Prod.mk.inj (pure_eq_ok.mp h)
        exact .next (.statement hfirst) (ih hothers)

/-- Rounds behind a mark, each of which is a round of the grammar. -/
theorem rounds_roundsAfter {mark : Kind} (hvaries : mark.varies = false) {item : Parser α}
    (hround : ∀ {k k₁ k' : Cursor} {x : α}, accept mark k = .ok (true, k₁) →
      item k₁ = .ok (x, k') → Repeats limit k k') {left : Nat} {xs : List α}
    (h : roundsAfter mark item left k = .ok (xs, k')) : Rounds limit xs.length k k' := by
  induction left generalizing k xs with
  | zero =>
    obtain ⟨rfl, rfl⟩ := Prod.mk.inj (pure_eq_ok.mp h)
    exact .none k
  | succ left ih =>
    obtain ⟨found, k₁, haccept, hrest⟩ := bind_eq_ok.mp h
    rcases accept_ok hvaries haccept with ⟨rfl, -⟩ | ⟨rfl, -, rfl⟩
    · obtain ⟨first, k₂, hfirst, hrest⟩ := bind_eq_ok.mp hrest
      obtain ⟨others, k₃, hothers, hrest⟩ := bind_eq_ok.mp hrest
      obtain ⟨rfl, rfl⟩ := Prod.mk.inj (pure_eq_ok.mp hrest)
      exact .next (hround haccept hfirst) (ih hothers)
    · obtain ⟨rfl, rfl⟩ := Prod.mk.inj (pure_eq_ok.mp hrest)
      exact .none _

theorem rounds_parameters {params : List String}
    (h : Production.parameters k = .ok (params, k')) : Rounds limit params.length k k' := by
  rw [Production.parameters, peek_bind] at h
  split at h
  · obtain ⟨rfl, rfl⟩ := Prod.mk.inj (pure_eq_ok.mp h)
    exact .none k
  · obtain ⟨first, k₁, hfirst, h⟩ := bind_eq_ok.mp h
    obtain ⟨others, k₂, hothers, h⟩ := bind_eq_ok.mp h
    obtain ⟨rfl, rfl⟩ := Prod.mk.inj (pure_eq_ok.mp h)
    exact .next (.firstParameter hfirst) (rounds_roundsAfter rfl .parameter hothers)

theorem rounds_argumentsUpTo {separator : Parser Unit}
    (hseparator : separator = pure () ∨ separator = symbol .comma) {left : Nat} {args : List Expr}
    (h : argumentsUpTo (binary limit .logicalOr room) left separator k = .ok (args, k')) :
    Rounds limit args.length k k' := by
  induction left generalizing k args separator with
  | zero =>
    rw [argumentsUpTo, peek_bind] at h
    split at h
    · obtain ⟨rfl, rfl⟩ := Prod.mk.inj (pure_eq_ok.mp h)
      exact .none k
    · obtain ⟨_, k₁, -, h⟩ := bind_eq_ok.mp h
      obtain ⟨arg, k₂, -, hfail⟩ := bind_eq_ok.mp h
      cases hfail
  | succ left ih =>
    rw [argumentsUpTo, peek_bind] at h
    split at h
    · obtain ⟨rfl, rfl⟩ := Prod.mk.inj (pure_eq_ok.mp h)
      exact .none k
    · obtain ⟨u, k₁, hmark, h⟩ := bind_eq_ok.mp h
      obtain ⟨first, k₂, hfirst, h⟩ := bind_eq_ok.mp h
      obtain ⟨others, k₃, hothers, h⟩ := bind_eq_ok.mp h
      obtain ⟨rfl, rfl⟩ := Prod.mk.inj (pure_eq_ok.mp h)
      exact .next (.argument hseparator (bind_eq_ok.mpr ⟨u, k₁, hmark, hfirst⟩))
        (ih (.inr rfl) hothers)

theorem exists_rounds_operations {layer : Layer} {start : Nat} {left expr : Expr}
    (h : operations limit layer start room left k = .ok (expr, k')) :
    ∃ count, Rounds limit count k k' := by
  induction room generalizing k left with
  | zero =>
    simp only [operations, peek_bind] at h
    cases hop : layer.operator? k.current.kind with
    | none =>
      rw [hop] at h
      obtain ⟨rfl, rfl⟩ := Prod.mk.inj (pure_eq_ok.mp h)
      exact ⟨0, .none k⟩
    | some op =>
      rw [hop] at h
      cases h
  | succ room ih =>
    simp only [operations, peek_bind] at h
    cases hop : layer.operator? k.current.kind with
    | none =>
      rw [hop] at h
      obtain ⟨rfl, rfl⟩ := Prod.mk.inj (pure_eq_ok.mp h)
      exact ⟨0, .none k⟩
    | some op =>
      rw [hop] at h
      obtain ⟨token, k₁, hmark, h⟩ := bind_eq_ok.mp h
      obtain ⟨right, k₂, hright, h⟩ := bind_eq_ok.mp h
      obtain ⟨count, hrounds⟩ := ih h
      exact ⟨count + 1, .next (.operator hop hmark hright) hrounds⟩

theorem exists_rounds_suffixes {base expr : Expr}
    (h : suffixes limit room base k = .ok (expr, k')) : ∃ count, Rounds limit count k k' := by
  cases room with
  | zero => cases h
  | succ room =>
    rw [suffixes] at h
    generalize maxLinks = left at h
    induction left generalizing k base with
    | zero => cases h
    | succ left ih =>
      obtain ⟨found, k₁, hfound, h⟩ := bind_eq_ok.mp h
      cases found with
      | none =>
        obtain ⟨rfl, rfl⟩ := Prod.mk.inj (pure_eq_ok.mp h)
        obtain ⟨rfl, -⟩ := Production.suffix_ok ((sound limit room).binary .logicalOr)
          (sound limit room).index hfound
        exact ⟨0, .none _⟩
      | some longer =>
        obtain ⟨count, hrounds⟩ := ih h
        exact ⟨count + 1, .next (.suffix hfound) hrounds⟩

/-- The loops, from where they begin to where they end. -/
inductive Loops (limit : Nat) (k k' : Cursor) : Prop
  | statements {room : Nat} {stmts : List Stmt} (h : statements limit room k = .ok (stmts, k'))
  | parameters {params : List String} (h : Production.parameters k = .ok (params, k'))
  | arguments {room : Nat} {args : List Expr}
      (h : argumentsUpTo (binary limit .logicalOr room) maxLinks (pure ()) k = .ok (args, k'))
  | elseIfs {room : Nat} {arms : List (Expr × Block)} (h : eachAfter (.keyword .kwElseif)
      (Production.arm (parenthesized limit room) (Production.block (statements limit room))) k =
        .ok (arms, k'))
  | operators {layer : Layer} {start room : Nat} {left expr : Expr}
      (h : operations limit layer start room left k = .ok (expr, k'))
  | suffixes {room : Nat} {base expr : Expr} (h : suffixes limit room base k = .ok (expr, k'))

/-- **A loop is made of rounds**, and they are no more than the tokens that it consumes. -/
theorem Loops.rounds (h : Loops limit k k') : ∃ count segment, Rounds limit count k k' ∧
    k.Passes segment k' ∧ count ≤ segment.length := by
  have hrounds : ∃ count, Rounds limit count k k' := by
    cases h with
    | statements h => exact ⟨_, rounds_statements h⟩
    | parameters h => exact ⟨_, rounds_parameters h⟩
    | arguments h => exact ⟨_, rounds_argumentsUpTo (.inl rfl) h⟩
    | elseIfs h => exact ⟨_, rounds_roundsAfter rfl .elseIf h⟩
    | operators h => exact exists_rounds_operations h
    | suffixes h => exact exists_rounds_suffixes h
  obtain ⟨count, hcount⟩ := hrounds
  obtain ⟨segment, hpasses, hle⟩ := hcount.passes
  exact ⟨count, segment, hcount, hpasses, hle⟩

end Grammar

/-! ### The number of calls -/

/-- Whether a script that was given the first `count` answers of its lexer calls it again. -/
def CallsAgain (maxDepth : Nat) (text : String) (count : Nat) : Prop :=
  AsksBeyond (Grammar.script maxDepth text.utf8ByteSize)
    (Cursor.start ((Lexer.ofText text).answers count))

/-- A script that asks for more was not settled before: the answer could be one fault or
another. -/
theorem Grammar.not_settles_of_asks {limit length : Nat} {front rest : List Pull}
    (h : AsksBeyond (script limit length) (Cursor.start (front ++ rest))) :
    ¬Settles limit length front := by
  intro hsettles
  have houtcome : ∀ fault : Fault LexicalCause,
      (script limit length (Cursor.start front)).map (·.1) = .error (fault.map .lexical) := by
    intro fault
    rw [← hsettles (rest ++ [.error fault]), ← List.append_assoc]
    exact congrArg (Except.map Prod.fst) (h fault [])
  have hsame := (houtcome ⟨.unterminatedString, ⟨0, 0⟩⟩).symm.trans
    (houtcome ⟨.unterminatedString, ⟨0, 1⟩⟩)
  exact absurd (congrArg (·.span.stop) (Except.error.inj hsame)) (by decide)

namespace CallsAgain

variable {maxDepth count : Nat} {text : String}

theorem zero (maxDepth : Nat) (text : String) : CallsAgain maxDepth text 0 := fun _ _ => rfl

/-- A script makes its calls one after the other. -/
theorem of_le {fewer : Nat} (h : CallsAgain maxDepth text count) (hle : fewer ≤ count) :
    CallsAgain maxDepth text fewer := by
  obtain ⟨more, rfl⟩ := Nat.exists_eq_add_of_le hle
  rw [CallsAgain, Lexer.answers_add] at h
  rcases Grammar.asks_or_settles maxDepth text.utf8ByteSize
    ((Lexer.ofText text).answers fewer) with ⟨hasks, -⟩ | hsettles
  · exact hasks
  · exact absurd hsettles (Grammar.not_settles_of_asks h)

/-- No call is made behind an end mark or a fault. -/
theorem not_isLast (h : CallsAgain maxDepth text count) {pull : Pull}
    (hmem : pull ∈ (Lexer.ofText text).answers count) : ¬Lexer.IsLast pull := by
  rcases Grammar.asks_or_settles maxDepth text.utf8ByteSize
    ((Lexer.ofText text).answers count) with ⟨-, hopen⟩ | hsettles
  · exact hopen pull hmem
  · rw [CallsAgain, ← List.append_nil ((Lexer.ofText text).answers count)] at h
    exact absurd hsettles (Grammar.not_settles_of_asks h)

/-- A script that makes no more calls comes to its outcome, however many answers there are. -/
theorem parse_eq (h : ¬CallsAgain maxDepth text count) :
    (Grammar.script maxDepth text.utf8ByteSize
      (Cursor.start ((Lexer.ofText text).answers count))).map (·.1) =
        Program.parse maxDepth text := by
  rcases Grammar.asks_or_settles maxDepth text.utf8ByteSize
    ((Lexer.ofText text).answers count) with ⟨hasks, -⟩ | hsettles
  · exact absurd hasks h
  · -- Both have the answers to all of their calls in common.
    obtain ⟨tokens, mark, last, hends, hpulls⟩ := (Lexer.ofText text).exists_ends
    have hcalls := (Lexer.ofText text).answers_add count (tokens.length + 1)
    rw [Nat.add_comm, Lexer.answers_add, hends.answers, ← hpulls] at hcalls
    rw [← hsettles, ← hcalls, Grammar.script_append]
    rfl

end CallsAgain

/-- **A script calls the lexer once for each token, and stops.**  There is a number of calls that
it makes, neither more nor fewer: as long as there are fewer answers it asks for another, and from
then on its outcome does not change.  The tokens of the text up to its first end mark or fault are
at least as many, since no production asks for a token where it has an end mark before it.  Every
statement, expression, list and index that is read consumes a token, and so does every round of a
loop, so that a loop has no more rounds than it consumes tokens. -/
theorem parse_calls (maxDepth : Nat) (text : String) :
    (∃ made, 0 < made ∧ (∀ count, CallsAgain maxDepth text count ↔ count < made) ∧
      (∃ tokens mark last,
        (Lexer.ofText text).calls (tokens.length + 1) = (tokens ++ [mark], last) ∧
        (∀ token ∈ tokens, token.kind ≠ .endOfInput ∧ token.kind ≠ .invalid) ∧
        (mark.kind = .endOfInput ∨ mark.kind = .invalid) ∧ made ≤ tokens.length + 1) ∧
      ∀ count, made ≤ count → (Grammar.script maxDepth text.utf8ByteSize
        (Cursor.start ((Lexer.ofText text).answers count))).map (·.1) =
          Program.parse maxDepth text) ∧
    (∀ room, Grammar.AllSparing maxDepth room) ∧
    ∀ k k', (Grammar.Completes maxDepth k k' → k.Consumes k') ∧
      (Grammar.Repeats maxDepth k k' → k.Consumes k') ∧
      (Grammar.Loops maxDepth k k' → ∃ count segment, Grammar.Rounds maxDepth count k k' ∧
        k.Passes segment k' ∧ count ≤ segment.length) := by
  classical
  refine ⟨?_, Grammar.allSparing maxDepth, fun k k' =>
    ⟨Grammar.Completes.consumes, Grammar.Repeats.consumes, Grammar.Loops.rounds⟩⟩
  obtain ⟨tokens, mark, last, hends, -⟩ := (Lexer.ofText text).exists_ends
  have hstops : ¬CallsAgain maxDepth text (tokens.length + 1) := by
    intro h
    exact h.not_isLast (by simp [hends.answers]) hends.isLast
  -- The calls that are made are those before the first one that is not.
  have hsome : ∃ count, ¬CallsAgain maxDepth text count := ⟨_, hstops⟩
  have hmade : ∀ count, CallsAgain maxDepth text count ↔ count < Nat.find hsome := by
    intro count
    constructor
    · intro h
      by_contra hle
      exact Nat.find_spec hsome (h.of_le (Nat.le_of_not_lt hle))
    · intro hlt
      exact not_not.mp (Nat.find_min hsome hlt)
  refine ⟨Nat.find hsome, (hmade 0).mp (.zero maxDepth text), hmade, ?_, fun count hcount => ?_⟩
  · exact ⟨tokens, mark, last, hends.calls, hends.kinds, hends.kind, Nat.find_min' hsome hstops⟩
  · refine CallsAgain.parse_eq fun h => ?_
    exact absurd ((hmade count).mp h) (Nat.not_lt.mpr hcount)

/-! ### Lexical faults -/

theorem GrammarCause.isOwn_expectedExpression {kind : Kind} (h : kind ≠ .invalid) :
    (expectedExpression kind).isOwn = true := by
  cases kind with
  | invalid => exact absurd rfl h
  | _ => rfl

/-- A script fails with the fault that its lexer comes to, or on its own account. -/
theorem lexical_or_isOwn_of_parse {maxDepth : Nat} {text : String} {tokens : List Token}
    {mark : Token} {last : Lexer} (hends : (Lexer.ofText text).Ends tokens mark last)
    (hpulls : (Lexer.ofText text).pulls = tokens.map .ok ++ [last.seen mark])
    {fault : Fault GrammarCause} (h : Program.parse maxDepth text = .error fault) :
    (∃ lexical, last.fault = some lexical ∧ mark = Lexer.failed lexical ∧
      fault = lexical.map .lexical) ∨ fault.cause.isOwn = true := by
  have hlast : last.seen mark ∈ (Lexer.ofText text).pulls := by simp [hpulls]
  cases Grammar.explains_of_script hlast hends.isLast (Program.script_of_parse h) with
  | @lexical lexical hmem =>
    rcases List.mem_cons.mp hmem with heq | hmem
    · cases heq
    · obtain ⟨hfault, hmark⟩ := hends.eq_fault (hpulls ▸ hmem)
      exact .inl ⟨lexical, hfault, hmark, rfl⟩
  | own hown => exact .inr hown
  | noExpression hmem =>
    refine .inr (GrammarCause.isOwn_expectedExpression ?_)
    rcases List.mem_cons.mp hmem with heq | hmem
    · obtain rfl := Except.ok.inj heq
      nofun
    · exact hends.kind_ne_invalid (hpulls ▸ hmem)

/-- **The first lexical fault is final, and it is the one that is told.**  However often a lexer is
called, a call gives the mark of a failed scan exactly if there is a fault behind it, and from then
on every call gives this mark and the lexer does not change.  So a parser is never given such a mark
without its fault, and where it fails with a lexical fault, the calls come to this fault past tokens
that are neither end marks nor faults. -/
theorem first_fault_final (text : String) :
    (∀ count tokens token last,
      (Lexer.ofText text).calls (count + 1) = (tokens ++ [token], last) →
        (token.kind = .invalid ↔ last.fault ≠ none) ∧
        ∀ fault, last.fault = some fault → token = ⟨.invalid, "", fault.span⟩ ∧
          ∀ more, last.calls more = (List.replicate more token, last)) ∧
    ∀ maxDepth fault, Program.parse maxDepth text = .error fault →
      fault.cause ≠ .expectedExpression .invalid ∧
      ∀ cause, fault.cause = .lexical cause → ∃ tokens last,
        (Lexer.ofText text).calls (tokens.length + 1) =
          (tokens ++ [⟨.invalid, "", fault.span⟩], last) ∧
        (∀ token ∈ tokens, token.kind ≠ .endOfInput ∧ token.kind ≠ .invalid) ∧
        last.fault = some ⟨cause, fault.span⟩ := by
  refine ⟨fun count tokens token last hcalls => ?_, fun maxDepth fault hparse => ?_⟩
  · rw [Lexer.calls_last] at hcalls
    obtain ⟨htokens, rfl⟩ := Prod.mk.inj hcalls
    obtain ⟨-, htoken⟩ := List.append_inj' htokens rfl
    obtain rfl := List.singleton_inj.mp htoken
    have hstep := ((Lexer.ofText text).calls count).2.step_next
    refine ⟨hstep.kind_eq_invalid_iff, fun fault hfault => ?_⟩
    rw [hstep.eq_failed hfault]
    exact ⟨rfl, Lexer.calls_of_fault hfault⟩
  · obtain ⟨tokens, mark, last, hends, hpulls⟩ := (Lexer.ofText text).exists_ends
    rcases lexical_or_isOwn_of_parse hends hpulls hparse with
      ⟨lexical, hfault, rfl, rfl⟩ | hown
    · refine ⟨nofun, fun cause hcause => ⟨tokens, last, hends.calls, hends.kinds, ?_⟩⟩
      obtain rfl := GrammarCause.lexical.inj hcause
      exact hfault
    · refine ⟨fun hcause => ?_, fun cause hcause => ?_⟩
      · rw [hcause] at hown
        cases hown
      · rw [hcause] at hown
        cases hown

/-- A number that a letter runs into, and an open string behind it that is never read. -/
theorem first_fault_final_malformed :
    Program.parse defaultParseDepth "a = 1x \"b" = .error ⟨.lexical .malformedNumber, ⟨4, 6⟩⟩ ∧
    ∃ tokens last, (Lexer.ofText "a = 1x \"b").calls (tokens.length + 1) =
        (tokens ++ [⟨.invalid, "", ⟨4, 6⟩⟩], last) ∧
      last.fault = some ⟨.malformedNumber, ⟨4, 6⟩⟩ ∧
      ∀ more, last.calls more = (List.replicate more ⟨.invalid, "", ⟨4, 6⟩⟩, last) := by
  have hparse : Program.parse defaultParseDepth "a = 1x \"b" =
      .error ⟨.lexical .malformedNumber, ⟨4, 6⟩⟩ := by
    -- Trees have no decidable equality, so the fault is caught and compared.
    have heval : (((Program.parse defaultParseDepth "a = 1x \"b").map
        fun _ => none).tryCatch fun fault => .ok (some fault)).toOption =
          some (some ⟨.lexical .malformedNumber, ⟨4, 6⟩⟩) := by
      decide +kernel
    cases hparse : Program.parse defaultParseDepth "a = 1x \"b" with
    | ok program =>
      rw [hparse] at heval
      cases heval
    | error fault =>
      rw [hparse] at heval
      exact congrArg Except.error (Option.some.inj (Option.some.inj heval))
  obtain ⟨hcalls, hfaults⟩ := first_fault_final "a = 1x \"b"
  obtain ⟨-, hlexical⟩ := hfaults defaultParseDepth _ hparse
  obtain ⟨tokens, last, hlast, -, hfault⟩ := hlexical .malformedNumber rfl
  obtain ⟨-, hstays⟩ := hcalls tokens.length tokens _ last hlast
  exact ⟨hparse, tokens, last, hlast, hfault, (hstays _ hfault).2⟩

end FormCalc
