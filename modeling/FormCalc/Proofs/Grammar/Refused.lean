import FormCalc.Proofs.Grammar.Contexts
import FormCalc.Proofs.Grammar.Correctness

/-!
# Refusals for length

Three faults are about the number of parts: of a list of statements, of a list of arguments and
of a chain of accessors and calls.  Such a fault should be true of the text: there should be a
list or chain in it, where the grammar has one, that is longer than the fault allows.

* `Overflows`: what the tokens hold where a fault of this kind is true.
* `Uncounted`: parsers that give no such fault.
* `Tells`: outcomes that are no such fault, or one that is true.  `Tells.part`, `Tells.word` and
  the others follow a production step by step and keep what it has read so far, so that what is
  too long in a part is found in the whole.
* `Grammar.telling`: all productions, by induction on the room for nesting.
* `parse_length_faults`: whole scripts.

Lists are counted when an element has been read, chains before another link is looked for.  That
is why a chain is refused one link early.
-/

namespace FormCalc

open Terminal FormCalc.Parser

/-- Whether a cause is the length of a list or chain. -/
def GrammarCause.isLength : GrammarCause → Bool
  | .tooManyArguments _ | .chainTooLong _ | .tooManyExpressions _ => true
  | _ => false

/-! ### Past some terminals -/

/-- Whether a cursor goes on to another past these terminals. -/
def Cursor.Over (k : Cursor) (ts : List Terminal) (k' : Cursor) : Prop :=
  ∃ segment, k.tokens = segment ++ k'.tokens ∧ segment.map Token.terminal = ts

namespace Cursor.Over

variable {α : Type} {k k₁ k' : Cursor} {ts us : List Terminal}

theorem refl (k : Cursor) : k.Over [] k := ⟨[], rfl, rfl⟩

theorem trans (h : k.Over ts k₁) (h' : k₁.Over us k') : k.Over (ts ++ us) k' := by
  obtain ⟨segment, hk, rfl⟩ := h
  obtain ⟨more, hk₁, rfl⟩ := h'
  exact ⟨segment ++ more, by rw [hk, hk₁, List.append_assoc], List.map_append⟩

theorem terminals (h : k.Over ts k') : k.terminals = ts ++ k'.terminals := by
  obtain ⟨segment, htokens, rfl⟩ := h
  rw [Cursor.terminals, Cursor.terminals, htokens, List.map_append]

/-- What has been read stands where it was read. -/
theorem stands {r : Rule} {d : Derivation r} (h : k.Over d.yield k') :
    d.StandsIn r k.tokens k'.tokens := by
  obtain ⟨segment, htokens, hmap⟩ := h
  rw [htokens]
  exact .self hmap

/-- A parser that only goes forward passes the tokens of the terminals that it reads. -/
theorem of_moves {p : Parser α} (hp : Moves p) {x : α} (h : p k = .ok (x, k'))
    (hterminals : k.terminals = ts ++ k'.terminals) : k.Over ts k' := by
  obtain ⟨segment, hpasses⟩ := hp h
  refine ⟨segment, hpasses.tokens, ?_⟩
  rw [Cursor.terminals, Cursor.terminals, hpasses.tokens, List.map_append] at hterminals
  exact List.append_cancel_right hterminals

theorem of_advance {token : Token} (h : advance k = .ok (token, k')) :
    k.Over [k.current.terminal] k' := by
  obtain ⟨-, hpasses⟩ := Cursor.Passes.of_advance h
  exact ⟨[k.current], hpasses.tokens, rfl⟩

theorem of_symbol {s : Symbol} {u : Unit} (h : symbol s k = .ok (u, k')) :
    k.Over [.symbol s] k' := .of_moves (.symbol s) h (symbol_ok h).2

end Cursor.Over

/-! ### Lists that are too long -/

/-- Whether tokens, read from a rule on, hold what a fault says is too long.  Of a list one
element more than allowed has been read.  A chain is only known to reach the limit: whether it
goes on is up to the token that is blamed. -/
inductive Overflows (start : Rule) (tokens : List Token) : Fault GrammarCause → Prop
  | statements {list : Derivation .statements} {behind : List Token} {span : Span}
      (hstands : list.StandsIn start tokens behind) (hlength : list.length = maxStatements + 1) :
      Overflows start tokens ⟨.tooManyExpressions maxStatements, span⟩
  | arguments {first : Derivation .simple} {more : Derivation .moreArguments}
      {behind : List Token} {span : Span}
      (hstands : (Derivation.someArguments first more).StandsIn start tokens behind)
      (hlength : more.length = maxLinks) :
      Overflows start tokens ⟨.tooManyArguments maxLinks, span⟩
  | chain {links : Derivation .suffixes} {next : Token} {behind : List Token}
      (hstands : links.StandsIn start tokens (next :: behind)) (hlength : links.length = maxLinks)
      (hgreedy : next.kind.startsSuffix = false → links.Greedy next.kind) :
      Overflows start tokens ⟨.chainTooLong maxLinks, next.span⟩

/-- What is too long in a part is too long in the whole. -/
theorem Overflows.into {r part : Rule} {k k' : Cursor} {ts : List Terminal}
    {fault : Fault GrammarCause} (hk : k.Over ts k') (hopens : r.Opens ts part)
    (h : Overflows part k'.tokens fault) : Overflows r k.tokens fault := by
  obtain ⟨segment, htokens, rfl⟩ := hk
  rw [htokens]
  cases h with
  | statements hstands hlength => exact .statements (.into hopens hstands) hlength
  | arguments hstands hlength => exact .arguments (.into hopens hstands) hlength
  | chain hstands hlength hgreedy => exact .chain (.into hopens hstands) hlength hgreedy

/-! ### Parsers that never count -/

section Parsers

variable {α β : Type} {p q : Parser α} {f : α → Parser β} {k : Cursor} {fault : Fault GrammarCause}

/-- A sequence fails because one of its parts does. -/
theorem Parser.error_of_sequence (h : (p >>= f) k = .error fault) :
    p k = .error fault ∨ ∃ x k₁, p k = .ok (x, k₁) ∧ f x k₁ = .error fault := by
  cases hp : p k with
  | error fault' =>
    rw [bind_of_error hp] at h
    obtain rfl := Except.error.inj h
    exact .inl rfl
  | ok result =>
    obtain ⟨x, k₁⟩ := result
    rw [bind_of_ok hp] at h
    exact .inr ⟨x, k₁, rfl, h⟩

/-- Whether a parser never refuses anything for its length. -/
def Uncounted (p : Parser α) : Prop :=
  ∀ ⦃k : Cursor⦄ ⦃fault : Fault GrammarCause⦄, p k = .error fault → ¬fault.cause.isLength = true

namespace Uncounted

theorem pure (x : α) : Uncounted (Pure.pure x) := fun _ _ h => nomatch h

theorem bind (hp : Uncounted p) (hf : ∀ x, Uncounted (f x)) : Uncounted (p >>= f) := by
  intro k fault h
  rcases error_of_sequence h with h | ⟨x, k₁, -, h⟩
  · exact hp h
  · exact hf x h

theorem ite {c : Prop} [Decidable c] (hp : Uncounted p) (hq : Uncounted q) :
    Uncounted (if c then p else q) := by
  split
  · exact hp
  · exact hq

theorem fail {cause : GrammarCause} {span : Span} (h : cause.isLength = false) :
    Uncounted (Parser.fail cause span : Parser α) := by
  intro k fault hfault
  obtain rfl := Except.error.inj hfault
  exact Bool.eq_false_iff.mp h

theorem get : Uncounted (get : Parser Cursor) := fun _ _ h => nomatch h

theorem current : Uncounted current := get.bind fun _ => .pure _

theorem peek : Uncounted peek := get.bind fun _ => .pure _

theorem advance : Uncounted advance := by
  intro k fault h
  unfold Parser.advance at h
  split at h
  · obtain rfl := Except.error.inj h
    exact nofun
  · cases h
  · obtain rfl := Except.error.inj h
    exact nofun

theorem expect (kind : Kind) : Uncounted (expect kind) :=
  current.bind fun _ => .ite advance (.fail rfl)

theorem accept (kind : Kind) : Uncounted (accept kind) :=
  peek.bind fun _ => .ite (advance.bind fun _ => .pure _) (.pure _)

theorem symbol (s : Symbol) : Uncounted (symbol s) := (expect _).bind fun _ => .pure _

theorem word (w : Keyword) : Uncounted (word w) := (expect _).bind fun _ => .pure _

theorem name : Uncounted name := (expect _).bind fun _ => .pure _

theorem roundsAfter {mark : Kind} (hp : Uncounted p) (left : Nat) :
    Uncounted (roundsAfter mark p left) := by
  induction left with
  | zero => exact .pure _
  | succ left ih =>
    exact (accept _).bind fun _ => .ite (hp.bind fun _ => ih.bind fun _ => .pure _) (.pure _)

theorem parameters : Uncounted Production.parameters :=
  peek.bind fun _ => .ite (.pure _)
    (name.bind fun _ => (get.bind fun _ => roundsAfter name _).bind fun _ => .pure _)

theorem direction : Uncounted Production.direction := by
  refine current.bind fun token => ?_
  split
  · exact advance.bind fun _ => .pure _
  · exact advance.bind fun _ => .pure _
  · exact .fail rfl

end Uncounted

/-! ### Parsers that tell the truth -/

/-- Whether an outcome, if it is a refusal for length, is so because of what the tokens hold,
read from a rule on. -/
def Tells (r : Rule) (tokens : List Token)
    (outcome : Except (Fault GrammarCause) (α × Cursor)) : Prop :=
  ∀ ⦃fault⦄, outcome = .error fault → fault.cause.isLength = true → Overflows r tokens fault

/-- Whether a parser reads derivations from a rule, goes forward over what it reads, and tells
the truth about what it refuses. -/
structure Part (r : Rule) (R : α → r.Value → Prop) (p : Parser α) : Prop where
  reads : Reads r R p
  moves : Moves p
  tells : ∀ k : Cursor, Tells r k.tokens (p k)

/-- Parts in the place of a simple expression. -/
abbrev PartSimple (p : Parser Expr) : Prop := Part .simple (fun e v => e.bare = v) p

/-- Parts in the place of an expression in parentheses. -/
abbrev PartGroup (p : Parser Expr) : Prop := Part .group (fun e v => e.bare = v) p

/-- Parts in the place of an index. -/
abbrev PartIndex (p : Parser Index) : Prop := Part .index (fun i v => i.bare = v) p

/-- Parts in the place of a statement. -/
abbrev PartStatement (p : Parser Stmt) : Prop := Part .statement (fun s v => s.bare = v) p

/-- Parts in the place of a list of statements. -/
abbrev PartStatements (p : Parser (List Stmt)) : Prop :=
  Part .statements (fun stmts v => bareStmts stmts = v) p

/-- Parts in the place of a block. -/
abbrev PartBlock (p : Parser Block) : Prop := Part .statements (fun b v => b.bare = .mk v .origin) p

theorem Part.over {r : Rule} {R : α → r.Value → Prop} (hp : Part r R p) {x : α} {k' : Cursor}
    (h : p k = .ok (x, k')) : ∃ d : Derivation r, k.Over d.yield k' := by
  obtain ⟨d, hterminals, -, -⟩ := hp.reads h
  exact ⟨d, .of_moves hp.moves h hterminals⟩

end Parsers

namespace Tells

variable {α β : Type} {p q : Parser α} {f : α → Parser β} {k₀ k : Cursor} {r inner : Rule}
  {ts : List Terminal}

/-! ### Sequences -/

theorem of_uncounted {tokens : List Token} (hp : Uncounted p) : Tells r tokens (p k) :=
  fun _ h hlength => absurd hlength (hp h)

theorem bind {tokens : List Token} (hp : Tells r tokens (p k))
    (hf : ∀ x k', p k = .ok (x, k') → Tells r tokens (f x k')) :
    Tells r tokens ((p >>= f) k) := by
  intro fault h hlength
  rcases error_of_sequence h with h | ⟨x, k₁, hx, h⟩
  · exact hp h hlength
  · exact hf x k₁ hx h hlength

/-- A step that cannot fail. -/
theorem finish {tokens : List Token} {x : α × Cursor} :
    Tells r tokens (.ok x : Except (Fault GrammarCause) (α × Cursor)) :=
  fun _ h => nomatch h

theorem fail {tokens : List Token} {cause : GrammarCause} {span : Span}
    (h : cause.isLength = false) :
    Tells r tokens (.error ⟨cause, span⟩ : Except (Fault GrammarCause) (α × Cursor)) := by
  intro fault hfault hlength
  obtain rfl := Except.error.inj hfault
  exact absurd hlength (Bool.eq_false_iff.mp h)

/-- A part that opens where the cursor stands. -/
theorem into (hk : k₀.Over ts k) (hopens : r.Opens ts inner) (hp : Tells inner k.tokens (p k)) :
    Tells r k₀.tokens (p k) :=
  fun _ h hlength => (hp h hlength).into hk hopens

/-- A part that opens where the cursor stands, and what comes behind it. -/
theorem part {R : α → inner.Value → Prop} (hk : k₀.Over ts k) (hopens : r.Opens ts inner)
    (hp : Part inner R p) (hf : ∀ x (d : Derivation inner) k',
      k₀.Over (ts ++ d.yield) k' → Tells r k₀.tokens (f x k')) :
    Tells r k₀.tokens ((p >>= f) k) := by
  refine .bind (.into hk hopens (hp.tells k)) fun x k' h => ?_
  obtain ⟨d, hd⟩ := hp.over h
  exact hf x d k' (hk.trans hd)

/-! ### Steps that consume a token -/

theorem advance {g : Token → Parser β} (hk : k₀.Over ts k)
    (hg : ∀ k', k₀.Over (ts ++ [k.current.terminal]) k' → Tells r k₀.tokens (g k.current k')) :
    Tells r k₀.tokens ((Parser.advance >>= g) k) := by
  refine .bind (.of_uncounted .advance) fun token k' h => ?_
  obtain ⟨rfl, -⟩ := advance_ok h
  exact hg k' (hk.trans (.of_advance h))

theorem symbol {s : Symbol} {g : Unit → Parser β} (hk : k₀.Over ts k)
    (hg : ∀ k', k₀.Over (ts ++ [.symbol s]) k' → Tells r k₀.tokens (g () k')) :
    Tells r k₀.tokens ((Parser.symbol s >>= g) k) :=
  .bind (.of_uncounted (.symbol s)) fun _ k' h =>
    hg k' (hk.trans (.of_symbol h))

theorem word {w : Keyword} {g : Unit → Parser β} (hk : k₀.Over ts k)
    (hg : ∀ k', k₀.Over (ts ++ [.word w]) k' → Tells r k₀.tokens (g () k')) :
    Tells r k₀.tokens ((Parser.word w >>= g) k) :=
  .bind (.of_uncounted (.word w)) fun _ k' h =>
    hg k' (hk.trans (.of_moves (.word w) h (word_ok h).2))

theorem name {g : String → Parser β} (hk : k₀.Over ts k)
    (hg : ∀ name k', k₀.Over (ts ++ [.identifier name]) k' → Tells r k₀.tokens (g name k')) :
    Tells r k₀.tokens ((Parser.name >>= g) k) :=
  .bind (.of_uncounted .name) fun name k' h =>
    hg name k' (hk.trans (.of_moves .name h (name_ok h)))

theorem identifier {g : Token → Parser β} (hk : k₀.Over ts k)
    (hg : ∀ token k', k₀.Over (ts ++ [.identifier token.text]) k' →
      Tells r k₀.tokens (g token k')) :
    Tells r k₀.tokens ((Parser.expect .identifier >>= g) k) :=
  .bind (.of_uncounted (.expect _)) fun token k' h =>
    hg token k' (hk.trans (.of_moves (.expect _) h (identifier_ok h)))

theorem accept {kind : Kind} (hvaries : kind.varies = false) {g : Bool → Parser β}
    (hk : k₀.Over ts k)
    (htrue : ∀ k', k₀.Over (ts ++ [⟨kind, ""⟩]) k' → Tells r k₀.tokens (g true k'))
    (hfalse : Tells r k₀.tokens (g false k)) :
    Tells r k₀.tokens ((Parser.accept kind >>= g) k) := by
  refine .bind (.of_uncounted (.accept kind)) fun b k' h => ?_
  rcases accept_ok hvaries h with ⟨rfl, -, hterminals⟩ | ⟨rfl, -, rfl⟩
  · exact htrue k' (hk.trans (.of_moves (.accept kind) h hterminals))
  · exact hfalse

end Tells

/-! ### Loops -/

section Loops

variable {k : Cursor} {fault : Fault GrammarCause}

/-- A list of statements fails behind some of them: one of them fails, or it is one too many. -/
theorem error_statementsUpTo {item : Parser Stmt} (hitem : PartStatement item) (left : Nat)
    (h : statementsUpTo item left k = .error fault) (hlength : fault.cause.isLength = true) :
    ∃ (list : Derivation .statements) (k' : Cursor), k.Over list.yield k' ∧
      (list.length = left + 1 ∧ fault.cause = .tooManyExpressions maxStatements ∨
        Overflows .statement k'.tokens fault) := by
  induction left generalizing k with
  | zero =>
    rw [statementsUpTo, peek_bind] at h
    split at h
    · cases h
    rcases error_of_sequence h with h | ⟨stmt, k₁, hstmt, h⟩
    · exact ⟨.done, k, .refl k, .inr (hitem.tells k h hlength)⟩
    · obtain ⟨d, hd⟩ := hitem.over hstmt
      obtain rfl := Except.error.inj h
      exact ⟨.item d .done, k₁, hd.trans (.refl k₁), .inl ⟨rfl, rfl⟩⟩
  | succ left ih =>
    rw [statementsUpTo, peek_bind] at h
    split at h
    · cases h
    rcases error_of_sequence h with h | ⟨stmt, k₁, hstmt, h⟩
    · exact ⟨.done, k, .refl k, .inr (hitem.tells k h hlength)⟩
    obtain ⟨d, hd⟩ := hitem.over hstmt
    rcases error_of_sequence h with h | ⟨rest, k₂, -, h⟩
    · obtain ⟨list, k', hlist, hwhy⟩ := ih h
      refine ⟨.item d list, k', hd.trans hlist, hwhy.imp_left ?_⟩
      rintro ⟨hcount, hcause⟩
      exact ⟨congrArg (· + 1) hcount, hcause⟩
    · cases h

theorem tells_statementsUpTo {item : Parser Stmt} (hitem : PartStatement item) (k : Cursor) :
    Tells .statements k.tokens (statementsUpTo item maxStatements k) := by
  rintro ⟨cause, span⟩ h hlength
  obtain ⟨list, k', hlist, ⟨hcount, rfl⟩ | hinner⟩ :=
    error_statementsUpTo hitem maxStatements h hlength
  · exact .statements hlist.stands hcount
  · exact hinner.into hlist (.item list)

/-- An argument behind a comma fails, or what comes behind it does. -/
theorem error_argument {β : Type} {item : Parser Expr} {f : Expr → Parser β}
    (hitem : PartSimple item) (h : (do symbol .comma; let e ← item; f e) k = .error fault)
    (hlength : fault.cause.isLength = true) :
    (∃ k₁, k.Over [.symbol .comma] k₁ ∧ Overflows .simple k₁.tokens fault) ∨
      ∃ (e : Expr) (d : Derivation .simple) (k₁ : Cursor),
        k.Over ([.symbol .comma] ++ d.yield) k₁ ∧ f e k₁ = .error fault := by
  rcases error_of_sequence h with h | ⟨_, k₁, hcomma, h⟩
  · exact absurd hlength (Uncounted.symbol .comma h)
  have hover := Cursor.Over.of_symbol hcomma
  rcases error_of_sequence h with h | ⟨e, k₂, he, h⟩
  · exact .inl ⟨k₁, hover, hitem.tells k₁ h hlength⟩
  · obtain ⟨d, hd⟩ := hitem.over he
    exact .inr ⟨e, d, k₂, hover.trans hd, h⟩

/-- Further arguments fail behind some of them: one of them fails, or it is one too many. -/
theorem error_moreArguments {item : Parser Expr} (hitem : PartSimple item) (left : Nat)
    (h : argumentsUpTo item left (symbol .comma) k = .error fault)
    (hlength : fault.cause.isLength = true) :
    ∃ (more : Derivation .moreArguments) (k' : Cursor), k.Over more.yield k' ∧
      (more.length = left + 1 ∧ fault.cause = .tooManyArguments maxLinks ∨
        ∃ k₁, k'.Over [.symbol .comma] k₁ ∧ Overflows .simple k₁.tokens fault) := by
  induction left generalizing k with
  | zero =>
    rw [argumentsUpTo, peek_bind] at h
    split at h
    · cases h
    rcases error_argument hitem h hlength with hinner | ⟨e, d, k₁, hd, h⟩
    · exact ⟨.noMore, k, .refl k, .inr hinner⟩
    · obtain rfl := Except.error.inj h
      exact ⟨.oneMore d .noMore, k₁, hd.trans (.refl k₁), .inl ⟨rfl, rfl⟩⟩
  | succ left ih =>
    rw [argumentsUpTo, peek_bind] at h
    split at h
    · cases h
    rcases error_argument hitem h hlength with hinner | ⟨e, d, k₁, hd, h⟩
    · exact ⟨.noMore, k, .refl k, .inr hinner⟩
    rcases error_of_sequence h with h | ⟨rest, k₂, -, h⟩
    · obtain ⟨more, k', hmore, hwhy⟩ := ih h
      refine ⟨.oneMore d more, k', hd.trans hmore, hwhy.imp_left ?_⟩
      rintro ⟨hcount, hcause⟩
      exact ⟨congrArg (· + 1) hcount, hcause⟩
    · cases h

theorem tells_argumentsUpTo {item : Parser Expr} (hitem : PartSimple item) {left : Nat}
    (hleft : left + 1 = maxLinks) (k : Cursor) :
    Tells .arguments k.tokens (argumentsUpTo item (left + 1) (pure ()) k) := by
  intro fault h hlength
  rw [argumentsUpTo, peek_bind] at h
  split at h
  · cases h
  rw [pure_bind_apply] at h
  rcases error_of_sequence h with h | ⟨e, k₁, he, h⟩
  · exact (hitem.tells k h hlength).into (.refl k) .argument
  obtain ⟨first, hfirst⟩ := hitem.over he
  rcases error_of_sequence h with h | ⟨rest, k₂, -, h⟩
  · obtain ⟨cause, span⟩ := fault
    obtain ⟨more, k', hmore, ⟨hcount, rfl⟩ | ⟨k₂, hcomma, hinner⟩⟩ :=
      error_moreArguments hitem left h hlength
    · have hover : k.Over (Derivation.someArguments first more).yield k' := hfirst.trans hmore
      exact .arguments hover.stands (hcount.trans hleft)
    · exact hinner.into ((hfirst.trans hmore).trans hcomma) (.nextArgument first more)
  · cases h

/-- Arguments in parentheses, and what comes behind them. -/
theorem Tells.arguments {β : Type} {value : Parser Expr} {f : List Expr → Parser β} {r : Rule}
    {k₀ : Cursor} {ts : List Terminal} (hk : k₀.Over ts k)
    (hopens : r.Opens (ts ++ [.symbol .leftParen]) .arguments) (hvalue : PartSimple value)
    (hf : ∀ args (d : Derivation .arguments) k',
      k₀.Over (ts ++ [.symbol .leftParen] ++ d.yield ++ [.symbol .rightParen]) k' →
        Tells r k₀.tokens (f args k')) :
    Tells r k₀.tokens ((Parser.arguments value >>= f) k) := by
  refine .bind (.symbol hk fun k₁ hk₁ => .bind ?_ fun args k₂ _ => ?_) fun args k' h => ?_
  · exact .into hk₁ hopens (tells_argumentsUpTo hvalue rfl k₁)
  · exact .of_uncounted ((Uncounted.symbol _).bind fun _ => .pure _)
  · obtain ⟨d, hterminals, -, -⟩ := arguments_ok hvalue.reads h
    have hover : k.Over ([.symbol .leftParen] ++ d.yield ++ [.symbol .rightParen]) k' :=
      .of_moves (.arguments hvalue.moves) h (by simpa using hterminals)
    exact hf args d k' (by simpa using hk.trans hover)

/-- A chain fails behind some of its links: in another link, or because there are too many. -/
theorem error_chain {link : Expr → Parser (Option Expr)}
    (hfinds : ∀ {base k o k'}, link base k = .ok (o, k') → Production.FindsSuffix k k' base o)
    (hmoves : ∀ base, Moves (link base))
    (htells : ∀ base (k : Cursor), Tells .suffix k.tokens (link base k)) (left : Nat) (base : Expr)
    (h : chain link left base k = .error fault) (hlength : fault.cause.isLength = true) :
    ∃ (links : Derivation .suffixes) (k' : Cursor), k.Over links.yield k' ∧
      ((links.length = left ∧ fault = ⟨.chainTooLong maxLinks, k'.current.span⟩ ∧
          (k'.current.kind.startsSuffix = false → links.Greedy k'.current.kind)) ∨
        Overflows .suffix k'.tokens fault) := by
  induction left generalizing k base with
  | zero => exact ⟨.ended, k, .refl k, .inl ⟨rfl, (Except.error.inj h).symm, id⟩⟩
  | succ left ih =>
    rw [chain] at h
    rcases error_of_sequence h with h | ⟨o, k₁, ho, h⟩
    · exact ⟨.ended, k, .refl k, .inr (htells base k h hlength)⟩
    cases o with
    | none => cases h
    | some longer =>
      obtain ⟨d, hterminals, hgreedy, -⟩ := hfinds ho
      obtain ⟨links, k', hlinks, hwhy⟩ := ih longer h
      have hover := (Cursor.Over.of_moves (hmoves base) ho hterminals).trans hlinks
      refine ⟨.link d links, k', hover, hwhy.imp_left ?_⟩
      rintro ⟨hcount, hfault, hends⟩
      refine ⟨congrArg (· + 1) hcount, hfault, fun hkind => ⟨?_, hends hkind⟩⟩
      rwa [Cursor.ahead_eq hlinks.terminals]

end Loops

/-! ### Productions -/

namespace Production

variable {list : Parser (List Stmt)} {body : Parser Block} {value cond : Parser Expr}
  {bracket : Parser Index}

theorem part_block (hlist : PartStatements list) :
    PartBlock (block list) := by
  refine ⟨reads_block hlist.reads, moves_block hlist.moves, fun k => ?_⟩
  rw [block, here_bind]
  exact .bind (hlist.tells k) fun _ _ _ => .finish

theorem tells_function (hlist : PartStatements list)
    (k : Cursor) : Tells .statement k.tokens (function list k) := by
  rw [function, here_bind]
  refine .word (.refl k) fun k₁ h₁ => .name h₁ fun name k₂ h₂ => .symbol h₂ fun k₃ h₃ =>
    .bind (.of_uncounted .parameters) fun params k₄ hparams => ?_
  have h₄ := h₃.trans (.of_moves moves_parameters hparams (parameters_ok hparams))
  refine .symbol h₄ fun k₅ h₅ => .word h₅ fun k₆ h₆ =>
    .part h₆ (.function name params) hlist fun _ body k₇ h₇ => .word h₇ fun _ _ => .finish

theorem tells_optional {mark : Kind} (hvaries : mark.varies = false) (hvalue : PartSimple value)
    (k : Cursor) : Tells (.optional mark) k.tokens (optional mark value k) := by
  refine .accept hvaries (.refl k) (fun k₁ h₁ => ?_) .finish
  exact .part h₁ (.present mark) hvalue fun _ _ _ _ => .finish

theorem part_optional {mark : Kind} (hvaries : mark.varies = false) (hvalue : PartSimple value) :
    Part (.optional mark) (fun o v => o.map Expr.bare = v) (optional mark value) :=
  ⟨reads_optional hvaries hvalue.reads, moves_optional mark hvalue.moves,
    tells_optional hvaries hvalue⟩

theorem tells_var (hvalue : PartSimple value) (k : Cursor) :
    Tells .statement k.tokens (var value k) := by
  rw [var, here_bind]
  exact .word (.refl k) fun k₁ h₁ => .name h₁ fun name k₂ h₂ =>
    .part h₂ (.init name) (part_optional rfl hvalue) fun _ _ _ _ => .finish

theorem tells_assignment (hvalue : PartSimple value) (k : Cursor) :
    Tells .statement k.tokens (assignment value k) := by
  rw [assignment, here_bind]
  exact .part (.refl k) .target hvalue fun _ target k₁ h₁ =>
    .accept rfl h₁ (fun k₂ h₂ => .part h₂ (.assigned target) hvalue fun _ _ _ _ => .finish) .finish

theorem over_arm (hcond : PartGroup cond) (hbody : PartBlock body) {k k' : Cursor}
    {x : Expr × Block} (h : arm cond body k = .ok (x, k')) :
    ∃ (c : Derivation .group) (l : Derivation .statements),
      k.Over (c.yield ++ [.word .kwThen] ++ l.yield) k' := by
  obtain ⟨c, l, hterminals, -⟩ := arm_ok hcond.reads hbody.reads h
  exact ⟨c, l, .of_moves (moves_arm hcond.moves hbody.moves) h (by simpa using hterminals)⟩

/-- An arm of a branch, and what comes behind it. -/
theorem tells_arm {β : Type} {f : Expr × Block → Parser β} {r : Rule} {k₀ k : Cursor}
    {ts : List Terminal} (hk : k₀.Over ts k) (hcond : PartGroup cond) (hbody : PartBlock body)
    (hopens : r.Opens ts .group)
    (hthen : ∀ c : Derivation .group, r.Opens (ts ++ c.yield ++ [.word .kwThen]) .statements)
    (hf : ∀ x (c : Derivation .group) (l : Derivation .statements) k',
      k₀.Over (ts ++ c.yield ++ [.word .kwThen] ++ l.yield) k' → Tells r k₀.tokens (f x k')) :
    Tells r k₀.tokens ((arm cond body >>= f) k) := by
  refine .bind (.part hk hopens hcond fun _ c k₁ h₁ => .word h₁ fun k₂ h₂ =>
    .part h₂ (hthen c) hbody fun _ _ _ _ => .finish) fun x k' h => ?_
  obtain ⟨c, l, hover⟩ := over_arm hcond hbody h
  exact hf x c l k' (by simpa using hk.trans hover)

theorem tells_arms (hcond : PartGroup cond) (hbody : PartBlock body) (n : Nat) (k : Cursor) :
    Tells .otherwise k.tokens (roundsAfter (.keyword .kwElseif) (arm cond body) n k) := by
  induction n generalizing k with
  | zero => exact .finish
  | succ n ih =>
    refine .accept rfl (.refl k) (fun k₁ h₁ => ?_) .finish
    exact tells_arm h₁ hcond hbody .elseIfCond .elseIfBody fun _ c l k₂ h₂ =>
      .bind (.into h₂ (.elseIfRest c l) (ih k₂)) fun _ _ _ => .finish

/-- What is too long behind some arms is too long behind the block in front of them. -/
theorem overflows_arms (hcond : PartGroup cond) (hbody : PartBlock body) {n : Nat} {k k' : Cursor}
    {arms : List (Expr × Block)} {fault : Fault GrammarCause}
    (harms : roundsAfter (.keyword .kwElseif) (arm cond body) n k = .ok (arms, k'))
    (h : Overflows .otherwise k'.tokens fault) : Overflows .otherwise k.tokens fault := by
  induction n generalizing k arms with
  | zero =>
    obtain ⟨-, rfl⟩ := Prod.mk.inj (pure_eq_ok.mp harms)
    exact h
  | succ n ih =>
    rw [roundsAfter] at harms
    obtain ⟨b, k₁, hmark, hround⟩ := bind_eq_ok.mp harms
    rcases accept_ok rfl hmark with ⟨rfl, -, hterminals⟩ | ⟨rfl, -, rfl⟩
    · simp only [↓reduceIte, bind_eq_ok, pure_eq_ok, Prod.mk.injEq] at hround
      obtain ⟨first, k₂, hfirst, more, k₃, hmore, rfl, rfl⟩ := hround
      obtain ⟨c, l, hover⟩ := over_arm hcond hbody hfirst
      have hword : k.Over [.word .kwElseif] k₁ := .of_moves (.accept _) hmark hterminals
      refine (ih hmore).into (hword.trans hover) ?_
      rw [← List.append_assoc, ← List.append_assoc]
      exact .elseIfRest c l
    · obtain ⟨-, rfl⟩ := Prod.mk.inj (pure_eq_ok.mp hround)
      exact h

theorem tells_branch (hcond : PartGroup cond) (hbody : PartBlock body) (k : Cursor) :
    Tells .statement k.tokens (branch cond body k) := by
  rw [branch, here_bind]
  refine .word (.refl k) fun k₁ h₁ =>
    tells_arm h₁ hcond hbody .ifCond .ifBody fun first c l k₂ h₂ => ?_
  refine .bind (.into h₂ (.ifRest c l) (tells_arms hcond hbody _ k₂)) fun arms k₃ harms => ?_
  have hend : ∀ (last : Option Block) (k' : Cursor), Tells .statement k.tokens ((do
      word .kwEndif
      return Stmt.branch first.1 first.2 (otherwise last arms)
        (← spanFrom k.current.span.start)) k') :=
    fun _ _ => .bind (.of_uncounted (.word _)) fun _ _ _ => .finish
  refine .bind (.of_uncounted (.accept _)) fun b k₄ helse => ?_
  rcases accept_ok rfl helse with ⟨rfl, -, hterminals⟩ | ⟨rfl, -, rfl⟩
  · have hover : k₃.Over [.word .kwElse] k₄ := .of_moves (.accept _) helse hterminals
    refine .bind (fun fault h hlength => ?_) fun _ _ _ =>
      .bind .finish fun last k' _ => hend last k'
    have hlast := (hbody.tells k₄ h hlength).into hover .last
    exact (overflows_arms hcond hbody harms hlast).into h₂ (.ifRest c l)
  · exact .bind .finish fun last k' _ => hend last k'

theorem tells_loop (hcond : PartGroup cond) (hbody : PartBlock body) (k : Cursor) :
    Tells .statement k.tokens (loop cond body k) := by
  rw [loop, here_bind]
  exact .word (.refl k) fun k₁ h₁ => .part h₁ .whileCond hcond fun _ c k₂ h₂ =>
    .word h₂ fun k₃ h₃ => .part h₃ (.whileBody c) hbody fun _ _ k₄ h₄ =>
      .word h₄ fun _ _ => .finish

theorem tells_count (hvalue : PartSimple value) (hbody : PartBlock body) (k : Cursor) :
    Tells .statement k.tokens (count value body k) := by
  rw [count, here_bind]
  refine .word (.refl k) fun k₁ h₁ => .name h₁ fun name k₂ h₂ => .symbol h₂ fun k₃ h₃ =>
    .part h₃ (.start name) hvalue fun _ start k₄ h₄ =>
      .bind (.of_uncounted .direction) fun way k₅ hway => ?_
  have hover : k₄.Over [.word way.keyword] k₅ :=
    .of_moves moves_direction hway (direction_ok hway).2
  exact .part (h₄.trans hover) (.stop name start way) hvalue fun _ stop k₆ h₆ =>
    .part h₆ (.step name start way stop) (part_optional rfl hvalue) fun _ step k₇ h₇ =>
      .word h₇ fun k₈ h₈ => .part h₈ (.forBody name start way stop step) hbody fun _ _ k₉ h₉ =>
        .word h₉ fun _ _ => .finish

theorem tells_each (hvalue : PartSimple value) (hbody : PartBlock body) (k : Cursor) :
    Tells .statement k.tokens (each value body k) := by
  rw [each, here_bind]
  refine .word (.refl k) fun k₁ h₁ => .name h₁ fun name k₂ h₂ => .word h₂ fun k₃ h₃ =>
    .arguments h₃ (.collections name) hvalue fun args d k₄ h₄ => ?_
  split
  · exact .fail rfl
  · exact .word h₄ fun k₅ h₅ => .part h₅ (.eachBody name d) hbody fun _ _ k₆ h₆ =>
      .word h₆ fun _ _ => .finish

theorem tells_scope (hbody : PartBlock body) (k : Cursor) :
    Tells .statement k.tokens (scope body k) := by
  rw [scope, here_bind]
  exact .word (.refl k) fun k₁ h₁ => .part h₁ .scope hbody fun _ _ k₂ h₂ =>
    .word h₂ fun _ _ => .finish

theorem tells_single (stmt : Span → Stmt) (k : Cursor) :
    Tells .statement k.tokens (single stmt k) := by
  rw [single, here_bind]
  exact .advance (.refl k) fun _ _ => .finish

theorem tells_unary {operand primary : Parser Expr}
    (hoperand : Part (.layer none) (fun e v => e.bare = v) operand)
    (hprimary : ∀ k : Cursor, Tells .primary k.tokens (primary k)) (k : Cursor) :
    Tells (.layer none) k.tokens (unary operand primary k) := by
  rw [unary, here_bind, peek_bind]
  cases hop : UnaryOp.ofKind? k.current.kind with
  | none => exact .into (.refl k) .plain (hprimary k)
  | some op =>
    refine .advance (.refl k) fun k₁ h₁ => ?_
    rw [terminal_of_kind (UnaryOp.kind_of_ofKind? hop) (UnaryOp.varies_kind op)] at h₁
    exact .part h₁ (.operand op) hoperand fun _ _ _ _ => .finish

theorem tells_parenthesized (hvalue : PartSimple value) (k : Cursor) :
    Tells .group k.tokens (parenthesized value k) := by
  refine .bind (.of_uncounted (.expect _)) fun opening k₁ hopen => ?_
  obtain ⟨-, hkind, hterminals⟩ := expect_ok hopen
  rw [terminal_of_kind hkind rfl] at hterminals
  have h₁ : k.Over [.symbol .leftParen] k₁ := .of_moves (.expect _) hopen hterminals
  rw [current_bind]
  split
  · exact .fail rfl
  · exact .part h₁ .value hvalue fun _ _ k₂ h₂ => .symbol h₂ fun _ _ => .finish

theorem tells_index (hvalue : PartSimple value) (k : Cursor) :
    Tells .index k.tokens (index value k) := by
  refine .symbol (.refl k) fun k₁ h₁ => .bind ?_ fun _ _ _ =>
    .bind (.of_uncounted (.symbol _)) fun _ _ _ => .finish
  rw [peek_bind]
  generalize hkind : k₁.current.kind = kind
  split
  · exact .advance h₁ fun _ _ => .finish
  · refine .advance h₁ fun k₂ h₂ => ?_
    rw [terminal_of_kind hkind rfl] at h₂
    exact .part h₂ (.entry .forward) hvalue fun _ _ _ _ => .finish
  · refine .advance h₁ fun k₂ h₂ => ?_
    rw [terminal_of_kind hkind rfl] at h₂
    exact .part h₂ (.entry .backward) hvalue fun _ _ _ _ => .finish
  · exact .part h₁ (.entry .absolute) hvalue fun _ _ _ _ => .finish

section Suffix

variable {β : Type} {r : Rule} {k₀ k : Cursor} {ts : List Terminal}

/-- An index, if there is one, and steps behind it that cannot fail. -/
theorem tells_optionalIndex {f : Index → Parser β} (hk : k₀.Over ts k) (hopens : r.Opens ts .index)
    (hindex : PartIndex bracket) (hf : ∀ i k', Tells r k₀.tokens (f i k')) :
    Tells r k₀.tokens ((optionalIndex bracket >>= f) k) := by
  refine .bind ?_ fun i k' _ => hf i k'
  rw [optionalIndex, peek_bind]
  split
  · exact .into hk hopens (hindex.tells k)
  · exact .finish

theorem tells_indexedCall {f : Expr → Parser β} (call : Expr) (hk : k₀.Over ts k)
    (hopens : r.Opens ts .index) (hindex : PartIndex bracket)
    (hf : ∀ e k', Tells r k₀.tokens (f e k')) :
    Tells r k₀.tokens ((indexedCall bracket call >>= f) k) := by
  refine .bind ?_ fun e k' _ => hf e k'
  rw [indexedCall, peek_bind]
  split
  · exact .part hk hopens hindex fun _ _ _ _ => .finish
  · exact .finish

end Suffix

theorem tells_suffix (hvalue : PartSimple value) (hindex : PartIndex bracket) (base : Expr)
    (k : Cursor) : Tells .suffix k.tokens (suffix value bracket base k) := by
  rw [suffix, peek_bind]
  generalize hkind : k.current.kind = kind
  split
  · refine .arguments (.refl k) .call hvalue fun _ args k₁ h₁ => ?_
    rw [spanFrom_bind]
    exact tells_indexedCall _ h₁ (.called args) hindex fun _ _ => .finish
  · refine .advance (.refl k) fun k₁ h₁ => .identifier h₁ fun member k₂ h₂ => ?_
    rw [terminal_of_kind hkind rfl] at h₂
    rw [peek_bind]
    split
    · refine .arguments h₂ (.method member.text) hvalue fun _ args k₃ h₃ => ?_
      rw [spanFrom_bind, spanFrom_bind]
      exact tells_indexedCall _ h₃ (.methodCalled member.text args) hindex fun _ _ => .finish
    · exact tells_optionalIndex h₂ (.member member.text) hindex fun _ _ => .finish
  · refine .advance (.refl k) fun k₁ h₁ => .name h₁ fun name k₂ h₂ => ?_
    rw [terminal_of_kind hkind rfl] at h₂
    exact tells_optionalIndex h₂ (.descendant name) hindex fun _ _ => .finish
  · refine .advance (.refl k) fun k₁ h₁ => .name h₁ fun name k₂ h₂ => ?_
    rw [terminal_of_kind hkind rfl] at h₂
    exact tells_optionalIndex h₂ (.hash name) hindex fun _ _ => .finish
  · exact .advance (.refl k) fun _ _ => .finish
  · exact .finish

theorem tells_chain (hvalue : PartSimple value) (hindex : PartIndex bracket) (base : Expr)
    (k : Cursor) : Tells .suffixes k.tokens (chain (suffix value bracket) maxLinks base k) := by
  intro fault h hlength
  obtain ⟨links, k', hlinks, ⟨hcount, rfl, hgreedy⟩ | hinner⟩ :=
    error_chain (suffix_ok hvalue.reads hindex.reads) (moves_suffix hvalue.moves hindex.moves)
      (tells_suffix hvalue hindex) maxLinks base h hlength
  · exact .chain hlinks.stands hcount hgreedy
  · exact hinner.into hlinks (.link links)

theorem tells_primary {group : Parser Expr} {suffixes : Expr → Parser Expr}
    (hindex : PartIndex bracket) (hgroup : PartGroup group)
    (hsuffixes : ∀ base (k : Cursor), Tells .suffixes k.tokens (suffixes base k)) (k : Cursor) :
    Tells .primary k.tokens (primary bracket group suffixes k) := by
  rw [primary, current_bind]
  generalize hkind : k.current.kind = kind
  split
  · exact .advance (.refl k) fun _ _ => .finish
  · exact .advance (.refl k) fun _ _ => .finish
  · exact .advance (.refl k) fun _ _ => .finish
  · refine .advance (.refl k) fun k₁ h₁ => ?_
    have hname : k.current.terminal = .identifier k.current.text := by
      rw [Token.terminal, hkind]
      rfl
    rw [hname] at h₁
    rw [peek_bind]
    split
    · exact .part h₁ (.element _) hindex fun _ i k₂ h₂ =>
        .into h₂ (.named _ (.indexed i)) (hsuffixes _ k₂)
    · exact .into h₁ (.named _ .unindexed) (hsuffixes _ k₁)
  · exact .part (.refl k) .group hgroup fun _ g k₁ h₁ => .into h₁ (.grouped g) (hsuffixes _ k₁)
  · exact .fail rfl

theorem tells_operand {layer : Layer} {tighter : Layer → Parser Expr} {unary : Parser Expr}
    (htighter : ∀ layer (k : Cursor), Tells (.layer (some layer)) k.tokens (tighter layer k))
    (hunary : ∀ k : Cursor, Tells (.layer none) k.tokens (unary k)) (k : Cursor) :
    Tells (.layer layer.operands) k.tokens (operand layer tighter unary k) := by
  unfold operand
  rw [layer.tighter?_eq]
  cases layer.operands with
  | none => exact hunary k
  | some tighter => exact htighter tighter k

end Production

/-! ### The grammar -/

/-- Whether every production tells the truth about what it refuses, with this much room for
nesting. -/
structure Grammar.Telling (limit room : Nat) : Prop where
  statements : ∀ k : Cursor, Tells .statements k.tokens (statements limit room k)
  function : ∀ k : Cursor, Tells .statement k.tokens (function limit room k)
  statement : ∀ k : Cursor, Tells .statement k.tokens (statement limit room k)
  var : ∀ k : Cursor, Tells .statement k.tokens (var limit room k)
  assignment : ∀ k : Cursor, Tells .statement k.tokens (assignment limit room k)
  branch : ∀ k : Cursor, Tells .statement k.tokens (branch limit room k)
  loop : ∀ k : Cursor, Tells .statement k.tokens (loop limit room k)
  count : ∀ k : Cursor, Tells .statement k.tokens (count limit room k)
  each : ∀ k : Cursor, Tells .statement k.tokens (each limit room k)
  scope : ∀ k : Cursor, Tells .statement k.tokens (scope limit room k)
  binary : ∀ layer (k : Cursor), Tells (.layer (some layer)) k.tokens (binary limit layer room k)
  operations : ∀ layer start left (k : Cursor),
    Tells (.operations layer) k.tokens (operations limit layer start room left k)
  unary : ∀ k : Cursor, Tells (.layer none) k.tokens (unary limit room k)
  primary : ∀ k : Cursor, Tells .primary k.tokens (primary limit room k)
  parenthesized : ∀ k : Cursor, Tells .group k.tokens (parenthesized limit room k)
  suffixes : ∀ base (k : Cursor), Tells .suffixes k.tokens (suffixes limit room base k)
  index : ∀ k : Cursor, Tells .index k.tokens (index limit room k)

namespace Grammar.Telling

variable {limit room : Nat}

theorem zero (limit : Nat) : Telling limit 0 where
  statements := fun _ => .fail rfl
  function := fun _ => .fail rfl
  statement := fun _ => .fail rfl
  var := fun _ => .fail rfl
  assignment := fun _ => .fail rfl
  branch := fun _ => .fail rfl
  loop := fun _ => .fail rfl
  count := fun _ => .fail rfl
  each := fun _ => .fail rfl
  scope := fun _ => .fail rfl
  binary := fun _ _ => .fail rfl
  operations := by
    intro layer start left k
    rw [Grammar.operations, peek_bind]
    cases layer.operator? k.current.kind with
    | none => exact .finish
    | some op => exact .fail rfl
  unary := fun _ => .fail rfl
  primary := fun _ => .fail rfl
  parenthesized := fun _ => .fail rfl
  suffixes := fun _ _ => .fail rfl
  index := fun _ => .fail rfl

section Parts

variable (h : Telling limit room)

include h

theorem partSimple : PartSimple (Grammar.binary limit .logicalOr room) :=
  ⟨(sound limit room).binary _, (forward limit room).binary _, h.binary _⟩

theorem partGroup : PartGroup (Grammar.parenthesized limit room) :=
  ⟨(sound limit room).parenthesized, (forward limit room).parenthesized, h.parenthesized⟩

theorem partIndex : PartIndex (Grammar.index limit room) :=
  ⟨(sound limit room).index, (forward limit room).index, h.index⟩

theorem partStatements : PartStatements (Grammar.statements limit room) :=
  ⟨(sound limit room).statements, (forward limit room).statements, h.statements⟩

theorem partOperand (layer : Layer) :
    Part (.layer layer.operands) (fun e v => e.bare = v)
      (Production.operand layer (fun layer => Grammar.binary limit layer room)
        (Grammar.unary limit room)) :=
  ⟨(sound limit room).operand layer,
    Production.moves_operand (forward limit room).binary (forward limit room).unary,
    Production.tells_operand h.binary h.unary⟩

theorem statement_succ (k : Cursor) :
    Tells .statement k.tokens (Grammar.statement limit (room + 1) k) := by
  rw [Grammar.statement, current_bind]
  generalize k.current.kind = kind
  split
  · exact h.var k
  · exact h.branch k
  · exact h.loop k
  · exact h.count k
  · exact h.each k
  · exact h.scope k
  · exact Production.tells_single _ k
  · exact Production.tells_single _ k
  · split
    · exact h.assignment k
    · exact .fail rfl

theorem statements_succ (k : Cursor) :
    Tells .statements k.tokens (Grammar.statements limit (room + 1) k) := by
  refine tells_statementsUpTo ⟨?_, ?_, fun k => ?_⟩ k
  · intro k x k' hok
    rw [peek_bind] at hok
    split at hok
    · exact (sound limit room).function hok
    · exact (sound limit room).statement hok
  · exact Moves.peek.bind fun _ =>
      .ite (forward limit room).function (forward limit room).statement
  · rw [peek_bind]
    split
    · exact h.function k
    · exact h.statement k

theorem binary_succ (layer : Layer) (k : Cursor) :
    Tells (.layer (some layer)) k.tokens (Grammar.binary limit layer (room + 1) k) := by
  rw [Grammar.binary, here_bind]
  exact .part (.refl k) (.left layer) (h.partOperand layer) fun _ first k₁ h₁ =>
    .into h₁ (.operations first) (h.operations _ _ _ k₁)

theorem operations_succ (layer : Layer) (start : Nat) (left : Expr) (k : Cursor) :
    Tells (.operations layer) k.tokens
      (Grammar.operations limit layer start (room + 1) left k) := by
  rw [Grammar.operations, peek_bind]
  cases hop : layer.operator? k.current.kind with
  | none => exact .finish
  | some op =>
    refine .advance (.refl k) fun k₁ h₁ => ?_
    rw [terminal_of_kind rfl (Layer.varies_of_operator? hop)] at h₁
    have hspells := Layer.operator?_eq_some_iff.mp hop
    exact .part h₁ (.right ⟨k.current.kind, op, hspells⟩) (h.partOperand layer) fun _ right k₂ h₂ =>
      .into h₂ (.further ⟨k.current.kind, op, hspells⟩ right) (h.operations _ _ _ k₂)

theorem succ : Telling limit (room + 1) where
  statements := h.statements_succ
  function := Production.tells_function h.partStatements
  statement := h.statement_succ
  var := Production.tells_var h.partSimple
  assignment := Production.tells_assignment h.partSimple
  branch := Production.tells_branch h.partGroup (Production.part_block h.partStatements)
  loop := Production.tells_loop h.partGroup (Production.part_block h.partStatements)
  count := Production.tells_count h.partSimple (Production.part_block h.partStatements)
  each := Production.tells_each h.partSimple (Production.part_block h.partStatements)
  scope := Production.tells_scope (Production.part_block h.partStatements)
  binary := h.binary_succ
  operations := h.operations_succ
  unary := Production.tells_unary
    ⟨(sound limit room).unary, (forward limit room).unary, h.unary⟩ h.primary
  primary := Production.tells_primary h.partIndex h.partGroup h.suffixes
  parenthesized := Production.tells_parenthesized h.partSimple
  suffixes := Production.tells_chain h.partSimple h.partIndex
  index := Production.tells_index h.partSimple

end Parts

end Grammar.Telling

/-- **Every production tells the truth about what it refuses for length.** -/
theorem Grammar.telling (limit room : Nat) : Telling limit room := by
  induction room with
  | zero => exact .zero limit
  | succ room ih => exact ih.succ

/-! ### Scripts -/

/-- The tokens of a text, up to the first fault in it. -/
def tokensOf (text : String) : List Token := readable (Lexer.ofText text).pulls

theorem overflows_of_parse {maxDepth : Nat} {text : String} {fault : Fault GrammarCause}
    (h : Program.parse maxDepth text = .error fault) (hlength : fault.cause.isLength = true) :
    Overflows .statements (tokensOf text) fault := by
  cases hstart : advance (Cursor.start (Lexer.ofText text).pulls) with
  | error found =>
    rw [Program.parse, Grammar.script, bind_of_error hstart] at h
    obtain rfl := Except.error.inj h
    exact absurd hlength (Uncounted.advance hstart)
  | ok result =>
    obtain ⟨token, k⟩ := result
    obtain ⟨-, hpasses⟩ := Cursor.Passes.of_advance hstart
    have htokens : tokensOf text = k.tokens := (List.cons.inj hpasses.tokens).2
    rw [parse_eq hstart] at h
    rw [htokens]
    split at h
    · rename_i found hfound
      obtain rfl := Except.error.inj h
      exact (Grammar.telling maxDepth _).statements k hfound hlength
    · split at h
      · cases h
      · obtain rfl := Except.error.inj h
        cases hlength

/-- A chain that is read to its end has nothing behind it that could begin another link. -/
theorem Derivation.startsSuffix_of_greedy {next : Kind} :
    (links : Derivation .suffixes) → links.Greedy next → next.startsSuffix = false
  | .ended, h => h
  | .link _ rest, h => rest.startsSuffix_of_greedy h.2

/-- **What is refused for its length is as long as the fault says, and what is accepted is not.**
A list that is refused has more elements than the limit that the fault gives.  A chain that is
refused has as many links as the limit in front of the token that is blamed, so it has more than
that only if this token begins another link; otherwise these links are the whole chain.  What is
accepted has a derivation within all limits. -/
theorem parse_length_faults (maxDepth : Nat) (text : String) :
    (∀ limit span, Program.parse maxDepth text = .error ⟨.tooManyExpressions limit, span⟩ →
      limit = maxStatements ∧ ∃ (list : Derivation .statements) (behind : List Token),
        list.StandsIn .statements (tokensOf text) behind ∧ limit < list.length) ∧
    (∀ limit span, Program.parse maxDepth text = .error ⟨.tooManyArguments limit, span⟩ →
      limit = maxLinks ∧
        ∃ (first : Derivation .simple) (more : Derivation .moreArguments) (behind : List Token),
          (Derivation.someArguments first more).StandsIn .statements (tokensOf text) behind ∧
            limit < more.length + 1) ∧
    (∀ limit span, Program.parse maxDepth text = .error ⟨.chainTooLong limit, span⟩ →
      limit = maxLinks ∧
        ∃ (links : Derivation .suffixes) (next : Token) (behind : List Token),
          links.StandsIn .statements (tokensOf text) (next :: behind) ∧ next.span = span ∧
            links.length = limit ∧ (links.Greedy next.kind ↔ next.kind.startsSuffix = false)) ∧
    ∀ program, Program.parse maxDepth text = .ok program →
      ∃ tokens mark d, Lexes text tokens mark ∧ Derives tokens d ∧ d.Bounded := by
  refine ⟨fun limit span h => ?_, fun limit span h => ?_, fun limit span h => ?_,
    fun program h => ?_⟩
  · cases overflows_of_parse h rfl with
    | statements hstands hlength =>
      exact ⟨rfl, _, _, hstands, Nat.lt_of_lt_of_eq (Nat.lt_succ_self _) hlength.symm⟩
  · cases overflows_of_parse h rfl with
    | arguments hstands hlength =>
      exact ⟨rfl, _, _, _, hstands, Nat.lt_succ_of_le (Nat.le_of_eq hlength.symm)⟩
  · cases overflows_of_parse h rfl with
    | @chain links next behind hstands hlength hgreedy =>
      exact ⟨rfl, links, next, behind, hstands, rfl, hlength,
        links.startsSuffix_of_greedy, hgreedy⟩
  · obtain ⟨tokens, mark, hlexes⟩ := exists_lexes_of_parse h
    obtain ⟨-, d, hd, -⟩ := derives_of_parse hlexes h
    have haccepted : ¬LimitReached maxDepth text := by
      rintro ⟨fault, hfault, -⟩
      cases h.symm.trans hfault
    rw [hd.limitReached_iff hlexes, Classical.not_not] at haccepted
    exact ⟨tokens, mark, d, hlexes, hd, haccepted.1⟩

/-- The name `a` with links `.*` behind it. -/
def starred (links : Nat) : List Char := 'a' :: (List.replicate links ['.', '*']).flatten

/-- With 256 links the end of the text is blamed, where no other link begins: the fault says that
there are more than 256, and there are 256. -/
theorem parse_length_faults_starred :
    Program.parse defaultParseDepth (String.ofList (starred 256)) =
      .error ⟨.chainTooLong 256, ⟨513, 513⟩⟩ ∧
    ∃ (links : Derivation .suffixes) (next : Token) (behind : List Token),
      links.StandsIn .statements (tokensOf (String.ofList (starred 256))) (next :: behind) ∧
        links.length = 256 ∧ links.Greedy next.kind := by
  have hlexer : Lexer.ofText (String.ofList (starred 256)) = ⟨0, starred 256, none⟩ := by
    rw [Lexer.ofText, String.toList_ofList]
  have hparse : Program.parse defaultParseDepth (String.ofList (starred 256)) =
      .error ⟨.chainTooLong 256, ⟨513, 513⟩⟩ := by
    -- Trees have no decidable equality, so the fault is caught and compared.
    have heval : (((Program.parse defaultParseDepth (String.ofList (starred 256))).map
        fun _ => none).tryCatch fun fault => .ok (some fault)).toOption =
          some (some ⟨.chainTooLong 256, ⟨513, 513⟩⟩) := by
      rw [Program.parse, hlexer]
      decide +kernel
    cases hparse : Program.parse defaultParseDepth (String.ofList (starred 256)) with
    | ok program =>
      rw [hparse] at heval
      cases heval
    | error fault =>
      rw [hparse] at heval
      exact congrArg Except.error (Option.some.inj (Option.some.inj heval))
  obtain ⟨-, links, next, behind, hstands, hspan, hlength, hgreedy⟩ :=
    (parse_length_faults defaultParseDepth (String.ofList (starred 256))).2.2.1 256 _ hparse
  have hmem : next ∈ tokensOf (String.ofList (starred 256)) := by
    obtain ⟨front, own, htokens, -⟩ := hstands
    rw [htokens]
    simp
  have hends : ∀ token ∈ readable (Lexer.mk 0 (starred 256) none).pulls,
      token.span = ⟨513, 513⟩ → token.kind.startsSuffix = false := by decide +kernel
  rw [tokensOf, hlexer] at hmem
  exact ⟨hparse, links, next, behind, hstands, hlength, hgreedy.mpr (hends next hmem hspan)⟩

end FormCalc
