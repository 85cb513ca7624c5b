import FormCalc.Proofs.Grammar.Derivation
import FormCalc.Tree.Cursor

/-!
# What a parser reads

A parser reads terminals off its cursor: `Cursor.terminals` are those it can still see,
the one at hand included.  Here are the laws of the parser monad and of the ways to
consume a token, in terms of these.

* `bind_eq_ok`: a sequence of parsers succeeds when its parts do, one after the other.
* `Cursor.ahead_eq`: where some terminals lead from one cursor to another, the kind at
  hand is the kind of the first of them.
* `symbol_ok`, `word_ok`, `name_ok`, `accept_ok`: what a success says about the terminals.
-/

namespace FormCalc

/-! ### Terminals of a cursor -/

/-- The tokens up to the first fault. -/
def readable : List (Except (Fault LexicalCause) Token) → List Token
  | .ok token :: rest => token :: readable rest
  | _ => []

namespace Cursor

/-- The tokens that can still be read, from the one at hand on. -/
def tokens (k : Cursor) : List Token := k.current :: readable k.rest

/-- The terminals that can still be read, from the one at hand on. -/
def terminals (k : Cursor) : List Terminal := k.tokens.map Token.terminal

@[simp] theorem ahead_terminals (k : Cursor) (stop : Kind) :
    Terminal.ahead k.terminals stop = k.current.kind := rfl

theorem ahead_eq {k k' : Cursor} {ts : List Terminal} (h : k.terminals = ts ++ k'.terminals) :
    Terminal.ahead ts k'.current.kind = k.current.kind := by
  have hahead := congrArg (Terminal.ahead · .endOfInput) h
  simpa using hahead.symm

/-- The kind at hand where a terminal stands in front. -/
theorem kind_eq {k : Cursor} {t : Terminal} {ts : List Terminal} (h : k.terminals = t :: ts) :
    k.current.kind = t.kind := congrArg (Terminal.ahead · .endOfInput) h

end Cursor

namespace Parser

variable {α β : Type} {p : Parser α} {f : α → Parser β} {k k' : Cursor}

/-! ### Sequences -/

theorem bind_of_ok {a : α} {k₁ : Cursor} (h : p k = .ok (a, k₁)) : (p >>= f) k = f a k₁ := by
  simp [bind, StateT.bind, Except.bind, h]

theorem bind_of_error {fault : Fault GrammarCause} (h : p k = .error fault) :
    (p >>= f) k = .error fault := by
  simp [bind, StateT.bind, Except.bind, h]

theorem bind_eq_ok {r : β × Cursor} :
    (p >>= f) k = .ok r ↔ ∃ a k₁, p k = .ok (a, k₁) ∧ f a k₁ = .ok r := by
  cases h : p k with
  | error fault => simp [bind_of_error h]
  | ok result =>
    obtain ⟨a, k₁⟩ := result
    rw [bind_of_ok h]
    constructor
    · intro hf
      exact ⟨a, k₁, rfl, hf⟩
    · rintro ⟨a', k₂, hok, hf⟩
      obtain ⟨rfl, rfl⟩ := Prod.mk.inj (Except.ok.inj hok)
      exact hf

@[simp] theorem pure_eq_ok {a : α} {r : α × Cursor} :
    (pure a : Parser α) k = .ok r ↔ (a, k) = r :=
  ⟨Except.ok.inj, congrArg Except.ok⟩

@[simp] theorem pure_bind_apply {a : α} : ((pure a : Parser α) >>= f) k = f a k := rfl

/-! ### Steps that consume nothing -/

@[simp] theorem current_bind {f : Token → Parser β} : (current >>= f) k = f k.current k := rfl

@[simp] theorem peek_bind {f : Kind → Parser β} : (peek >>= f) k = f k.current.kind k := rfl

@[simp] theorem get_bind {f : Cursor → Parser β} : ((get : Parser Cursor) >>= f) k = f k k := rfl

@[simp] theorem here_bind {f : Nat → Parser β} : (here >>= f) k = f k.current.span.start k := rfl

@[simp] theorem spanFrom_bind {start : Nat} {f : Span → Parser β} :
    (spanFrom start >>= f) k = f ⟨start, max k.before.stop start⟩ k := rfl

@[simp] theorem fail_apply {cause : GrammarCause} {span : Span} :
    (fail cause span : Parser α) k = .error ⟨cause, span⟩ := rfl

@[simp] theorem tooDeep_apply {limit : Nat} :
    (tooDeep limit : Parser α) k = .error ⟨.tooDeep limit, k.current.span⟩ := rfl

theorem fail_bind {cause : GrammarCause} {span : Span} :
    ((fail cause span : Parser α) >>= f) k = .error ⟨cause, span⟩ := rfl

/-! ### Steps that consume a token -/

theorem advance_ok {token : Token} (h : advance k = .ok (token, k')) :
    token = k.current ∧ k.terminals = token.terminal :: k'.terminals := by
  unfold advance at h
  split at h
  · exact nomatch h
  · rename_i next rest hrest
    obtain ⟨rfl, rfl⟩ := Prod.mk.inj (Except.ok.inj h)
    exact ⟨rfl, by simp [Cursor.terminals, Cursor.tokens, readable, hrest]⟩
  · exact nomatch h

theorem expect_ok {kind : Kind} {token : Token} (h : expect kind k = .ok (token, k')) :
    k.current.kind = kind ∧ token.kind = kind ∧ k.terminals = token.terminal :: k'.terminals := by
  unfold expect at h
  rw [current_bind] at h
  split at h
  · rename_i hkind
    obtain ⟨rfl, hterminals⟩ := advance_ok h
    exact ⟨hkind, hkind, hterminals⟩
  · exact nomatch h

theorem symbol_ok {s : Symbol} {u : Unit} (h : symbol s k = .ok (u, k')) :
    k.current.kind = .symbol s ∧ k.terminals = .symbol s :: k'.terminals := by
  obtain ⟨token, k₁, htoken, hk⟩ := bind_eq_ok.mp h
  obtain ⟨rfl, rfl⟩ := Prod.mk.inj (pure_eq_ok.mp hk)
  obtain ⟨hcurrent, hkind, hterminals⟩ := expect_ok htoken
  refine ⟨hcurrent, ?_⟩
  rw [hterminals, Token.terminal, hkind]
  rfl

theorem word_ok {w : Keyword} {u : Unit} (h : word w k = .ok (u, k')) :
    k.current.kind = .keyword w ∧ k.terminals = .word w :: k'.terminals := by
  obtain ⟨token, k₁, htoken, hk⟩ := bind_eq_ok.mp h
  obtain ⟨rfl, rfl⟩ := Prod.mk.inj (pure_eq_ok.mp hk)
  obtain ⟨hcurrent, hkind, hterminals⟩ := expect_ok htoken
  refine ⟨hcurrent, ?_⟩
  rw [hterminals, Token.terminal, hkind]
  rfl

theorem identifier_ok {token : Token} (h : expect .identifier k = .ok (token, k')) :
    k.terminals = .identifier token.text :: k'.terminals := by
  obtain ⟨-, hkind, hterminals⟩ := expect_ok h
  rw [hterminals, Token.terminal, hkind]
  rfl

theorem name_ok {name : String} (h : Parser.name k = .ok (name, k')) :
    k.terminals = .identifier name :: k'.terminals := by
  obtain ⟨token, k₁, htoken, hk⟩ := bind_eq_ok.mp h
  obtain ⟨rfl, rfl⟩ := Prod.mk.inj (pure_eq_ok.mp hk)
  exact identifier_ok htoken

/-- A kind of one spelling is a terminal without text. -/
theorem terminal_of_kind {token : Token} {kind : Kind} (h : token.kind = kind)
    (hvaries : kind.varies = false) : token.terminal = ⟨kind, ""⟩ := by
  rw [Token.terminal, h, hvaries]
  rfl

theorem accept_ok {kind : Kind} (hvaries : kind.varies = false) {b : Bool}
    (h : accept kind k = .ok (b, k')) :
    (b = true ∧ k.current.kind = kind ∧ k.terminals = ⟨kind, ""⟩ :: k'.terminals) ∨
      (b = false ∧ k.current.kind ≠ kind ∧ k' = k) := by
  unfold accept at h
  rw [peek_bind] at h
  split at h
  · rename_i hkind
    obtain ⟨token, k₁, htoken, hk⟩ := bind_eq_ok.mp h
    obtain ⟨rfl, rfl⟩ := Prod.mk.inj (pure_eq_ok.mp hk)
    obtain ⟨rfl, hterminals⟩ := advance_ok htoken
    rw [terminal_of_kind hkind hvaries] at hterminals
    exact .inl ⟨rfl, hkind, hterminals⟩
  · rename_i hkind
    obtain ⟨rfl, rfl⟩ := Prod.mk.inj (pure_eq_ok.mp h)
    exact .inr ⟨rfl, hkind, rfl⟩

end Parser

end FormCalc
