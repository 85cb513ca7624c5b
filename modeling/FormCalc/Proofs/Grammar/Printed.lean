import FormCalc.Proofs.Grammar.Limits
import FormCalc.Proofs.Token.Spaced
import FormCalc.Proofs.Tree.Bare

/-!
# Derivations of printed expressions

The terminals that are printed for an expression have a greedy derivation that stands for it.

An operand is derived together with what comes behind it.  Operators of a layer associate to
the left although their derivations nest to the right, and so do accessors and calls; so it is
said of an operand that it can be extended by any further operations (`Extendable`) or links
(`Chainable`), and a derivation comes out by extending it with none.

* `Derivable`: terminals have a derivation at a layer.
* `Expr.Printable`: the three of an expression, each where the expression binds tightly
  enough.  `Expr.printable` proves it of every expression that a parser can build.
-/

namespace FormCalc

open Terminal
open FormCalc.Parser (maxLinks maxStatements)

/-! ### Spelling -/

theorem spelled_symbol (s : Symbol) : (symbol s).Spelled :=
  ⟨by cases s <;> exact ⟨_, _, rfl, rfl⟩, fun _ => rfl⟩

theorem spelled_word (k : Keyword) : (word k).Spelled :=
  ⟨by cases k <;> exact ⟨_, _, rfl, rfl⟩, fun _ => rfl⟩

theorem spelled_unary (op : UnaryOp) : Terminal.Spelled ⟨op.kind, ""⟩ := by
  cases op with
  | plus => exact spelled_symbol .plus
  | minus => exact spelled_symbol .minus
  | not => exact spelled_word .kwNot

theorem spelled_identifier {name : String} (h : IsName name) : (identifier name).Spelled :=
  ⟨h, nofun⟩

/-- Whether all of some terminals are written as lexemes. -/
def AllSpelled (ts : List Terminal) : Prop := ∀ t ∈ ts, t.Spelled

@[simp] theorem allSpelled_nil : AllSpelled [] := nofun

@[simp] theorem allSpelled_cons {t : Terminal} {ts : List Terminal} :
    AllSpelled (t :: ts) ↔ t.Spelled ∧ AllSpelled ts := List.forall_mem_cons

@[simp] theorem allSpelled_append {ts us : List Terminal} :
    AllSpelled (ts ++ us) ↔ AllSpelled ts ∧ AllSpelled us := List.forall_mem_append

/-! ### Ranks -/

/-- How tightly the operators of a layer bind. -/
def Layer.rank : Layer → Nat
  | .logicalOr => 0
  | .logicalAnd => 1
  | .equality => 2
  | .relational => 3
  | .additive => 4
  | .multiplicative => 5

/-- **What is printed goes by the layers of the grammar.** -/
theorem BinaryOp.rank_eq (op : BinaryOp) : op.rank = op.layer.rank := by
  cases op <;> rfl

/-- How tightly an operand must bind that stands at a layer. -/
def rankOf : Option Layer → Nat
  | some layer => layer.rank
  | none => unaryRank

theorem rankOf_operands (layer : Layer) : rankOf layer.operands = layer.rank + 1 := by
  cases layer <;> rfl

theorem rankOf_inj {a b : Option Layer} (h : rankOf a = rankOf b) : a = b := by
  rcases a with _ | a <;> rcases b with _ | b
  · rfl
  · cases b <;> exact nomatch h
  · cases a <;> exact nomatch h
  · cases a <;> cases b <;> first | rfl | exact nomatch h

theorem rankOf_le (layer : Option Layer) : rankOf layer ≤ unaryRank := by
  rcases layer with _ | layer
  · exact Nat.le_refl _
  · cases layer <;> decide

/-- Whether a token of this kind ends an expression of a layer: it is no operator of this
layer or a tighter one, and nothing that follows a name or call. -/
structure Kind.Ends (layer : Option Layer) (kind : Kind) : Prop where
  operator : ∀ (other : Layer) (sign : other.Sign), kind = sign.kind → other.rank < rankOf layer
  suffix : kind.startsSuffix = false
  bracket : kind ≠ .symbol .leftBracket

namespace Kind.Ends

variable {layer : Layer} {kind : Kind}

theorem operands (h : kind.Ends (some layer)) : kind.Ends layer.operands := by
  refine ⟨fun other sign hkind => ?_, h.suffix, h.bracket⟩
  have hrank : other.rank < layer.rank := h.operator other sign hkind
  rw [rankOf_operands]
  omega

theorem ne_sign (h : kind.Ends (some layer)) (sign : layer.Sign) : kind ≠ sign.kind := fun hkind =>
  absurd (h.operator layer sign hkind) (Nat.lt_irrefl layer.rank)

/-- The sign of an operator ends an operand in front of it. -/
theorem sign (op : BinaryOp) : (Kind.symbol op.sign).Ends op.layer.operands := by
  refine ⟨fun other sign hkind => ?_, ?_, ?_⟩
  · -- it spells no other operator
    have hspells := Layer.operator?_eq_some_iff.mpr sign.spells
    obtain ⟨hop, hother⟩ := Option.filter_eq_some_iff.mp hspells
    have hsame : op = sign.op := by
      rw [← hkind] at hop
      cases op <;> exact Option.some.inj hop
    rw [← of_decide_eq_true hother, ← hsame, rankOf_operands]
    exact Nat.lt_succ_self _
  · cases op <;> rfl
  · cases op <;> exact nofun

end Kind.Ends

/-- A token that is no operator and begins no link or index ends every expression. -/
theorem Kind.ends_of_not_continues {kind : Kind} {place : Option Layer}
    (h : BinaryOp.ofKind? kind = none ∧ kind.startsSuffix = false ∧
      kind ≠ .symbol .leftBracket) : kind.Ends place := by
  obtain ⟨hop, hsuffix, hbracket⟩ := h
  refine ⟨fun other sign hkind => ?_, hsuffix, hbracket⟩
  have hspells := Layer.operator?_eq_some_iff.mpr sign.spells
  rw [← hkind, Layer.operator?, hop] at hspells
  cases hspells

/-! ### Operands -/

/-- Whether terminals have a derivation at a layer, with this tree. -/
structure Derivable (layer : Option Layer) (ts : List Terminal) (v : Expr) : Prop where
  spelled : AllSpelled ts
  derived : ∃ d : Derivation (.layer layer), d.yield = ts ∧ d.value = v ∧ d.Bounded ∧
    ∀ next, next.Ends layer → d.Greedy next

/-- Whether terminals have a derivation at a layer that further operations can extend. -/
structure Extendable (layer : Layer) (ts : List Terminal) (v : Expr) : Prop where
  spelled : AllSpelled ts
  derived : ∃ f : Derivation (.operations layer) → Derivation (.layer (some layer)), ∀ more,
    (f more).yield = ts ++ more.yield ∧ (f more).value = more.value v ∧
      (more.Bounded → (f more).Bounded) ∧
        ∀ next, more.Greedy next → (ahead more.yield next).Ends layer.operands →
          (f more).Greedy next

/-- Whether terminals have a derivation as a primary expression that further links can
extend.  There are `links` already, and `member` tells whether a parenthesis would make a
method of the last one. -/
structure Chainable (ts : List Terminal) (v : Expr) (links : Nat) (member : Bool) : Prop where
  spelled : AllSpelled ts
  derived : ∃ f : Derivation .suffixes → Derivation .primary, ∀ more,
    (f more).yield = ts ++ more.yield ∧ (f more).value = more.value v ∧
      (more.Bounded → more.length + links < maxLinks → (f more).Bounded) ∧
        ∀ next, more.Greedy next → ahead more.yield next ≠ .symbol .leftBracket →
          (member = true → ahead more.yield next ≠ .symbol .leftParen) → (f more).Greedy next

variable {layer : Layer} {ts us : List Terminal} {v w : Expr} {links : Nat} {member : Bool}

theorem Derivable.extendable_of_operands (h : Derivable layer.operands ts v) :
    Extendable layer ts v := by
  obtain ⟨d, rfl, rfl, hbounded, hgreedy⟩ := h.derived
  refine ⟨h.spelled, fun more => .binary d more, fun more => ⟨rfl, rfl, ?_, ?_⟩⟩
  · intro hmore
    exact ⟨hbounded, hmore⟩
  · intro next hmore hends
    exact ⟨hgreedy _ hends, hmore⟩

theorem Extendable.derivable (h : Extendable layer ts v) : Derivable (some layer) ts v := by
  obtain ⟨f, hf⟩ := h.derived
  obtain ⟨hyield, hvalue, hbounded, hgreedy⟩ := hf .finished
  refine ⟨h.spelled, f .finished, ?_, hvalue, hbounded trivial, ?_⟩
  · rw [hyield, Derivation.yield_finished, List.append_nil]
  · intro next hends
    exact hgreedy next hends.ne_sign hends.operands

/-- A layer holds everything that a tighter one does. -/
theorem Derivable.extendable {place : Option Layer} (h : Derivable place ts v)
    (hrank : layer.rank < rankOf place) : Extendable layer ts v := by
  induction hn : rankOf place - layer.rank generalizing layer with
  | zero => omega
  | succ n ih =>
    by_cases hnext : layer.operands = place
    · subst hnext
      exact h.extendable_of_operands
    · have hstep := rankOf_operands layer
      have hne : rankOf layer.operands ≠ rankOf place := fun heq => hnext (rankOf_inj heq)
      cases hoperands : layer.operands with
      | none =>
        have hlimit := rankOf_le place
        rw [hoperands] at hstep hne
        have hunary : rankOf none = unaryRank := rfl
        omega
      | some tighter =>
        rw [hoperands] at hstep hne
        have hsome : rankOf (some tighter) = tighter.rank := rfl
        have hext : Extendable tighter ts v := ih (by omega) (by omega)
        have hderivable := hext.derivable
        rw [← hoperands] at hderivable
        exact hderivable.extendable_of_operands

theorem Derivable.unary (h : Derivable none ts v) (op : UnaryOp) :
    Derivable none ([⟨op.kind, ""⟩] ++ ts) (.unary op v .origin) := by
  obtain ⟨d, rfl, rfl, hbounded, hgreedy⟩ := h.derived
  refine ⟨?_, .unary op d, rfl, rfl, hbounded, hgreedy⟩
  simp [spelled_unary, h.spelled]

/-- An operator between its operands. -/
theorem Extendable.binary (op : BinaryOp) (hleft : Extendable op.layer ts v)
    (hright : Derivable op.layer.operands us w) :
    Extendable op.layer (ts ++ [symbol op.sign] ++ us) (.binary op v w .origin) := by
  have hspells : (.symbol op.sign, op) ∈ op.layer.signs := by
    cases op <;> decide
  obtain ⟨f, hf⟩ := hleft.derived
  obtain ⟨d, rfl, rfl, hbounded, hgreedy⟩ := hright.derived
  refine ⟨?_, fun more => f (.operation ⟨_, op, hspells⟩ d more), fun more => ?_⟩
  · simp [spelled_symbol, hleft.spelled, hright.spelled]
  obtain ⟨hyield, hvalue, hfbounded, hfgreedy⟩ := hf (.operation ⟨_, op, hspells⟩ d more)
  refine ⟨?_, hvalue, ?_, ?_⟩
  · rw [hyield]
    simp
  · intro hmore
    exact hfbounded ⟨hbounded, hmore⟩
  · intro next hmore hends
    exact hfgreedy next ⟨hgreedy _ hends, hmore⟩ (Kind.Ends.sign op)

/-! ### Links -/

theorem Chainable.derivable (h : Chainable ts v links member) (hlinks : links < maxLinks) :
    Derivable none ts v := by
  obtain ⟨f, hf⟩ := h.derived
  obtain ⟨hyield, hvalue, hbounded, hgreedy⟩ := hf .ended
  refine ⟨h.spelled, .plain (f .ended), ?_, hvalue, ?_, ?_⟩
  · rw [Derivation.yield_plain, hyield, Derivation.yield_ended, List.append_nil]
  · refine hbounded trivial ?_
    show 0 + links < maxLinks
    omega
  · intro next hends
    refine hgreedy next hends.suffix hends.bracket fun _ hparen => ?_
    have hsuffix := hends.suffix
    rw [Derivation.yield_ended, ahead_nil] at hparen
    rw [hparen] at hsuffix
    exact nomatch hsuffix

/-- A name, with its index. -/
theorem chainable_named {name : String} {index : Derivation .optionalIndex} (hname : IsName name)
    (hspelled : AllSpelled index.yield) (hbounded : index.Bounded)
    (hgreedy : ∀ next, next ≠ .symbol .leftBracket → index.Greedy next) :
    Chainable ([identifier name] ++ index.yield) (.ofName name index.value) 0 false := by
  refine ⟨?_, .named name index, fun more => ⟨?_, rfl, ?_, ?_⟩⟩
  · simp [spelled_identifier hname, hspelled]
  · simp
  · intro hmore _
    exact ⟨hbounded, hmore⟩
  · intro next hmore hbracket _
    exact ⟨hgreedy _ hbracket, hmore⟩

/-- An expression in parentheses. -/
theorem Derivable.chainable (h : Derivable (some .logicalOr) ts v) :
    Chainable ([symbol .leftParen] ++ ts ++ [symbol .rightParen]) v 0 false := by
  obtain ⟨d, rfl, rfl, hbounded, hgreedy⟩ := h.derived
  have hends : (Kind.symbol .rightParen).Ends (some .logicalOr) :=
    Kind.ends_of_not_continues (by decide)
  refine ⟨?_, .grouped (.group d), fun more => ⟨?_, rfl, ?_, ?_⟩⟩
  · simp [spelled_symbol, h.spelled]
  · simp
  · intro hmore _
    exact ⟨hbounded, hmore⟩
  · intro next hmore _ _
    exact ⟨hgreedy _ hends, hmore⟩

/-- One link more. -/
theorem Chainable.link (h : Chainable ts v links member) (suffix : Derivation .suffix)
    {member' : Bool} (hyield : suffix.yield = us) (hvalue : suffix.value v = w)
    (hspelled : AllSpelled us) (hbounded : suffix.Bounded)
    (hstart : member = true → ∀ next, ahead suffix.yield next ≠ .symbol .leftParen)
    (hgreedy : ∀ next, next ≠ .symbol .leftBracket → (member' = true → next ≠ .symbol .leftParen) →
      suffix.Greedy next) :
    Chainable (ts ++ us) w (links + 1) member' := by
  obtain ⟨f, hf⟩ := h.derived
  refine ⟨?_, fun more => f (.link suffix more), fun more => ?_⟩
  · simp [h.spelled, hspelled]
  obtain ⟨hfyield, hfvalue, hfbounded, hfgreedy⟩ := hf (.link suffix more)
  refine ⟨?_, ?_, ?_, ?_⟩
  · rw [hfyield, Derivation.yield_link, hyield, List.append_assoc]
  · rw [hfvalue, ← hvalue]
    rfl
  · intro hmore hlength
    refine hfbounded ⟨hbounded, hmore, ?_⟩ ?_
    · omega
    · show more.length + 1 + links < maxLinks
      omega
  · intro next hmore hbracket hparen
    have hstarts : (ahead suffix.yield (ahead more.yield next)).startsSuffix = true :=
      suffix.starts _
    refine hfgreedy next ⟨hgreedy _ hbracket hparen, hmore⟩ ?_ ?_
    · rw [Derivation.yield_link, ahead_append]
      intro heq
      rw [heq] at hstarts
      exact nomatch hstarts
    · intro hmember
      rw [Derivation.yield_link, ahead_append]
      exact hstart hmember _

/-! ### Arguments and indexes -/

/-- Whether the terminals of arguments behind commas have a derivation with these trees. -/
def PrintableMore (args : List Expr) : Prop :=
  AllSpelled (printedMore args) ∧ ∃ d : Derivation .moreArguments,
    d.yield = printedMore args ∧ d.value = bareArguments args ∧ d.Bounded ∧
      d.length = args.length ∧ d.Greedy (.symbol .rightParen)

/-- Whether the terminals of arguments have a derivation with these trees. -/
def PrintableArguments (args : List Expr) : Prop :=
  AllSpelled (printedArguments args) ∧ ∃ d : Derivation .arguments,
    d.yield = printedArguments args ∧ d.value = bareArguments args ∧ d.Bounded ∧
      d.Greedy (.symbol .rightParen)

/-- Whether the terminals of an index have a derivation with this tree. -/
def Index.Printable (index : Index) : Prop :=
  AllSpelled index.printed ∧ ∃ d : Derivation .optionalIndex,
    d.yield = index.printed ∧ d.value = index.bare ∧ d.Bounded ∧
      ∀ next, next ≠ .symbol .leftBracket → d.Greedy next

theorem printableMore_nil : PrintableMore [] :=
  ⟨nofun, .noMore, rfl, rfl, trivial, rfl, nofun⟩

/-- What follows an argument ends it. -/
theorem PrintableMore.ends {args : List Expr} (h : PrintableMore args) :
    (ahead (printedMore args) (.symbol .rightParen)).Ends (some .logicalOr) := by
  cases args with
  | nil =>
    show (Kind.symbol .rightParen).Ends _
    exact Kind.ends_of_not_continues (by decide)
  | cons arg rest =>
    show (Kind.symbol .comma).Ends _
    exact Kind.ends_of_not_continues (by decide)

theorem printableMore_cons {arg : Expr} {rest : List Expr}
    (harg : Derivable (some .logicalOr) arg.printed arg.bare) (hrest : PrintableMore rest) :
    PrintableMore (arg :: rest) := by
  have hends := hrest.ends
  obtain ⟨hspelled, m, hyield, hvalue, hbounded, hlength, hgreedy⟩ := hrest
  obtain ⟨d, hdyield, hdvalue, hdbounded, hdgreedy⟩ := harg.derived
  refine ⟨?_, .oneMore d m, ?_, ?_, ⟨hdbounded, hbounded⟩, ?_, ?_, hgreedy⟩
  · show AllSpelled ([symbol .comma] ++ arg.printed ++ printedMore rest)
    simp [spelled_symbol, harg.spelled, hspelled]
  · show [symbol .comma] ++ d.yield ++ m.yield = [symbol .comma] ++ arg.printed ++ printedMore rest
    rw [hdyield, hyield]
  · show d.value :: m.value = arg.bare :: bareArguments rest
    rw [hdvalue, hvalue]
  · exact congrArg (· + 1) hlength
  · rw [hyield]
    exact hdgreedy _ hends

theorem printableArguments_nil : PrintableArguments [] :=
  ⟨nofun, .noArguments, rfl, rfl, trivial, rfl⟩

theorem printableArguments_cons {arg : Expr} {rest : List Expr}
    (harg : Derivable (some .logicalOr) arg.printed arg.bare) (hrest : PrintableMore rest)
    (hlength : (arg :: rest).length ≤ maxLinks) : PrintableArguments (arg :: rest) := by
  have hends := hrest.ends
  obtain ⟨hspelled, m, hyield, hvalue, hbounded, hmlength, hgreedy⟩ := hrest
  obtain ⟨d, hdyield, hdvalue, hdbounded, hdgreedy⟩ := harg.derived
  refine ⟨?_, .someArguments d m, ?_, ?_, ⟨hdbounded, hbounded, ?_⟩, ?_, hgreedy⟩
  · show AllSpelled (arg.printed ++ printedMore rest)
    simp [harg.spelled, hspelled]
  · show d.yield ++ m.yield = arg.printed ++ printedMore rest
    rw [hdyield, hyield]
  · show d.value :: m.value = arg.bare :: bareArguments rest
    rw [hdvalue, hvalue]
  · rw [hmlength]
    exact hlength
  · rw [hyield]
    exact hdgreedy _ hends

theorem printable_none : Index.Printable .none :=
  ⟨nofun, .unindexed, rfl, rfl, trivial, fun _ h => h⟩

theorem printable_star : Index.Printable .star := by
  refine ⟨?_, .indexed .every, rfl, rfl, trivial, fun _ _ => trivial⟩
  show AllSpelled [symbol .leftBracket, symbol .star, symbol .rightBracket]
  simp [spelled_symbol]

theorem spelled_sign (mode : IndexMode) : AllSpelled mode.sign := by
  cases mode <;> simp [IndexMode.sign, spelled_symbol]

/-- An index that starts with no sign of its own, or whose mode takes the sign. -/
theorem printable_entry_of_derivable {mode : IndexMode} {expr : Expr}
    (h : Derivable (some .logicalOr) ts expr.bare)
    (hsign : mode = .absolute → startsWithSign ts = false)
    (hprinted : (Index.entry mode expr).printed =
      [symbol .leftBracket] ++ mode.sign ++ ts ++ [symbol .rightBracket]) :
    (Index.entry mode expr).Printable := by
  have hends : (Kind.symbol .rightBracket).Ends (some .logicalOr) :=
    Kind.ends_of_not_continues (by decide)
  obtain ⟨d, rfl, hvalue, hbounded, hgreedy⟩ := h.derived
  refine ⟨?_, .indexed (.entry mode d), ?_, ?_, hbounded, fun _ _ => ⟨hgreedy _ hends, ?_⟩⟩
  · rw [hprinted]
    simp [spelled_symbol, spelled_sign, h.spelled]
  · rw [hprinted]
    rfl
  · show Index.entry mode d.value = .entry mode expr.bare
    rw [hvalue]
  · intro hmode sign hmem heq
    -- The expression is not empty, so what stands behind it does not matter.
    have hahead : ahead d.yield .endOfInput = .symbol sign := by
      have hstarts : (ahead d.yield .endOfInput).opensExpression = true := d.starts _
      cases hyield : d.yield with
      | nil =>
        rw [hyield] at hstarts
        exact nomatch hstarts
      | cons t us =>
        rw [hyield] at heq
        exact heq
    have hfalse := hsign hmode
    rw [startsWithSign, hahead] at hfalse
    simp only [List.mem_cons, List.not_mem_nil, or_false] at hmem
    rcases hmem with rfl | rfl <;> exact nomatch hfalse

/-! ### Expressions -/

theorem maxLinks_pos : 0 < maxLinks := by decide

/-- What the terminals of an expression can be derived as.  How tightly it binds decides in
which places it may stand without parentheses. -/
structure Expr.Printable (e : Expr) : Prop where
  layered : ∀ layer : Layer, layer.rank ≤ e.rank → Extendable layer e.printed e.bare
  unary : unaryRank ≤ e.rank → Derivable none e.printed e.bare
  chain : suffixRank ≤ e.rank → Chainable e.printed e.bare e.links e.isMember
  /-- An index right behind a call belongs to it. -/
  indexed : e.isCall = true → ∀ index : Index, index.Printable →
    Chainable (e.printed ++ index.printed) (Expr.indexed e.bare index.bare) e.links false

namespace Expr.Printable

variable {e : Expr}

theorem simple (h : e.Printable) : Derivable (some .logicalOr) e.printed e.bare :=
  (h.layered .logicalOr (Nat.zero_le _)).derivable

/-- An expression in parentheses stands everywhere. -/
theorem parenthesized (h : e.Printable) :
    Derivable none ([symbol .leftParen] ++ e.printed ++ [symbol .rightParen]) e.bare :=
  h.simple.chainable.derivable maxLinks_pos

/-- An operand in front of the operators of a layer. -/
theorem left (h : e.Printable) (layer : Layer) :
    Extendable layer (bracketed (e.rank < layer.rank) e.printed) e.bare := by
  by_cases hrank : e.rank < layer.rank
  · rw [decide_eq_true hrank]
    exact h.parenthesized.extendable (by cases layer <;> decide)
  · rw [decide_eq_false hrank]
    exact h.layered layer (Nat.le_of_not_lt hrank)

/-- An operand behind an operator. -/
theorem operand (h : e.Printable) (place : Option Layer) :
    Derivable place (bracketed (e.rank < rankOf place) e.printed) e.bare := by
  cases place with
  | some layer => exact (h.left layer).derivable
  | none =>
    by_cases hrank : e.rank < unaryRank
    · rw [show rankOf none = unaryRank from rfl, decide_eq_true hrank]
      exact h.parenthesized
    · rw [show rankOf none = unaryRank from rfl, decide_eq_false hrank]
      exact h.unary (Nat.le_of_not_lt hrank)

/-- What accessors stand behind. -/
theorem base (h : e.Printable) :
    Chainable (bracketed (e.rank < suffixRank) e.printed) e.bare e.links e.isMember := by
  by_cases hrank : e.rank < suffixRank
  · have hlinks : e.links = 0 ∧ e.isMember = false := by
      cases e <;> first | exact ⟨rfl, rfl⟩ | exact absurd hrank (Nat.lt_irrefl suffixRank)
    rw [decide_eq_true hrank, hlinks.1, hlinks.2]
    exact h.simple.chainable
  · rw [decide_eq_false hrank]
    exact h.chain (Nat.le_of_not_lt hrank)

/-- What a call stands behind: `base.name` is in parentheses, or it would be a method. -/
theorem callee (h : e.Printable) :
    Chainable (bracketed (e.rank < suffixRank || e.isMember) e.printed) e.bare
      (if e.isMember then 0 else e.links) false := by
  by_cases hmember : e.isMember = true
  · rw [hmember, Bool.or_true]
    exact h.simple.chainable
  · have hbase := h.base
    rw [Bool.eq_false_iff.mpr hmember] at hbase ⊢
    rw [Bool.or_false]
    exact hbase

theorem of_unary (hrank : e.rank = unaryRank) (h : Derivable none e.printed e.bare) :
    e.Printable := by
  have hcall : e.isCall = true → e.rank = suffixRank := by
    cases e <;> first | exact fun _ => rfl | exact nofun
  refine ⟨fun layer _ => h.extendable (by cases layer <;> decide), fun _ => h, ?_, ?_⟩
  · intro hsuffix
    rw [hrank] at hsuffix
    exact absurd hsuffix (by decide)
  · intro hiscall
    exact absurd (hrank.symm.trans (hcall hiscall)) (by decide)

theorem of_chain (hlinks : e.links < maxLinks)
    (h : Chainable e.printed e.bare e.links e.isMember)
    (hindexed : e.isCall = true → ∀ index : Index, index.Printable →
      Chainable (e.printed ++ index.printed) (Expr.indexed e.bare index.bare) e.links false) :
    e.Printable := by
  have hunary := h.derivable hlinks
  exact ⟨fun layer _ => hunary.extendable (by cases layer <;> decide), fun _ => hunary,
    fun _ => h, hindexed⟩

end Expr.Printable

theorem printable_null (span : Span) : (Expr.null span).Printable :=
  .of_unary rfl ⟨by rintro t (_ | ⟨_, ⟨⟩⟩); exact spelled_word .kwNull,
    .plain .null, rfl, rfl, trivial, fun _ _ => trivial⟩

theorem printable_number {text : String} (h : IsLexeme .number text) (span : Span) :
    (Expr.number text span).Printable := by
  refine .of_unary rfl ⟨?_, .plain (.number text), rfl, rfl, trivial, fun _ _ => trivial⟩
  show AllSpelled [⟨.number, text⟩]
  simp only [allSpelled_cons, allSpelled_nil, and_true]
  exact ⟨h, nofun⟩

theorem printable_string {text : String} (h : IsLexeme .string text) (span : Span) :
    (Expr.string text span).Printable := by
  refine .of_unary rfl ⟨?_, .plain (.string text), rfl, rfl, trivial, fun _ _ => trivial⟩
  show AllSpelled [⟨.string, text⟩]
  simp only [allSpelled_cons, allSpelled_nil, and_true]
  exact ⟨h, nofun⟩

theorem printable_identifier {name : String} (h : IsName name) (span : Span) :
    (Expr.identifier name span).Printable := by
  have hchain : Chainable ([identifier name] ++ Derivation.unindexed.yield)
      (.identifier name .origin) 0 false :=
    chainable_named h nofun trivial fun _ h => h
  exact .of_chain maxLinks_pos hchain nofun

theorem printable_element {name : String} {index : Index} (hname : IsName name)
    (hindex : index.Printable) (hnone : index.isNone = false) (span : Span) :
    (Expr.element (.named name) index span).Printable := by
  obtain ⟨hspelled, d, hyield, hvalue, hbounded, hgreedy⟩ := hindex
  have hchain := chainable_named hname (by rw [hyield]; exact hspelled) hbounded hgreedy
  have hofName : Expr.ofName name index.bare = .element (.named name) index.bare .origin := by
    cases index <;> first | rfl | exact nomatch hnone
  rw [hyield, hvalue, hofName] at hchain
  exact .of_chain maxLinks_pos hchain nofun

theorem printable_unary {operand : Expr} (op : UnaryOp) (h : operand.Printable) (span : Span) :
    (Expr.unary op operand span).Printable :=
  .of_unary rfl ((h.operand none).unary op)

theorem printable_binary {left right : Expr} (op : BinaryOp) (hleft : left.Printable)
    (hright : right.Printable) (span : Span) : (Expr.binary op left right span).Printable := by
  have hrank : decide (right.rank < rankOf op.layer.operands) =
      decide (right.rank ≤ op.rank) := by
    rw [rankOf_operands, op.rank_eq]
    exact decide_eq_decide.mpr Nat.lt_succ_iff
  have hoperand := hright.operand op.layer.operands
  rw [hrank] at hoperand
  have hbefore := hleft.left op.layer
  rw [← op.rank_eq] at hbefore
  have hbinary := Extendable.binary op hbefore hoperand
  have hlayer : op.rank < unaryRank := by cases op <;> decide
  refine ⟨fun layer hle => ?_, fun hle => ?_, fun hle => ?_, nofun⟩
  · -- At its own layer it goes on to the left; looser layers hold it as one operand.
    have hrank : layer.rank ≤ op.layer.rank := op.rank_eq ▸ hle
    rcases Nat.lt_or_eq_of_le hrank with hlt | heq
    · exact hbinary.derivable.extendable hlt
    · have hsame : some layer = some op.layer := rankOf_inj heq
      obtain rfl := Option.some.inj hsame
      exact hbinary
  · have hop : unaryRank ≤ op.rank := hle
    omega
  · have hop : suffixRank ≤ op.rank := hle
    have hranks : unaryRank < suffixRank := by decide
    omega

/-! ### Accessors and calls -/

/-- Calls and their indexes: the arguments are in parentheses behind the callee. -/
theorem chainable_call {args : List Expr} {index : Index} (h : Chainable ts v links false)
    (hargs : PrintableArguments args) (hindex : index.Printable) :
    Chainable (ts ++ ([symbol .leftParen] ++ printedArguments args ++ [symbol .rightParen] ++
      index.printed)) (Expr.indexed (.call v (bareArguments args) false .origin) index.bare)
      (links + 1) false := by
  obtain ⟨haspelled, a, hayield, havalue, habounded, hagreedy⟩ := hargs
  obtain ⟨hispelled, i, hiyield, hivalue, hibounded, higreedy⟩ := hindex
  refine h.link (.call a i) ?_ ?_ ?_ ⟨habounded, hibounded⟩ nofun ?_
  · rw [Derivation.yield_call, hayield, hiyield]
  · rw [← havalue, ← hivalue]
    rfl
  · simp [spelled_symbol, haspelled, hispelled]
  · intro next hbracket _
    exact ⟨hagreedy, higreedy next hbracket⟩

/-- Method calls and their indexes. -/
theorem chainable_method {name : String} {args : List Expr} {index : Index}
    (h : Chainable ts v links member) (hname : IsName name) (hargs : PrintableArguments args)
    (hindex : index.Printable) :
    Chainable (ts ++ ([symbol .dot, identifier name, symbol .leftParen] ++ printedArguments args ++
      [symbol .rightParen] ++ index.printed))
      (Expr.indexed (.method v (.call (.identifier name .origin) (bareArguments args) true .origin)
        .origin) index.bare) (links + 1) false := by
  obtain ⟨haspelled, a, hayield, havalue, habounded, hagreedy⟩ := hargs
  obtain ⟨hispelled, i, hiyield, hivalue, hibounded, higreedy⟩ := hindex
  refine h.link (.method name a i) ?_ ?_ ?_ ⟨habounded, hibounded⟩ ?_ ?_
  · rw [Derivation.yield_method, hayield, hiyield]
  · rw [← havalue, ← hivalue]
    rfl
  · simp [spelled_symbol, spelled_identifier hname, haspelled, hispelled]
  · exact fun _ _ => nofun
  · intro next hbracket _
    exact ⟨hagreedy, higreedy next hbracket⟩

theorem printable_call {callee : Expr} {args : List Expr} (hcallee : callee.Printable)
    (hargs : PrintableArguments args)
    (hlinks : (if callee.isMember then 0 else callee.links) + 1 < maxLinks) (span : Span) :
    (Expr.call callee args false span).Printable := by
  have hindexed : ∀ index : Index, index.Printable →
      Chainable ((Expr.call callee args false span).printed ++ index.printed)
        (Expr.indexed (Expr.call callee args false span).bare index.bare)
        (Expr.call callee args false span).links false := by
    intro index hindex
    have hcall := chainable_call hcallee.callee hargs hindex
    simpa only [Expr.printed, Expr.bare, Expr.links, List.append_assoc] using hcall
  have hplain := hindexed .none printable_none
  rw [Index.printed, List.append_nil] at hplain
  exact .of_chain hlinks hplain fun _ => hindexed

theorem printable_method {receiver : Expr} {name : String} {args : List Expr}
    (hreceiver : receiver.Printable) (hname : IsName name) (hargs : PrintableArguments args)
    (hlinks : receiver.links + 1 < maxLinks) (place inner span : Span) :
    (Expr.method receiver (.call (.identifier name place) args true inner) span).Printable := by
  have hindexed : ∀ index : Index, index.Printable →
      Chainable ((Expr.method receiver (.call (.identifier name place) args true inner)
          span).printed ++ index.printed)
        (Expr.indexed (Expr.method receiver (.call (.identifier name place) args true inner)
          span).bare index.bare) (receiver.links + 1) false := by
    intro index hindex
    have hcall := chainable_method hreceiver.base hname hargs hindex
    have hname : bracketed (Expr.rank (.identifier name place) < suffixRank ||
        Expr.isMember (.identifier name place)) (Expr.printed (.identifier name place)) =
        [identifier name] := rfl
    rw [Expr.printed, Expr.printed, hname]
    simpa only [Expr.bare, List.append_assoc, List.cons_append, List.nil_append] using hcall
  have hplain := hindexed .none printable_none
  rw [Index.printed, List.append_nil] at hplain
  exact .of_chain hlinks hplain fun _ => hindexed

/-- What a point selects, if it does not belong to a call. -/
theorem printable_dot {base : Expr} {member : Member} {index : Index} (hbase : base.Printable)
    (hindex : index.Printable) (hmember : match member with
      | .named name | .hash name => IsName name
      | .star => index.isNone = true
      | .callResult => False)
    (hlinks : base.links + 1 < maxLinks) (span : Span) :
    (Expr.dot base member index span).Printable := by
  obtain ⟨hspelled, d, hyield, hvalue, hbounded, hgreedy⟩ := hindex
  have hlink : Chainable (bracketed (base.rank < suffixRank) base.printed ++
      (member.printed ++ index.printed)) (.dot base.bare member index.bare .origin)
      (base.links + 1) (Expr.dot base member index span).isMember := by
    cases member with
    | named name =>
      refine hbase.base.link (.member name d) ?_ ?_ ?_ hbounded nofun ?_
      · rw [Derivation.yield_member, hyield]
        rfl
      · rw [← hvalue]
        rfl
      · simp [Member.printed, spelled_symbol, spelled_identifier hmember, hspelled]
      · intro next hbracket hparen
        refine ⟨hgreedy next hbracket, ?_⟩
        rw [hyield]
        cases index with
        | none => exact hparen rfl
        | star => exact nofun
        | entry mode expr => exact nofun
    | hash name =>
      refine hbase.base.link (.hash name d) ?_ ?_ ?_ hbounded nofun ?_
      · rw [Derivation.yield_hash, hyield]
        rfl
      · rw [← hvalue]
        rfl
      · simp [Member.printed, spelled_symbol, spelled_identifier hmember, hspelled]
      · exact fun next hbracket _ => hgreedy next hbracket
    | star =>
      cases index with
      | none =>
        refine hbase.base.link .star rfl rfl ?_ trivial nofun fun _ _ _ => trivial
        simp [Member.printed, Index.printed, spelled_symbol]
      | star => exact nomatch hmember
      | entry mode expr => exact nomatch hmember
    | callResult => exact hmember.elim
  have hstay : (Expr.dot base member index span).links = base.links + 1 := by
    cases member <;> first | rfl | exact hmember.elim
  rw [← hstay] at hlinks hlink
  refine .of_chain hlinks ?_ nofun
  rw [Expr.printed, List.append_assoc]
  exact hlink

/-- The index of a call. -/
theorem printable_callResult {base : Expr} {index : Index} (hbase : base.Printable)
    (hindex : index.Printable) (hcall : base.isCall = true) (hnone : index.isNone = false)
    (hlinks : base.links < maxLinks) (span : Span) :
    (Expr.dot base .callResult index span).Printable := by
  have hrank : ¬ base.rank < suffixRank := by
    cases base <;> first | exact Nat.lt_irrefl suffixRank | exact nomatch hcall
  have hvalue : Expr.indexed base.bare index.bare =
      .dot base.bare .callResult index.bare .origin := by
    cases index <;> first | rfl | exact nomatch hnone
  have hchain := hbase.indexed hcall index hindex
  refine .of_chain hlinks ?_ nofun
  rw [hvalue] at hchain
  rw [Expr.printed, decide_eq_false hrank, Member.printed, List.append_nil]
  exact hchain

theorem printable_descendant {base : Expr} {name : String} {index : Index} (hbase : base.Printable)
    (hname : IsName name) (hindex : index.Printable) (hlinks : base.links + 1 < maxLinks)
    (span : Span) : (Expr.descendant base name index span).Printable := by
  obtain ⟨hspelled, d, hyield, hvalue, hbounded, hgreedy⟩ := hindex
  have hlink : Chainable (bracketed (base.rank < suffixRank) base.printed ++
      ([symbol .dotDot, identifier name] ++ index.printed))
      (.descendant base.bare name index.bare .origin) (base.links + 1) false := by
    refine hbase.base.link (.descendant name d) ?_ ?_ ?_ hbounded nofun ?_
    · rw [Derivation.yield_descendant, hyield]
    · rw [← hvalue]
      rfl
    · simp [spelled_symbol, spelled_identifier hname, hspelled]
    · exact fun next hbracket _ => hgreedy next hbracket
  refine .of_chain hlinks ?_ nofun
  rw [Expr.printed, List.append_assoc]
  exact hlink

/-- An index.  An expression that starts with a sign is put in parentheses, or the sign would
be the mode. -/
theorem printable_entry {mode : IndexMode} {expr : Expr} (h : expr.Printable) :
    (Index.entry mode expr).Printable := by
  by_cases hneeded : (mode = .absolute && startsWithSign expr.printed) = true
  · refine printable_entry_of_derivable (h.parenthesized.extendable ?_).derivable ?_ ?_
    · decide
    · exact fun _ => rfl
    · rw [Index.printed, hneeded]
      rfl
  · refine printable_entry_of_derivable h.simple ?_ ?_
    · intro hmode
      rw [hmode] at hneeded
      exact Bool.eq_false_iff.mpr hneeded
    · rw [Index.printed, Bool.eq_false_iff.mpr hneeded]
      rfl

theorem Expr.Buildable.links_lt {e : Expr} (h : e.Buildable) (hcall : e.isCall = true) :
    e.links < maxLinks := by
  cases e with
  | call callee args isMethod span => exact h.2.2.1
  | method receiver call span => exact h.2.1
  | _ => exact nomatch hcall

/-! ### All expressions -/

mutual

/-- The terminals of every expression that a parser can build have a derivation for it. -/
theorem Expr.printable : (e : Expr) → e.Buildable → e.Printable
  | .null span, _ => printable_null span
  | .number _ span, h => printable_number h span
  | .string _ span, h => printable_string h span
  | .identifier _ span, h => printable_identifier h span
  | .unary op operand span, h => printable_unary op (operand.printable h) span
  | .binary op left right span, h =>
    printable_binary op (left.printable h.1) (right.printable h.2) span
  | .assign .., h => h.elim
  | .call callee args _ span, ⟨hplain, hcallee, hlinks, hargs, hlength⟩ => by
    subst hplain
    exact printable_call (callee.printable hcallee) (printableArguments args hargs hlength)
      hlinks span
  | .dot base member index span, h => by
    have hbase := base.printable h.1
    have hindex := index.printable h.2.1
    cases member with
    | named name => exact printable_dot hbase hindex h.2.2.1 h.2.2.2 span
    | hash name => exact printable_dot hbase hindex h.2.2.1 h.2.2.2 span
    | star => exact printable_dot hbase hindex h.2.2.1 h.2.2.2 span
    | callResult =>
      have hlinks := Expr.Buildable.links_lt h.1 h.2.2.1
      exact printable_callResult hbase hindex h.2.2.1 h.2.2.2 hlinks span
  | .element (.named _) index span, h =>
    printable_element h.2.2 (index.printable h.1) h.2.1 span
  | .element (.hash _) _ _, h | .element .star _ _, h | .element .callResult _ _, h =>
    h.2.2.elim
  | .descendant base _ index span, h =>
    printable_descendant (base.printable h.1) h.2.2.1 (index.printable h.2.1) h.2.2.2 span
  | .method receiver (.call (.identifier _ place) args _ inner) span,
      ⟨hreceiver, hlinks, hmethod, hname, hargs, hlength⟩ => by
    subst hmethod
    exact printable_method (receiver.printable hreceiver) hname
      (printableArguments args hargs hlength) hlinks place inner span

theorem Index.printable : (index : Index) → index.Buildable → index.Printable
  | .none, _ => printable_none
  | .star, _ => printable_star
  | .entry _ expr, h => printable_entry (expr.printable h)

theorem printableArguments : (args : List Expr) → BuildableArguments args →
    args.length ≤ maxLinks → PrintableArguments args
  | [], _, _ => printableArguments_nil
  | arg :: rest, h, hlength =>
    printableArguments_cons (arg.printable h.1).simple (printableMore rest h.2) hlength

theorem printableMore : (args : List Expr) → BuildableArguments args → PrintableMore args
  | [], _ => printableMore_nil
  | arg :: rest, h => printableMore_cons (arg.printable h.1).simple (printableMore rest h.2)

end

end FormCalc
