import FormCalc.Proofs.Grammar.Reading
import FormCalc.Proofs.Tree.Bare
import FormCalc.Tree.Grammar

/-!
# What is read can be derived

Every success of a production comes with a greedy derivation of what it read, and the tree
it gives is the tree of that derivation, apart from spans.

A production gets the parsers of its parts as arguments, so what it reads is said in the
same way: if the parts read derivations of their rules then the whole does (`reads_loop`
and the others).  `Sound` collects what the grammar ties together, and `sound` proves it by
induction on the room for nesting.  Greedy choice costs nothing here: a parser stops an
optional or repeated part only after a look at the token at hand.
-/

namespace FormCalc

open Terminal FormCalc.Parser

/-- Whether the successes of a parser are greedy derivations from a rule, with a result
that `R` relates to what the derivation stands for. -/
def Reads {α : Type} (r : Rule) (R : α → r.Value → Prop) (p : Parser α) : Prop :=
  ∀ ⦃k : Cursor⦄ ⦃x : α⦄ ⦃k' : Cursor⦄, p k = .ok (x, k') →
    ∃ d : Derivation r, k.terminals = d.yield ++ k'.terminals ∧
      d.Greedy k'.current.kind ∧ R x d.value

/-- Whether a parser reads expressions from the rule of simple expressions. -/
abbrev ReadsSimple (p : Parser Expr) : Prop := Reads .simple (fun e v => e.bare = v) p

/-- Whether a parser reads lists of statements. -/
abbrev ReadsStatements (p : Parser (List Stmt)) : Prop :=
  Reads .statements (fun stmts v => bareStmts stmts = v) p

/-- Whether a parser reads statements. -/
abbrev ReadsStatement (p : Parser Stmt) : Prop := Reads .statement (fun s v => s.bare = v) p

/-- Whether a parser reads expressions in parentheses. -/
abbrev ReadsGroup (p : Parser Expr) : Prop := Reads .group (fun e v => e.bare = v) p

/-- Whether a parser reads blocks. -/
abbrev ReadsBlock (p : Parser Block) : Prop :=
  Reads .statements (fun b v => b.bare = .mk v .origin) p

/-- Whether a parser reads indexes. -/
abbrev ReadsIndex (p : Parser Index) : Prop := Reads .index (fun i v => i.bare = v) p

namespace Production

variable {list : Parser (List Stmt)} {body : Parser Block} {value cond : Parser Expr}
  {bracket : Parser Index}

/-! ### Statements -/

theorem reads_block (hlist : ReadsStatements list) : ReadsBlock (block list) := by
  intro k x k' h
  unfold block at h
  rw [here_bind] at h
  obtain ⟨stmts, k₁, hstmts, h⟩ := bind_eq_ok.mp h
  rw [spanFrom_bind] at h
  obtain ⟨rfl, rfl⟩ := Prod.mk.inj (pure_eq_ok.mp h)
  obtain ⟨d, hterminals, hgreedy, hvalue⟩ := hlist hstmts
  exact ⟨d, hterminals, hgreedy, congrArg (Block.mk · .origin) hvalue⟩

theorem reads_loop (hcond : ReadsGroup cond) (hbody : ReadsBlock body) :
    ReadsStatement (loop cond body) := by
  intro k x k' h
  simp only [loop, here_bind, bind_eq_ok, spanFrom_bind, pure_eq_ok, Prod.mk.injEq] at h
  obtain ⟨_, k₁, hwhile, e, k₂, he, _, k₃, hdo, b, k₄, hb, _, k₅, hend, rfl, rfl⟩ := h
  obtain ⟨c, hc, hgc, hvc⟩ := hcond he
  obtain ⟨l, hl, hgl, hvl⟩ := hbody hb
  obtain ⟨-, hwhile⟩ := word_ok hwhile
  obtain ⟨hkdo, hdo⟩ := word_ok hdo
  obtain ⟨hkend, hend⟩ := word_ok hend
  rw [hkdo] at hgc
  rw [hkend] at hgl
  refine ⟨.loop c l, ?_, ⟨hgc, hgl⟩, ?_⟩
  · simp [hwhile, hc, hdo, hl, hend]
  · show Stmt.loop e.bare b.bare .origin = .loop c.value (.mk l.value .origin) .origin
    rw [hvc, hvl]

theorem roundsAfter_names {n : Nat} {k k' : Cursor} {names : List String}
    (h : roundsAfter (.symbol .comma) name n k = .ok (names, k')) :
    k.terminals = commaNames names ++ k'.terminals := by
  induction n generalizing k names with
  | zero =>
    obtain ⟨rfl, rfl⟩ := Prod.mk.inj (pure_eq_ok.mp h)
    rfl
  | succ n ih =>
    rw [roundsAfter] at h
    obtain ⟨b, k₁, hcomma, hround⟩ := bind_eq_ok.mp h
    rcases accept_ok rfl hcomma with ⟨rfl, -, hcomma⟩ | ⟨rfl, -, rfl⟩
    · simp only [↓reduceIte, bind_eq_ok, pure_eq_ok, Prod.mk.injEq] at hround
      obtain ⟨first, k₂, hfirst, more, k₃, hmore, rfl, rfl⟩ := hround
      rw [hcomma, name_ok hfirst, ih hmore]
      rfl
    · obtain ⟨rfl, rfl⟩ := Prod.mk.inj (pure_eq_ok.mp hround)
      rfl

theorem parameters_ok {k k' : Cursor} {names : List String}
    (h : parameters k = .ok (names, k')) : k.terminals = nameList names ++ k'.terminals := by
  unfold parameters at h
  rw [peek_bind] at h
  split at h
  · obtain ⟨rfl, rfl⟩ := Prod.mk.inj (pure_eq_ok.mp h)
    rfl
  · simp only [bind_eq_ok, pure_eq_ok, Prod.mk.injEq] at h
    obtain ⟨first, k₁, hfirst, more, k₂, hmore, rfl, rfl⟩ := h
    rw [eachAfter, get_bind] at hmore
    rw [name_ok hfirst, roundsAfter_names hmore]
    rfl

theorem reads_function (hlist : ReadsStatements list) : ReadsStatement (function list) := by
  intro k x k' h
  simp only [function, here_bind, bind_eq_ok, spanFrom_bind, pure_eq_ok, Prod.mk.injEq] at h
  obtain ⟨_, k₁, hfunc, n, k₂, hn, _, k₃, hopen, params, k₄, hparams, _, k₅, hclose, _, k₆, hdo,
    stmts, k₇, hstmts, _, k₈, hend, rfl, rfl⟩ := h
  obtain ⟨l, hl, hgl, hvl⟩ := hlist hstmts
  obtain ⟨hkend, hend⟩ := word_ok hend
  rw [hkend] at hgl
  refine ⟨.function n params l, ?_, hgl, ?_⟩
  · simp [(word_ok hfunc).2, name_ok hn, (symbol_ok hopen).2, parameters_ok hparams,
      (symbol_ok hclose).2, (word_ok hdo).2, hl, hend]
  · show Stmt.function n params (bareStmts stmts) .origin = .function n params l.value .origin
    rw [hvl]

theorem reads_optional {mark : Kind} (hvaries : mark.varies = false)
    (hvalue : ReadsSimple value) :
    Reads (.optional mark) (fun o v => o.map Expr.bare = v) (optional mark value) := by
  intro k x k' h
  unfold optional at h
  obtain ⟨b, k₁, hmark, hpart⟩ := bind_eq_ok.mp h
  rcases accept_ok hvaries hmark with ⟨rfl, -, hmark⟩ | ⟨rfl, hkind, rfl⟩
  · simp only [↓reduceIte, bind_eq_ok, pure_eq_ok, Prod.mk.injEq] at hpart
    obtain ⟨e, k₂, he, rfl, rfl⟩ := hpart
    obtain ⟨d, hd, hgd, hvd⟩ := hvalue he
    refine ⟨.present d, ?_, hgd, congrArg some hvd⟩
    simp [hmark, hd]
  · obtain ⟨rfl, rfl⟩ := Prod.mk.inj (pure_eq_ok.mp hpart)
    exact ⟨.absent, rfl, hkind, rfl⟩

theorem reads_var (hvalue : ReadsSimple value) : ReadsStatement (var value) := by
  intro k x k' h
  simp only [var, here_bind, bind_eq_ok, spanFrom_bind, pure_eq_ok, Prod.mk.injEq] at h
  obtain ⟨_, k₁, hvar, n, k₂, hn, init, k₃, hinit, rfl, rfl⟩ := h
  obtain ⟨d, hd, hgd, hvd⟩ := reads_optional rfl hvalue hinit
  refine ⟨.var n d, ?_, hgd, ?_⟩
  · simp [(word_ok hvar).2, name_ok hn, hd]
  · show Stmt.var n (init.map Expr.bare) .origin = .var n d.value .origin
    rw [hvd]

theorem reads_assignment (hvalue : ReadsSimple value) : ReadsStatement (assignment value) := by
  intro k x k' h
  simp only [assignment, here_bind, bind_eq_ok] at h
  obtain ⟨target, k₁, htarget, b, k₂, hassign, h⟩ := h
  obtain ⟨t, ht, hgt, hvt⟩ := hvalue htarget
  rcases accept_ok rfl hassign with ⟨rfl, hkind, hassign⟩ | ⟨rfl, hkind, rfl⟩
  · simp only [↓reduceIte, bind_eq_ok, spanFrom_bind, pure_eq_ok, Prod.mk.injEq] at h
    obtain ⟨e, k₃, he, rfl, rfl⟩ := h
    obtain ⟨d, hd, hgd, hvd⟩ := hvalue he
    rw [hkind] at hgt
    refine ⟨.expr t (.present d), ?_, ⟨hgt, hgd⟩, ?_⟩
    · simp [ht, hassign, hd]
    · show Stmt.expr (.assign target.bare e.bare .origin) .origin =
        .expr (.assign t.value d.value .origin) .origin
      rw [hvt, hvd]
  · simp only [Bool.false_eq_true, ↓reduceIte, spanFrom_bind, pure_eq_ok, Prod.mk.injEq] at h
    obtain ⟨rfl, rfl⟩ := h
    refine ⟨.expr t .absent, ?_, ⟨hgt, hkind⟩, ?_⟩
    · simp [ht]
    · show Stmt.expr target.bare .origin = .expr t.value .origin
      rw [hvt]

/-- What `arm` reads: a condition in parentheses and a block, with `then` between them. -/
theorem arm_ok (hcond : ReadsGroup cond) (hbody : ReadsBlock body) {k k' : Cursor} {e : Expr}
    {b : Block} (h : arm cond body k = .ok ((e, b), k')) :
    ∃ (c : Derivation .group) (l : Derivation .statements),
      k.terminals = c.yield ++ Terminal.word .kwThen :: (l.yield ++ k'.terminals) ∧
        c.Greedy (.keyword .kwThen) ∧ l.Greedy k'.current.kind ∧ e.bare = c.value ∧
          b.bare = .mk l.value .origin := by
  simp only [arm, bind_eq_ok, pure_eq_ok, Prod.mk.injEq] at h
  obtain ⟨e, k₁, he, _, k₂, hthen, b, k₃, hb, ⟨rfl, rfl⟩, rfl⟩ := h
  obtain ⟨c, hc, hgc, hvc⟩ := hcond he
  obtain ⟨l, hl, hgl, hvl⟩ := hbody hb
  obtain ⟨hkthen, hthen⟩ := word_ok hthen
  rw [hkthen] at hgc
  exact ⟨c, l, by rw [hc, hthen, hl], hgc, hgl, hvc, hvl⟩

/-- The arms behind `elseif` extend a derivation of what stands behind them. -/
theorem roundsAfter_arms (hcond : ReadsGroup cond) (hbody : ReadsBlock body) {n : Nat}
    {k k' : Cursor} {arms : List (Expr × Block)}
    (h : roundsAfter (.keyword .kwElseif) (arm cond body) n k = .ok (arms, k'))
    {last : Option Block} {tail : Derivation .otherwise} {next : Kind} {rest : List Terminal}
    (htail : k'.terminals = tail.yield ++ rest) (hgreedy : tail.Greedy next)
    (hnext : ahead rest .endOfInput = next)
    (hvalue : (otherwise last []).bare = tail.value) :
    ∃ d : Derivation .otherwise, k.terminals = d.yield ++ rest ∧ d.Greedy next ∧
      (otherwise last arms).bare = d.value := by
  induction n generalizing k arms with
  | zero =>
    obtain ⟨rfl, rfl⟩ := Prod.mk.inj (pure_eq_ok.mp h)
    exact ⟨tail, htail, hgreedy, hvalue⟩
  | succ n ih =>
    rw [roundsAfter] at h
    obtain ⟨b, k₁, hmark, hround⟩ := bind_eq_ok.mp h
    rcases accept_ok rfl hmark with ⟨rfl, -, hmark⟩ | ⟨rfl, -, rfl⟩
    · simp only [↓reduceIte, bind_eq_ok, pure_eq_ok, Prod.mk.injEq] at hround
      obtain ⟨⟨e, b⟩, k₂, hfirst, more, k₃, hmore, rfl, rfl⟩ := hround
      obtain ⟨d, hd, hgd, hvd⟩ := ih hmore
      obtain ⟨c, l, hcl, hgc, hgl, hvc, hvl⟩ := arm_ok hcond hbody hfirst
      have hahead : ahead d.yield next = k₂.current.kind := by
        rw [← Cursor.ahead_terminals k₂ .endOfInput, hd, ahead_append, hnext]
      refine ⟨.elseIf c l d, ?_, ⟨hgc, by rwa [hahead], hgd⟩, ?_⟩
      · simp [hmark, hcl, hd]
      · show Otherwise.elseIf e.bare b.bare (otherwise last more).bare =
          .elseIf c.value (.mk l.value .origin) d.value
        rw [hvc, hvl, hvd]
    · obtain ⟨rfl, rfl⟩ := Prod.mk.inj (pure_eq_ok.mp hround)
      exact ⟨tail, htail, hgreedy, hvalue⟩

theorem reads_branch (hcond : ReadsGroup cond) (hbody : ReadsBlock body) :
    ReadsStatement (branch cond body) := by
  intro k x k' h
  simp only [branch, here_bind, bind_eq_ok] at h
  obtain ⟨_, k₁, hif, ⟨e, b⟩, k₂, hfirst, arms, k₃, harms, els, k₄, helse, hlast⟩ := h
  obtain ⟨c, l, hcl, hgc, hgl, hvc, hvl⟩ := arm_ok hcond hbody hfirst
  rw [eachAfter, get_bind] at harms
  -- The block behind `else`, if there is one, is the end of the arms.
  have hrest : ∃ (last : Option Block) (tail : Derivation .otherwise) (k₅ : Cursor),
      k₃.terminals = tail.yield ++ k₅.terminals ∧ tail.Greedy (.keyword .kwEndif) ∧
        (otherwise last []).bare = tail.value ∧ k₅.current.kind = .keyword .kwEndif ∧
          k₅.terminals = Terminal.word .kwEndif :: k'.terminals ∧
            x.bare = .branch e.bare b.bare (otherwise last arms).bare .origin := by
    rcases accept_ok rfl helse with ⟨rfl, -, helse⟩ | ⟨rfl, -, rfl⟩
    · simp only [↓reduceIte, bind_eq_ok, spanFrom_bind, pure_eq_ok, Prod.mk.injEq] at hlast
      obtain ⟨body', k₅, hbody', _, _, ⟨rfl, rfl⟩, _, k₆, hend, rfl, rfl⟩ := hlast
      obtain ⟨m, hm, hgm, hvm⟩ := hbody hbody'
      obtain ⟨hkend, hend⟩ := word_ok hend
      rw [hkend] at hgm
      refine ⟨some body', .last m, k₅, ?_, hgm, congrArg Otherwise.last hvm, hkend, hend, rfl⟩
      simp [helse, hm]
    · simp only [Bool.false_eq_true, ↓reduceIte, bind_eq_ok, spanFrom_bind, pure_eq_ok,
        Prod.mk.injEq] at hlast
      obtain ⟨_, _, ⟨rfl, rfl⟩, _, k₅, hend, rfl, rfl⟩ := hlast
      obtain ⟨hkend, hend⟩ := word_ok hend
      exact ⟨none, .nothing, k₄, rfl, ⟨by simp, by simp⟩, rfl, hkend, hend, rfl⟩
  obtain ⟨last, tail, k₅, htail, hgt, hvt, hkend, hend, hx⟩ := hrest
  obtain ⟨d, hd, hgd, hvd⟩ := roundsAfter_arms hcond hbody harms htail hgt
    (by rw [Cursor.ahead_terminals, hkend]) hvt
  have hahead : ahead d.yield (.keyword .kwEndif) = k₂.current.kind := by
    rw [← hkend]
    exact Cursor.ahead_eq hd
  refine ⟨.branch c l d, ?_, ⟨hgc, by rwa [hahead], hgd⟩, ?_⟩
  · simp [(word_ok hif).2, hcl, hd, hend]
  · show x.bare = .branch c.value (.mk l.value .origin) d.value .origin
    rw [hx, hvc, hvl, hvd]

theorem direction_ok {k k' : Cursor} {way : Direction} (h : direction k = .ok (way, k')) :
    k.current.kind = .keyword way.keyword ∧
      k.terminals = Terminal.word way.keyword :: k'.terminals := by
  unfold direction at h
  rw [current_bind] at h
  generalize hkind : k.current.kind = kind at h
  split at h
  · simp only [bind_eq_ok, pure_eq_ok, Prod.mk.injEq] at h
    obtain ⟨token, k₁, htoken, rfl, rfl⟩ := h
    obtain ⟨rfl, hterminals⟩ := advance_ok htoken
    exact ⟨rfl, by rw [hterminals, terminal_of_kind hkind rfl]; rfl⟩
  · simp only [bind_eq_ok, pure_eq_ok, Prod.mk.injEq] at h
    obtain ⟨token, k₁, htoken, rfl, rfl⟩ := h
    obtain ⟨rfl, hterminals⟩ := advance_ok htoken
    exact ⟨rfl, by rw [hterminals, terminal_of_kind hkind rfl]; rfl⟩
  · cases h

theorem reads_count (hvalue : ReadsSimple value) (hbody : ReadsBlock body) :
    ReadsStatement (count value body) := by
  intro k x k' h
  simp only [count, here_bind, bind_eq_ok, spanFrom_bind, pure_eq_ok, Prod.mk.injEq] at h
  obtain ⟨_, k₁, hfor, n, k₂, hn, _, k₃, hassign, first, k₄, hfirst, way, k₅, hway, final, k₆,
    hfinal, step, k₇, hstep, _, k₈, hdo, b, k₉, hb, _, k₁₀, hend, rfl, rfl⟩ := h
  obtain ⟨a, ha, hga, hva⟩ := hvalue hfirst
  obtain ⟨z, hz, hgz, hvz⟩ := hvalue hfinal
  obtain ⟨t, ht, hgt, hvt⟩ := reads_optional rfl hvalue hstep
  obtain ⟨l, hl, hgl, hvl⟩ := hbody hb
  obtain ⟨hkway, hway⟩ := direction_ok hway
  obtain ⟨hkdo, hdo⟩ := word_ok hdo
  obtain ⟨hkend, hend⟩ := word_ok hend
  rw [hkway] at hga
  rw [← Cursor.ahead_eq ht, hkdo] at hgz
  rw [hkdo] at hgt
  rw [hkend] at hgl
  refine ⟨.count n a way z t l, ?_, ⟨hga, hgz, hgt, hgl⟩, ?_⟩
  · simp [(word_ok hfor).2, name_ok hn, (symbol_ok hassign).2, ha, hway, hz, ht, hdo, hl, hend]
  · show Stmt.count n first.bare final.bare way (step.map Expr.bare) b.bare .origin =
      .count n a.value z.value way t.value (.mk l.value .origin) .origin
    rw [hva, hvz, hvt, hvl]

end Production

/-! ### Arguments -/

/-- Arguments behind commas, up to the closing parenthesis. -/
theorem reads_moreArguments {item : Parser Expr} (hitem : ReadsSimple item) (left : Nat) :
    Reads .moreArguments (fun es v => bareArguments es = v)
      (argumentsUpTo item left (symbol .comma)) := by
  induction left with
  | zero =>
    intro k x k' h
    rw [argumentsUpTo, peek_bind] at h
    split at h
    · rename_i hkind
      obtain ⟨rfl, rfl⟩ := Prod.mk.inj (pure_eq_ok.mp h)
      exact ⟨.noMore, rfl, by rw [hkind]; exact nofun, rfl⟩
    · simp [bind_eq_ok] at h
  | succ left ih =>
    intro k x k' h
    rw [argumentsUpTo, peek_bind] at h
    split at h
    · rename_i hkind
      obtain ⟨rfl, rfl⟩ := Prod.mk.inj (pure_eq_ok.mp h)
      exact ⟨.noMore, rfl, by rw [hkind]; exact nofun, rfl⟩
    · simp only [bind_eq_ok, pure_eq_ok, Prod.mk.injEq] at h
      obtain ⟨_, k₁, hcomma, e, k₂, he, es, k₃, hes, rfl, rfl⟩ := h
      obtain ⟨d, hd, hgd, hvd⟩ := hitem he
      obtain ⟨m, hm, hgm, hvm⟩ := ih hes
      rw [← Cursor.ahead_eq hm] at hgd
      refine ⟨.oneMore d m, ?_, ⟨hgd, hgm⟩, ?_⟩
      · simp [(symbol_ok hcomma).2, hd, hm]
      · show e.bare :: bareArguments es = d.value :: m.value
        rw [hvd, hvm]

/-- Arguments between parentheses. -/
theorem arguments_ok {item : Parser Expr} (hitem : ReadsSimple item) {k k' : Cursor}
    {args : List Expr} (h : arguments item k = .ok (args, k')) :
    ∃ d : Derivation .arguments,
      k.terminals = Terminal.symbol .leftParen ::
        (d.yield ++ Terminal.symbol .rightParen :: k'.terminals) ∧
      d.Greedy (.symbol .rightParen) ∧ bareArguments args = d.value := by
  simp only [arguments, bind_eq_ok, pure_eq_ok, Prod.mk.injEq] at h
  obtain ⟨_, k₁, hopen, args, k₂, hargs, _, k₃, hclose, rfl, rfl⟩ := h
  obtain ⟨-, hopen⟩ := symbol_ok hopen
  obtain ⟨hkclose, hclose⟩ := symbol_ok hclose
  unfold maxLinks at hargs
  rw [argumentsUpTo, peek_bind] at hargs
  split at hargs
  · obtain ⟨rfl, rfl⟩ := Prod.mk.inj (pure_eq_ok.mp hargs)
    exact ⟨.noArguments, by rw [hopen, hclose]; rfl, rfl, rfl⟩
  · simp only [pure_bind_apply, bind_eq_ok, pure_eq_ok, Prod.mk.injEq] at hargs
    obtain ⟨e, k₄, he, es, k₅, hes, rfl, rfl⟩ := hargs
    obtain ⟨d, hd, hgd, hvd⟩ := hitem he
    obtain ⟨m, hm, hgm, hvm⟩ := reads_moreArguments hitem _ hes
    rw [← Cursor.ahead_eq hm, hkclose] at hgd
    rw [hkclose] at hgm
    refine ⟨.someArguments d m, ?_, ⟨hgd, hgm⟩, ?_⟩
    · simp [hopen, hd, hm, hclose]
    · show e.bare :: bareArguments es = d.value :: m.value
      rw [hvd, hvm]

namespace Production

variable {list : Parser (List Stmt)} {body : Parser Block} {value cond : Parser Expr}
  {bracket : Parser Index}

theorem reads_each (hvalue : ReadsSimple value) (hbody : ReadsBlock body) :
    ReadsStatement (each value body) := by
  intro k x k' h
  simp only [each, here_bind, bind_eq_ok] at h
  obtain ⟨_, k₁, heach, n, k₂, hn, _, k₃, hin, args, k₄, hargs, hrest⟩ := h
  obtain ⟨d, hd, hgd, hvd⟩ := arguments_ok hvalue hargs
  split at hrest
  · simp [get_bind, fail_bind] at hrest
  · rename_i hne
    simp only [bind_eq_ok, spanFrom_bind, pure_eq_ok, Prod.mk.injEq] at hrest
    obtain ⟨_, k₅, hdo, b, k₆, hb, _, k₇, hend, rfl, rfl⟩ := hrest
    obtain ⟨l, hl, hgl, hvl⟩ := hbody hb
    obtain ⟨hkend, hend⟩ := word_ok hend
    rw [hkend] at hgl
    cases d with
    | noArguments =>
      -- An empty list of collections has been refused.
      cases args with
      | nil => exact absurd rfl hne
      | cons arg rest => cases hvd
    | someArguments first more =>
      refine ⟨.each n first more l, ?_, ⟨hgd.1, hgd.2, hgl⟩, ?_⟩
      · simp [(word_ok heach).2, name_ok hn, (word_ok hin).2, hd, (word_ok hdo).2, hl, hend]
      · show Stmt.each n (bareArguments args) b.bare .origin =
          .each n (first.value :: more.value) (.mk l.value .origin) .origin
        rw [hvd, hvl]
        rfl

theorem reads_scope (hbody : ReadsBlock body) : ReadsStatement (scope body) := by
  intro k x k' h
  simp only [scope, here_bind, bind_eq_ok, spanFrom_bind, pure_eq_ok, Prod.mk.injEq] at h
  obtain ⟨_, k₁, hdo, b, k₂, hb, _, k₃, hend, rfl, rfl⟩ := h
  obtain ⟨l, hl, hgl, hvl⟩ := hbody hb
  obtain ⟨hkend, hend⟩ := word_ok hend
  rw [hkend] at hgl
  refine ⟨.scope l, ?_, hgl, ?_⟩
  · simp [(word_ok hdo).2, hl, hend]
  · show Stmt.scope b.bare .origin = .scope (.mk l.value .origin) .origin
    rw [hvl]

/-- A statement of one word reads that word. -/
theorem single_ok {stmt : Span → Stmt} {k k' : Cursor} {x : Stmt}
    (h : single stmt k = .ok (x, k')) :
    k.terminals = k.current.terminal :: k'.terminals ∧ ∃ span, x = stmt span := by
  simp only [single, here_bind, bind_eq_ok, spanFrom_bind, pure_eq_ok, Prod.mk.injEq] at h
  obtain ⟨token, k₁, htoken, rfl, rfl⟩ := h
  obtain ⟨rfl, hterminals⟩ := advance_ok htoken
  exact ⟨hterminals, _, rfl⟩

/-! ### Expressions -/

theorem reads_unary {operand primary : Parser Expr}
    (hoperand : Reads (.layer none) (fun e v => e.bare = v) operand)
    (hprimary : Reads .primary (fun e v => e.bare = v) primary) :
    Reads (.layer none) (fun e v => e.bare = v) (unary operand primary) := by
  intro k x k' h
  simp only [unary, here_bind, peek_bind] at h
  cases hop : UnaryOp.ofKind? k.current.kind with
  | none =>
    rw [hop] at h
    obtain ⟨d, hd, hgd, hvd⟩ := hprimary h
    exact ⟨.plain d, hd, hgd, hvd⟩
  | some op =>
    rw [hop] at h
    simp only [bind_eq_ok, spanFrom_bind, pure_eq_ok, Prod.mk.injEq] at h
    obtain ⟨token, k₁, htoken, e, k₂, he, rfl, rfl⟩ := h
    obtain ⟨rfl, hterminals⟩ := advance_ok htoken
    obtain ⟨d, hd, hgd, hvd⟩ := hoperand he
    refine ⟨.unary op d, ?_, hgd, ?_⟩
    · rw [hterminals, terminal_of_kind (UnaryOp.kind_of_ofKind? hop) (UnaryOp.varies_kind op), hd]
      rfl
    · show Expr.unary op e.bare .origin = .unary op d.value .origin
      rw [hvd]

theorem reads_parenthesized (hvalue : ReadsSimple value) : ReadsGroup (parenthesized value) := by
  intro k x k' h
  simp only [parenthesized, bind_eq_ok, current_bind] at h
  obtain ⟨opening, k₁, hopen, h⟩ := h
  split at h
  · exact nomatch h
  · simp only [bind_eq_ok, pure_eq_ok, Prod.mk.injEq] at h
    obtain ⟨e, k₂, he, _, k₃, hclose, rfl, rfl⟩ := h
    obtain ⟨d, hd, hgd, hvd⟩ := hvalue he
    obtain ⟨hkclose, hclose⟩ := symbol_ok hclose
    obtain ⟨-, hkopen, hopen⟩ := expect_ok hopen
    rw [hkclose] at hgd
    refine ⟨.group d, ?_, hgd, hvd⟩
    rw [hopen, terminal_of_kind hkopen rfl, hd, hclose]
    simp

theorem reads_index (hvalue : ReadsSimple value) : ReadsIndex (index value) := by
  intro k x k' h
  simp only [index, bind_eq_ok, peek_bind] at h
  obtain ⟨_, k₁, hopen, i, k₂, hi, _, k₃, hclose, h⟩ := h
  obtain ⟨rfl, rfl⟩ := Prod.mk.inj (pure_eq_ok.mp h)
  obtain ⟨-, hopen⟩ := symbol_ok hopen
  obtain ⟨hkclose, hclose⟩ := symbol_ok hclose
  generalize hkind : k₁.current.kind = kind at hi
  split at hi
  · simp only [bind_eq_ok, pure_eq_ok, Prod.mk.injEq] at hi
    obtain ⟨token, k₄, htoken, rfl, rfl⟩ := hi
    obtain ⟨rfl, hstar⟩ := advance_ok htoken
    rw [terminal_of_kind hkind rfl] at hstar
    exact ⟨.every, by rw [hopen, hstar, hclose]; rfl, trivial, rfl⟩
  · simp only [bind_eq_ok, pure_eq_ok, Prod.mk.injEq] at hi
    obtain ⟨token, k₄, htoken, e, k₅, he, rfl, rfl⟩ := hi
    obtain ⟨rfl, hsign⟩ := advance_ok htoken
    rw [terminal_of_kind hkind rfl] at hsign
    obtain ⟨d, hd, hgd, hvd⟩ := hvalue he
    rw [hkclose] at hgd
    refine ⟨.entry .forward d, ?_, ⟨hgd, by simp⟩, congrArg (Index.entry .forward) hvd⟩
    simp [hopen, hsign, hd, hclose, IndexMode.sign]
  · simp only [bind_eq_ok, pure_eq_ok, Prod.mk.injEq] at hi
    obtain ⟨token, k₄, htoken, e, k₅, he, rfl, rfl⟩ := hi
    obtain ⟨rfl, hsign⟩ := advance_ok htoken
    rw [terminal_of_kind hkind rfl] at hsign
    obtain ⟨d, hd, hgd, hvd⟩ := hvalue he
    rw [hkclose] at hgd
    refine ⟨.entry .backward d, ?_, ⟨hgd, by simp⟩, congrArg (Index.entry .backward) hvd⟩
    simp [hopen, hsign, hd, hclose, IndexMode.sign]
  · rename_i hstar hplus hminus
    simp only [bind_eq_ok, pure_eq_ok, Prod.mk.injEq] at hi
    obtain ⟨e, k₄, he, rfl, rfl⟩ := hi
    obtain ⟨d, hd, hgd, hvd⟩ := hvalue he
    have hahead := Cursor.ahead_eq hd
    rw [hkclose] at hgd hahead
    refine ⟨.entry .absolute d, ?_, ⟨hgd, fun _ sign hsign => ?_⟩,
      congrArg (Index.entry .absolute) hvd⟩
    · simp [hopen, hd, hclose, IndexMode.sign]
    · rw [hahead, hkind]
      simp only [List.mem_cons, List.not_mem_nil, or_false] at hsign
      rcases hsign with rfl | rfl
      · exact hplus
      · exact hminus

/-- Whether a parser reads an index where there is one. -/
theorem reads_optionalIndex (hindex : ReadsIndex bracket) :
    Reads .optionalIndex (fun i v => i.bare = v) (optionalIndex bracket) := by
  intro k x k' h
  simp only [optionalIndex, peek_bind] at h
  split at h
  · obtain ⟨d, hd, hgd, hvd⟩ := hindex h
    exact ⟨.indexed d, hd, hgd, hvd⟩
  · rename_i hkind
    obtain ⟨rfl, rfl⟩ := Prod.mk.inj (pure_eq_ok.mp h)
    exact ⟨.unindexed, rfl, hkind, rfl⟩

/-- An index in brackets is not the index that says there are none. -/
theorem indexed_value (call : Expr) (i : Derivation .index) :
    Expr.indexed call i.value = .dot call .callResult i.value .origin := by
  cases i <;> rfl

theorem ofName_value (name : String) (i : Derivation .index) :
    Expr.ofName name i.value = .element (.named name) i.value .origin := by
  cases i <;> rfl

/-- What `indexedCall` reads behind a call: an index, if there is one. -/
theorem indexedCall_ok (hindex : ReadsIndex bracket) {call x : Expr} {k k' : Cursor}
    (h : indexedCall bracket call k = .ok (x, k')) :
    ∃ d : Derivation .optionalIndex, k.terminals = d.yield ++ k'.terminals ∧
      d.Greedy k'.current.kind ∧ x.bare = Expr.indexed call.bare d.value := by
  simp only [indexedCall, peek_bind] at h
  split at h
  · simp only [bind_eq_ok, spanFrom_bind, pure_eq_ok, Prod.mk.injEq] at h
    obtain ⟨i, k₁, hi, rfl, rfl⟩ := h
    obtain ⟨d, hd, hgd, hvd⟩ := hindex hi
    refine ⟨.indexed d, hd, hgd, ?_⟩
    show Expr.dot call.bare .callResult i.bare .origin = Expr.indexed call.bare d.value
    rw [indexed_value, hvd]
  · rename_i hkind
    obtain ⟨rfl, rfl⟩ := Prod.mk.inj (pure_eq_ok.mp h)
    exact ⟨.unindexed, rfl, hkind, rfl⟩

/-- What one look for a suffix finds: nothing, where none can start, or a suffix. -/
def FindsSuffix (k k' : Cursor) (base : Expr) : Option Expr → Prop
  | none => k' = k ∧ k.current.kind.startsSuffix = false
  | some e => ∃ d : Derivation .suffix, k.terminals = d.yield ++ k'.terminals ∧
      d.Greedy k'.current.kind ∧ e.bare = d.value base.bare

theorem suffix_ok (hvalue : ReadsSimple value) (hindex : ReadsIndex bracket) {base : Expr}
    {k k' : Cursor} {o : Option Expr} (h : suffix value bracket base k = .ok (o, k')) :
    FindsSuffix k k' base o := by
  simp only [suffix, peek_bind] at h
  generalize hkind : k.current.kind = kind at h
  split at h
  · simp only [bind_eq_ok, spanFrom_bind, pure_eq_ok, Prod.mk.injEq] at h
    obtain ⟨args, k₁, hargs, e, k₂, he, rfl, rfl⟩ := h
    obtain ⟨a, ha, hga, hva⟩ := arguments_ok hvalue hargs
    obtain ⟨i, hi, hgi, hvi⟩ := indexedCall_ok hindex he
    refine ⟨.call a i, ?_, ⟨hga, hgi⟩, ?_⟩
    · simp [ha, hi]
    · rw [hvi]
      show Expr.indexed (.call base.bare (bareArguments args) false .origin) _ = _
      rw [hva]
      rfl
  · simp only [bind_eq_ok, peek_bind] at h
    obtain ⟨token, k₁, htoken, member, k₂, hmember, h⟩ := h
    obtain ⟨rfl, hdot⟩ := advance_ok htoken
    rw [terminal_of_kind hkind rfl] at hdot
    have hname := identifier_ok hmember
    split at h
    · simp only [bind_eq_ok, spanFrom_bind, pure_eq_ok, Prod.mk.injEq] at h
      obtain ⟨args, k₃, hargs, e, k₄, he, rfl, rfl⟩ := h
      obtain ⟨a, ha, hga, hva⟩ := arguments_ok hvalue hargs
      obtain ⟨i, hi, hgi, hvi⟩ := indexedCall_ok hindex he
      refine ⟨.method member.text a i, ?_, ⟨hga, hgi⟩, ?_⟩
      · simp [hdot, hname, ha, hi]
      · rw [hvi]
        show Expr.indexed (.method base.bare (.call (.identifier member.text .origin)
          (bareArguments args) true .origin) .origin) _ = _
        rw [hva]
        rfl
    · rename_i hparen
      simp only [bind_eq_ok, spanFrom_bind, pure_eq_ok, Prod.mk.injEq] at h
      obtain ⟨i, k₃, hi, rfl, rfl⟩ := h
      obtain ⟨d, hd, hgd, hvd⟩ := reads_optionalIndex hindex hi
      refine ⟨.member member.text d, ?_, ⟨hgd, ?_⟩, ?_⟩
      · simp [hdot, hname, hd]
      · rwa [Cursor.ahead_eq hd]
      · show Expr.dot base.bare (.named member.text) i.bare .origin =
          .dot base.bare (.named member.text) d.value .origin
        rw [hvd]
  · simp only [bind_eq_ok, spanFrom_bind, pure_eq_ok, Prod.mk.injEq] at h
    obtain ⟨token, k₁, htoken, n, k₂, hn, i, k₃, hi, rfl, rfl⟩ := h
    obtain ⟨rfl, hdots⟩ := advance_ok htoken
    rw [terminal_of_kind hkind rfl] at hdots
    obtain ⟨d, hd, hgd, hvd⟩ := reads_optionalIndex hindex hi
    refine ⟨.descendant n d, ?_, hgd, ?_⟩
    · simp [hdots, name_ok hn, hd]
    · show Expr.descendant base.bare n i.bare .origin = .descendant base.bare n d.value .origin
      rw [hvd]
  · simp only [bind_eq_ok, spanFrom_bind, pure_eq_ok, Prod.mk.injEq] at h
    obtain ⟨token, k₁, htoken, n, k₂, hn, i, k₃, hi, rfl, rfl⟩ := h
    obtain ⟨rfl, hhash⟩ := advance_ok htoken
    rw [terminal_of_kind hkind rfl] at hhash
    obtain ⟨d, hd, hgd, hvd⟩ := reads_optionalIndex hindex hi
    refine ⟨.hash n d, ?_, hgd, ?_⟩
    · simp [hhash, name_ok hn, hd]
    · show Expr.dot base.bare (.hash n) i.bare .origin = .dot base.bare (.hash n) d.value .origin
      rw [hvd]
  · simp only [bind_eq_ok, spanFrom_bind, pure_eq_ok, Prod.mk.injEq] at h
    obtain ⟨token, k₁, htoken, rfl, rfl⟩ := h
    obtain ⟨rfl, hstar⟩ := advance_ok htoken
    rw [terminal_of_kind hkind rfl] at hstar
    exact ⟨.star, hstar, trivial, rfl⟩
  · rename_i hparen hdot hdots hhash hstar
    obtain ⟨rfl, rfl⟩ := Prod.mk.inj (pure_eq_ok.mp h)
    refine ⟨rfl, ?_⟩
    rw [hkind]
    unfold Kind.startsSuffix
    split <;> simp_all

end Production

/-- A chain of suffixes behind an expression. -/
theorem reads_chain {link : Expr → Parser (Option Expr)}
    (hlink : ∀ {base k o k'}, link base k = .ok (o, k') → Production.FindsSuffix k k' base o)
    (left : Nat) (base : Expr) :
    Reads .suffixes (fun e v => e.bare = v base.bare) (chain link left base) := by
  induction left generalizing base with
  | zero =>
    intro k x k' h
    exact nomatch h
  | succ left ih =>
    intro k x k' h
    rw [chain] at h
    obtain ⟨o, k₁, ho, hmore⟩ := bind_eq_ok.mp h
    have hfinds := hlink ho
    cases o with
    | none =>
      obtain ⟨rfl, hstop⟩ := hfinds
      obtain ⟨rfl, rfl⟩ := Prod.mk.inj (pure_eq_ok.mp hmore)
      exact ⟨.ended, rfl, hstop, rfl⟩
    | some longer =>
      obtain ⟨d, hd, hgd, hvd⟩ := hfinds
      obtain ⟨m, hm, hgm, hvm⟩ := ih longer hmore
      rw [← Cursor.ahead_eq hm] at hgd
      refine ⟨.link d m, ?_, ⟨hgd, hgm⟩, ?_⟩
      · simp [hd, hm]
      · show x.bare = m.value (d.value base.bare)
        rw [hvm, hvd]

theorem Production.reads_primary {bracket : Parser Index} {group : Parser Expr}
    {suffixes : Expr → Parser Expr} (hindex : ReadsIndex bracket) (hgroup : ReadsGroup group)
    (hsuffixes : ∀ base, Reads .suffixes (fun e v => e.bare = v base.bare) (suffixes base)) :
    Reads .primary (fun e v => e.bare = v) (primary bracket group suffixes) := by
  intro k x k' h
  simp only [primary, current_bind] at h
  generalize hkind : k.current.kind = kind at h
  split at h
  · simp only [bind_eq_ok, pure_eq_ok, Prod.mk.injEq] at h
    obtain ⟨token, k₁, htoken, rfl, rfl⟩ := h
    obtain ⟨rfl, hterminals⟩ := advance_ok htoken
    rw [terminal_of_kind hkind rfl] at hterminals
    exact ⟨.null, hterminals, trivial, rfl⟩
  · simp only [bind_eq_ok, pure_eq_ok, Prod.mk.injEq] at h
    obtain ⟨token, k₁, htoken, rfl, rfl⟩ := h
    obtain ⟨rfl, hterminals⟩ := advance_ok htoken
    refine ⟨.number k.current.text, ?_, trivial, rfl⟩
    rw [hterminals, Token.terminal, hkind]
    rfl
  · simp only [bind_eq_ok, pure_eq_ok, Prod.mk.injEq] at h
    obtain ⟨token, k₁, htoken, rfl, rfl⟩ := h
    obtain ⟨rfl, hterminals⟩ := advance_ok htoken
    refine ⟨.string k.current.text, ?_, trivial, rfl⟩
    rw [hterminals, Token.terminal, hkind]
    rfl
  · simp only [bind_eq_ok, peek_bind] at h
    obtain ⟨token, k₁, htoken, h⟩ := h
    obtain ⟨rfl, hname⟩ := advance_ok htoken
    rw [Token.terminal, hkind] at hname
    split at h
    · simp only [bind_eq_ok, spanFrom_bind] at h
      obtain ⟨i, k₂, hi, hrest⟩ := h
      obtain ⟨d, hd, hgd, hvd⟩ := hindex hi
      obtain ⟨m, hm, hgm, hvm⟩ := hsuffixes _ hrest
      rw [← Cursor.ahead_eq hm] at hgd
      refine ⟨.named k.current.text (.indexed d) m, ?_, ⟨hgd, hgm⟩, ?_⟩
      · simp [hname, hd, hm, Kind.varies]
      · show x.bare = m.value (Expr.ofName k.current.text d.value)
        rw [hvm, ofName_value, ← hvd]
        rfl
    · rename_i hbracket
      obtain ⟨m, hm, hgm, hvm⟩ := hsuffixes _ h
      refine ⟨.named k.current.text .unindexed m, ?_, ⟨?_, hgm⟩, hvm⟩
      · simp [hname, hm, Kind.varies]
      · rwa [Cursor.ahead_eq hm]
  · simp only [bind_eq_ok] at h
    obtain ⟨e, k₁, he, hrest⟩ := h
    obtain ⟨d, hd, hgd, hvd⟩ := hgroup he
    obtain ⟨m, hm, hgm, hvm⟩ := hsuffixes _ hrest
    rw [← Cursor.ahead_eq hm] at hgd
    refine ⟨.grouped d m, ?_, ⟨hgd, hgm⟩, ?_⟩
    · simp [hd, hm]
    · show x.bare = m.value d.value
      rw [hvm, hvd]
  · exact nomatch h

/-! ### The grammar -/

/-- No statement begins where a list of them ends. -/
theorem Kind.startsStatement_of_endsList {kind : Kind} (h : kind.endsList = true) :
    kind.startsStatement = false := by
  unfold Kind.endsList at h
  split at h <;> first | rfl | exact nomatch h

theorem reads_statementsUpTo {item : Parser Stmt} (hitem : ReadsStatement item) (left : Nat) :
    ReadsStatements (statementsUpTo item left) := by
  induction left with
  | zero =>
    intro k x k' h
    rw [statementsUpTo, peek_bind] at h
    split at h
    · rename_i hends
      obtain ⟨rfl, rfl⟩ := Prod.mk.inj (pure_eq_ok.mp h)
      exact ⟨.done, rfl, Kind.startsStatement_of_endsList hends, rfl⟩
    · simp [bind_eq_ok] at h
  | succ left ih =>
    intro k x k' h
    rw [statementsUpTo, peek_bind] at h
    split at h
    · rename_i hends
      obtain ⟨rfl, rfl⟩ := Prod.mk.inj (pure_eq_ok.mp h)
      exact ⟨.done, rfl, Kind.startsStatement_of_endsList hends, rfl⟩
    · simp only [bind_eq_ok, pure_eq_ok, Prod.mk.injEq] at h
      obtain ⟨first, k₁, hfirst, rest, k₂, hrest, rfl, rfl⟩ := h
      obtain ⟨d, hd, hgd, hvd⟩ := hitem hfirst
      obtain ⟨l, hl, hgl, hvl⟩ := ih hrest
      rw [← Cursor.ahead_eq hl] at hgd
      refine ⟨.item d l, ?_, ⟨hgd, hgl⟩, ?_⟩
      · simp [hd, hl]
      · show first.bare :: bareStmts rest = d.value :: l.value
        rw [hvd, hvl]

/-- The tokens that spell operators of a layer have one spelling. -/
theorem Layer.varies_of_operator? {layer : Layer} {kind : Kind} {op : BinaryOp}
    (h : layer.operator? kind = some op) : kind.varies = false := by
  cases kind <;> first | rfl | exact nomatch h

/-- What the productions read with this much room for nesting. -/
structure Sound (limit room : Nat) : Prop where
  statements : ReadsStatements (Grammar.statements limit room)
  function : ReadsStatement (Grammar.function limit room)
  statement : ReadsStatement (Grammar.statement limit room)
  var : ReadsStatement (Grammar.var limit room)
  assignment : ReadsStatement (Grammar.assignment limit room)
  branch : ReadsStatement (Grammar.branch limit room)
  loop : ReadsStatement (Grammar.loop limit room)
  count : ReadsStatement (Grammar.count limit room)
  each : ReadsStatement (Grammar.each limit room)
  scope : ReadsStatement (Grammar.scope limit room)
  binary : ∀ layer, Reads (.layer (some layer)) (fun e v => e.bare = v)
    (Grammar.binary limit layer room)
  operations : ∀ layer start left, Reads (.operations layer) (fun e v => e.bare = v left.bare)
    (Grammar.operations limit layer start room left)
  unary : Reads (.layer none) (fun e v => e.bare = v) (Grammar.unary limit room)
  primary : Reads .primary (fun e v => e.bare = v) (Grammar.primary limit room)
  parenthesized : ReadsGroup (Grammar.parenthesized limit room)
  suffixes : ∀ base, Reads .suffixes (fun e v => e.bare = v base.bare)
    (Grammar.suffixes limit room base)
  index : ReadsIndex (Grammar.index limit room)

theorem reads_tooDeep {α : Type} {r : Rule} {R : α → r.Value → Prop} (limit : Nat) :
    Reads r R (tooDeep limit) := by
  intro k x k' h
  rw [tooDeep_apply] at h
  exact nomatch h

namespace Sound

variable {limit room : Nat}

theorem operand (s : Sound limit room) (layer : Layer) :
    Reads (.layer layer.operands) (fun e v => e.bare = v)
      (Production.operand layer (fun layer => Grammar.binary limit layer room)
        (Grammar.unary limit room)) := by
  unfold Production.operand
  rw [layer.tighter?_eq]
  cases layer.operands with
  | none => exact s.unary
  | some tighter => exact s.binary tighter

/-- Without room a layer of operators can only be left alone. -/
theorem operations_zero (layer : Layer) (start : Nat) (left : Expr) :
    Reads (.operations layer) (fun e v => e.bare = v left.bare)
      (Grammar.operations limit layer start 0 left) := by
  intro k x k' h
  simp only [Grammar.operations, peek_bind] at h
  cases hop : layer.operator? k.current.kind with
  | none =>
    rw [hop] at h
    obtain ⟨rfl, rfl⟩ := Prod.mk.inj (pure_eq_ok.mp h)
    exact ⟨.finished, rfl, Layer.operator?_eq_none_iff.mp hop, rfl⟩
  | some op =>
    rw [hop] at h
    exact nomatch h

theorem operations_succ (s : Sound limit room) (layer : Layer) (start : Nat) (left : Expr) :
    Reads (.operations layer) (fun e v => e.bare = v left.bare)
      (Grammar.operations limit layer start (room + 1) left) := by
  intro k x k' h
  simp only [Grammar.operations, peek_bind] at h
  cases hop : layer.operator? k.current.kind with
  | none =>
    rw [hop] at h
    obtain ⟨rfl, rfl⟩ := Prod.mk.inj (pure_eq_ok.mp h)
    exact ⟨.finished, rfl, Layer.operator?_eq_none_iff.mp hop, rfl⟩
  | some op =>
    rw [hop] at h
    simp only [bind_eq_ok, spanFrom_bind] at h
    obtain ⟨token, k₁, htoken, right, k₂, hright, hrest⟩ := h
    obtain ⟨rfl, hsign⟩ := advance_ok htoken
    rw [terminal_of_kind rfl (Layer.varies_of_operator? hop)] at hsign
    obtain ⟨d, hd, hgd, hvd⟩ := s.operand layer hright
    obtain ⟨m, hm, hgm, hvm⟩ := s.operations layer start _ hrest
    rw [← Cursor.ahead_eq hm] at hgd
    refine ⟨.operation ⟨k.current.kind, op, Layer.operator?_eq_some_iff.mp hop⟩ d m, ?_, ⟨hgd, hgm⟩,
      ?_⟩
    · simp [hsign, hd, hm]
    · show x.bare = m.value (.binary op left.bare d.value .origin)
      rw [hvm, ← hvd]
      rfl

theorem binary_succ (s : Sound limit room) (layer : Layer) :
    Reads (.layer (some layer)) (fun e v => e.bare = v)
      (Grammar.binary limit layer (room + 1)) := by
  intro k x k' h
  simp only [Grammar.binary, here_bind, bind_eq_ok] at h
  obtain ⟨first, k₁, hfirst, hrest⟩ := h
  obtain ⟨d, hd, hgd, hvd⟩ := s.operand layer hfirst
  obtain ⟨m, hm, hgm, hvm⟩ := s.operations layer _ first hrest
  rw [← Cursor.ahead_eq hm] at hgd
  refine ⟨.binary d m, ?_, ⟨hgd, hgm⟩, ?_⟩
  · simp [hd, hm]
  · show x.bare = m.value d.value
    rw [hvm, hvd]

/-- A statement of one word reads the keyword at hand. -/
theorem single {stmt : Span → Stmt} {word : Keyword} {d : Derivation .statement}
    (hyield : d.yield = [Terminal.word word]) (hgreedy : ∀ next, d.Greedy next)
    (hvalue : ∀ span, (stmt span).bare = d.value) {k k' : Cursor} {x : Stmt}
    (hkind : k.current.kind = .keyword word)
    (h : Production.single stmt k = .ok (x, k')) :
    ∃ d : Derivation .statement, k.terminals = d.yield ++ k'.terminals ∧
      d.Greedy k'.current.kind ∧ x.bare = d.value := by
  obtain ⟨hterminals, span, rfl⟩ := Production.single_ok h
  rw [terminal_of_kind hkind rfl] at hterminals
  exact ⟨d, by rw [hterminals, hyield]; rfl, hgreedy _, hvalue span⟩

theorem statement_succ (s : Sound limit room) :
    ReadsStatement (Grammar.statement limit (room + 1)) := by
  intro k x k' h
  simp only [Grammar.statement, current_bind] at h
  generalize hkind : k.current.kind = kind at h
  split at h
  · exact s.var h
  · exact s.branch h
  · exact s.loop h
  · exact s.count h
  · exact s.each h
  · exact s.scope h
  · exact single (d := .leave) rfl (fun _ => trivial) (fun _ => rfl) hkind h
  · exact single (d := .skip) rfl (fun _ => trivial) (fun _ => rfl) hkind h
  · split at h
    · exact s.assignment h
    · exact nomatch h

theorem statements_succ (s : Sound limit room) :
    ReadsStatements (Grammar.statements limit (room + 1)) := by
  refine reads_statementsUpTo ?_ _
  intro k x k' h
  rw [peek_bind] at h
  split at h
  · exact s.function h
  · exact s.statement h

end Sound

/-- **Soundness**: whatever a production reads is a greedy derivation from its rule, and
the tree is that of the derivation. -/
theorem sound (limit room : Nat) : Sound limit room := by
  induction room with
  | zero =>
    exact {
      statements := reads_tooDeep limit, function := reads_tooDeep limit,
      statement := reads_tooDeep limit, var := reads_tooDeep limit,
      assignment := reads_tooDeep limit, branch := reads_tooDeep limit,
      loop := reads_tooDeep limit, count := reads_tooDeep limit, each := reads_tooDeep limit,
      scope := reads_tooDeep limit, binary := fun _ => reads_tooDeep limit,
      operations := Sound.operations_zero, unary := reads_tooDeep limit,
      primary := reads_tooDeep limit, parenthesized := reads_tooDeep limit,
      suffixes := fun _ => reads_tooDeep limit, index := reads_tooDeep limit }
  | succ room s =>
    have hblock := Production.reads_block s.statements
    have hsimple := s.binary .logicalOr
    exact {
      statements := s.statements_succ
      function := Production.reads_function s.statements
      statement := s.statement_succ
      var := Production.reads_var hsimple
      assignment := Production.reads_assignment hsimple
      branch := Production.reads_branch s.parenthesized hblock
      loop := Production.reads_loop s.parenthesized hblock
      count := Production.reads_count hsimple hblock
      each := Production.reads_each hsimple hblock
      scope := Production.reads_scope hblock
      binary := s.binary_succ
      operations := s.operations_succ
      unary := Production.reads_unary s.unary s.primary
      primary := Production.reads_primary s.index s.parenthesized s.suffixes
      parenthesized := Production.reads_parenthesized hsimple
      suffixes := reads_chain (Production.suffix_ok hsimple s.index) _
      index := Production.reads_index hsimple }

end FormCalc
