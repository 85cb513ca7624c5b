import FormCalc.Proofs.Grammar.Limits
import FormCalc.Tree.Grammar

/-!
# What can be derived is read

In front of what a greedy derivation derives, a production reads exactly that, unless one
of the limits stops it.  The limits do so exactly where the derivation needs more room than
there is or is not `Bounded`.

The parsers of the rules differ in what they are given: some count down, some extend an
expression.  `Derivation.Complete` says for each rule what is to be proved of its parser,
there is one lemma `complete_…` for each alternative of a rule, and `Derivation.complete`
ties them together by induction on the derivation.  What the parsers give back is left open
here: soundness says what it is.
-/

namespace FormCalc

open Terminal FormCalc.Parser

/-- Whether a cursor stands in front of what a greedy derivation derives, with `rest`
behind that. -/
structure Cursor.Meets {r : Rule} (k : Cursor) (d : Derivation r) (rest : List Terminal) :
    Prop where
  terminals : k.terminals = d.yield ++ rest
  behind : rest ≠ []
  greedy : d.Greedy (ahead rest .endOfInput)

theorem Cursor.Meets.starts {r : Rule} {k : Cursor} {d : Derivation r} {rest : List Terminal}
    (h : k.Meets d rest) : r.Starts k.current.kind := by
  have hstarts := d.starts_ahead .endOfInput h.terminals
  rwa [Cursor.ahead_terminals] at hstarts

/-! ### Kinds -/

theorem Kind.not_endsList_of_startsStatement {kind : Kind} (h : kind.startsStatement = true) :
    kind.endsList = false := by
  unfold Kind.endsList
  split <;> first | rfl | exact nomatch h

theorem Kind.ne_func_of_opensExpression {kind : Kind} (h : kind.opensExpression = true) :
    kind ≠ .keyword .kwFunc := by
  rintro rfl
  exact nomatch h

theorem Kind.ne_rightParen_of_opensExpression {kind : Kind}
    (h : kind.opensExpression = true) : kind ≠ .symbol .rightParen := by
  rintro rfl
  exact nomatch h

/-! ### The parsers of the rules -/

/-- One statement of a list. -/
def Grammar.item (limit room : Nat) : Parser Stmt := do
  if (← peek) = .keyword .kwFunc then function limit room else statement limit room

/-- An expression of a layer, or a prefix expression. -/
def Grammar.layered (limit : Nat) : Option Layer → Nat → Parser Expr
  | some layer, room => binary limit layer room
  | none, room => unary limit room

/-- A simple expression. -/
abbrev Grammar.simple (limit room : Nat) : Parser Expr := binary limit .logicalOr room

/-- The statements of a block. -/
abbrev Grammar.block (limit room : Nat) : Parser Block := Production.block (statements limit room)

/-- One accessor or call behind an expression. -/
abbrev Grammar.suffix (limit room : Nat) : Expr → Parser (Option Expr) :=
  Production.suffix (simple limit room) (index limit room)

theorem Grammar.operand_eq (limit room : Nat) (layer : Layer) :
    Production.operand layer (fun layer => binary limit layer room) (unary limit room) =
      layered limit layer.operands room := by
  unfold Production.operand layered
  rw [layer.tighter?_eq]
  cases layer.operands <;> rfl

/-- The arms behind `elseif` and the block behind `else`, of at most `n` arms. -/
def Production.arms (cond : Parser Expr) (body : Parser Block) (n : Nat) :
    Parser (List (Expr × Block) × Option Block) := do
  let arms ← roundsAfter (.keyword .kwElseif) (arm cond body) n
  let last ← optionalBlock
  return (arms, last)
where
  optionalBlock : Parser (Option Block) := do
    if ← accept (.keyword .kwElse) then return some (← body) else return none

namespace Production

theorem arms_succ (cond : Parser Expr) (body : Parser Block) (n : Nat) :
    arms cond body (n + 1) = do
      if ← accept (.keyword .kwElseif) then
        let first ← arm cond body
        let parts ← arms cond body n
        return (first :: parts.1, parts.2)
      else
        let last ← arms.optionalBlock body
        return ([], last) := by
  unfold arms
  rw [roundsAfter, bind_assoc]
  refine bind_congr fun b => ?_
  cases b <;> simp

theorem branch_eq (cond : Parser Expr) (body : Parser Block) :
    branch cond body = do
      let start ← here
      word .kwIf
      let first ← arm cond body
      let cursor ← get
      let parts ← arms cond body cursor.rest.length
      word .kwEndif
      return .branch first.1 first.2 (otherwise parts.2 parts.1) (← spanFrom start) := by
  unfold branch arms arms.optionalBlock eachAfter
  simp only [bind_assoc, pure_bind]
  refine bind_congr fun start => bind_congr fun _ => bind_congr fun first =>
    bind_congr fun cursor => bind_congr fun arms => bind_congr fun b => ?_
  cases b <;> simp

/-- An index without its brackets. -/
def entry (value : Parser Expr) : Parser Index := do
  match ← peek with
  | .symbol .star =>
    let _ ← advance
    return .star
  | .symbol .plus =>
    let _ ← advance
    return .entry .forward (← value)
  | .symbol .minus =>
    let _ ← advance
    return .entry .backward (← value)
  | _ => return .entry .absolute (← value)

theorem index_eq (value : Parser Expr) :
    index value = do
      symbol .leftBracket
      let index ← entry value
      symbol .rightBracket
      return index := rfl

end Production

namespace Derivation

variable {r : Rule} {α : Type}

/-- Whether a parser reads what a derivation derives wherever it meets it. -/
def ReadBy (d : Derivation r) (p : Nat → Parser α) : Prop :=
  ∀ ⦃room : Nat⦄ ⦃k : Cursor⦄ ⦃rest : List Terminal⦄, k.Meets d rest →
    Runs d.Bounded d.need room (p room k) (Before rest)

/-- What is to be proved of the parser of each rule.  An optional part has no parser of its
own, so there it is said of what is optional. -/
def Complete (limit : Nat) : {r : Rule} → Derivation r → Prop
  | .statements, d => ∀ ⦃room left : Nat⦄ ⦃k : Cursor⦄ ⦃rest : List Terminal⦄, k.Meets d rest →
    (ahead rest .endOfInput).endsList = true → left ≤ maxStatements →
      Runs (d.Bounded ∧ d.length ≤ left) d.need (room + 1)
        (statementsUpTo (Grammar.item limit room) left k) (Before rest)
  | .statement, d => d.ReadBy (Grammar.item limit)
  | .otherwise, d => ∀ ⦃room n : Nat⦄ ⦃k : Cursor⦄ ⦃rest : List Terminal⦄, k.Meets d rest →
    ahead rest .endOfInput = .keyword .kwEndif → d.yield.length ≤ n →
      Runs d.Bounded d.need room
        (Production.arms (Grammar.parenthesized limit room) (Grammar.block limit room) n k)
        (Before rest)
  | .optional _, d => ∀ value, d = .present value → value.ReadBy (Grammar.simple limit)
  | .layer layer, d => d.ReadBy (Grammar.layered limit layer)
  | .operations layer, d =>
    ∀ start left, d.ReadBy (fun room => Grammar.operations limit layer start room left)
  | .group, d => d.ReadBy (Grammar.parenthesized limit)
  | .primary, d => d.ReadBy (Grammar.primary limit)
  | .suffixes, d => ∀ ⦃room left : Nat⦄ ⦃k : Cursor⦄ ⦃rest : List Terminal⦄ (base : Expr),
    k.Meets d rest → left ≤ maxLinks →
      Runs (d.Bounded ∧ d.length < left) d.need (room + 1)
        (chain (Grammar.suffix limit room) left base k) (Before rest)
  | .suffix, d => ∀ ⦃room : Nat⦄ ⦃k : Cursor⦄ ⦃rest : List Terminal⦄ (base : Expr),
    k.Meets d rest → Runs d.Bounded d.need room (Grammar.suffix limit room base k)
      (fun o k' => o.isSome = true ∧ k'.terminals = rest)
  | .index, d => d.ReadBy (Grammar.index limit)
  | .optionalIndex, d => ∀ index, d = .indexed index → index.ReadBy (Grammar.index limit)
  | .arguments, d => ∀ ⦃room : Nat⦄ ⦃k : Cursor⦄ ⦃rest : List Terminal⦄, k.Meets d rest →
    ahead rest .endOfInput = .symbol .rightParen →
      Runs d.Bounded d.need room
        (argumentsUpTo (Grammar.simple limit room) maxLinks (pure ()) k) (Before rest)
  | .moreArguments, d => ∀ ⦃room left : Nat⦄ ⦃k : Cursor⦄ ⦃rest : List Terminal⦄,
    k.Meets d rest → ahead rest .endOfInput = .symbol .rightParen →
      Runs (d.Bounded ∧ d.length ≤ left) d.need room
        (argumentsUpTo (Grammar.simple limit room) left (symbol .comma) k) (Before rest)

variable {limit room left : Nat} {k : Cursor} {rest : List Terminal}

/-! ### Statements -/

theorem complete_done : (done).Complete limit := by
  intro room left k rest h hends hleft
  have hkind : k.current.kind.endsList = true := by
    rwa [← Cursor.ahead_terminals k .endOfInput, h.terminals]
  have hfits : True ∧ 0 ≤ room + 1 ↔ (True ∧ 0 ≤ left) ∧ 1 ≤ room + 1 := by simp
  refine .congr ?_ hfits
  cases left with
  | zero =>
    rw [statementsUpTo, peek_bind, if_pos hkind]
    exact .pure h.terminals
  | succ left =>
    rw [statementsUpTo, peek_bind, if_pos hkind]
    exact .pure h.terminals

theorem complete_item {first : Derivation .statement} {more : Derivation .statements}
    (hfirst : first.Complete limit) (hmore : more.Complete limit) :
    (item first more).Complete limit := by
  intro room left k rest h hends hleft
  obtain ⟨hk, hrest, hgf, hgm⟩ := h
  rw [yield_item, List.append_assoc] at hk
  have hkf : k.Meets first (more.yield ++ rest) := ⟨hk, by simp [hrest], by simpa using hgf⟩
  have hkind : ¬k.current.kind.endsList = true := by
    rw [Kind.not_endsList_of_startsStatement hkf.starts]
    exact nofun
  have hread : Runs first.Bounded (first.need + 1) (room + 1) (Grammar.item limit room k)
      (Before (more.yield ++ rest)) := (hfirst hkf).succ
  cases left with
  | zero =>
    rw [statementsUpTo, peek_bind, if_neg hkind]
    exact hread.refused (fun hfits => Nat.not_succ_le_zero _ hfits.1.2) fun _ _ => ⟨_, rfl, rfl⟩
  | succ left =>
    rw [statementsUpTo, peek_bind, if_neg hkind]
    refine .congr (.bind hread fun _ _ h₁ => .last
      (hmore ⟨h₁, hrest, hgm⟩ hends (Nat.le_of_succ_le hleft)) fun _ _ h₂ => .pure h₂) ?_
    show (first.Bounded ∧ more.Bounded ∧ more.length ≤ left) ∧
        max (first.need + 1) more.need ≤ room + 1 ↔
      ((first.Bounded ∧ more.Bounded ∧ more.length < maxStatements) ∧
        more.length + 1 ≤ left + 1) ∧ max (first.need + 1) more.need ≤ room + 1
    grind

theorem one_le_need (body : Derivation .statements) : 1 ≤ body.need := by
  cases body with
  | done => exact Nat.le_refl 1
  | item first more => exact Nat.le_trans (Nat.le_add_left 1 first.need) (Nat.le_max_left _ _)

theorem length_le_of_bounded {body : Derivation .statements} (h : body.Bounded) :
    body.length ≤ maxStatements := by
  cases body with
  | done => exact Nat.zero_le _
  | item first more => exact h.2.2

theorem runs_statements {body : Derivation .statements} (hbody : body.Complete limit)
    (h : k.Meets body rest) (hends : (ahead rest .endOfInput).endsList = true) :
    Runs body.Bounded body.need room (Grammar.statements limit room k) (Before rest) := by
  cases room with
  | zero =>
    have hneed := one_le_need body
    exact .limit (fun hfits => by omega) rfl
  | succ room =>
    refine .congr (hbody h hends (Nat.le_refl _)) ?_
    rw [and_iff_left_of_imp length_le_of_bounded]

theorem runs_block {body : Derivation .statements} (hbody : body.Complete limit)
    (h : k.Meets body rest) (hends : (ahead rest .endOfInput).endsList = true) :
    Runs body.Bounded body.need room (Grammar.block limit room k) (Before rest) := by
  rw [Grammar.block, Production.block, here_bind]
  exact .last (runs_statements hbody h hends) fun _ _ h₁ => .pure h₁

/-- A statement that is no definition has a parser of its own, by the token at hand. -/
theorem runs_item {A : Prop} {m : Nat} {Q : Stmt → Cursor → Prop} (part : Nat → Parser Stmt)
    (hkind : k.current.kind ≠ .keyword .kwFunc)
    (hpart : ∀ room, Grammar.statement limit (room + 1) k = part room k)
    (h : ∀ room, Runs A m room (part room k) Q) (room : Nat) :
    Runs A (m + 1) room (Grammar.item limit room k) Q := by
  rw [Grammar.item, peek_bind, if_neg hkind]
  exact .level (Grammar.statement limit) part rfl hpart h room

/-- Most of these parsers open a level of their own. -/
theorem runs_part {A : Prop} {m : Nat} {Q : Stmt → Cursor → Prop} (part body : Nat → Parser Stmt)
    (hkind : k.current.kind ≠ .keyword .kwFunc)
    (hpart : ∀ room, Grammar.statement limit (room + 1) k = part room k)
    (hzero : part 0 k = (tooDeep limit : Parser Stmt) k)
    (hsucc : ∀ room, part (room + 1) k = body room k)
    (h : ∀ room, Runs A m room (body room k) Q) (room : Nat) :
    Runs A (m + 2) room (Grammar.item limit room k) Q :=
  runs_item part hkind hpart (.level part body hzero hsucc h) room

/-- The tokens that are left bound the rounds of a loop that consumes tokens. -/
theorem length_le_rest {ts : List Terminal} (h : k.terminals = ts ++ rest) (hrest : rest ≠ []) :
    ts.length ≤ k.rest.length := by
  have hreadable : ∀ pulls, (readable pulls).length ≤ pulls.length := by
    intro pulls
    induction pulls with
    | nil => exact Nat.le_refl 0
    | cons pull pulls ih =>
      cases pull with
      | error fault => exact Nat.zero_le _
      | ok token => exact Nat.succ_le_succ ih
  have hlength := congrArg List.length h
  have hpos := List.length_pos_iff.mpr hrest
  simp only [Cursor.terminals, Cursor.tokens, List.length_map, List.length_cons,
    List.length_append] at hlength
  have := hreadable k.rest
  omega

theorem runs_commaNames {names : List String} {n : Nat}
    (h : k.terminals = commaNames names ++ rest) (hrest : rest ≠ [])
    (hcomma : ahead rest .endOfInput ≠ .symbol .comma) (hn : (commaNames names).length ≤ n) :
    Runs True 0 room (roundsAfter (.symbol .comma) name n k) (Before rest) := by
  induction names generalizing k n with
  | nil =>
    cases n with
    | zero => exact .pure h
    | succ n =>
      refine .accept_none ?_ (.pure h)
      rwa [← Cursor.ahead_terminals k .endOfInput, h]
  | cons first more ih =>
    cases n with
    | zero => exact absurd hn (Nat.not_succ_le_zero _)
    | succ n =>
      refine .accept_mark h rfl (List.cons_ne_nil _ _) fun k₁ h₁ => ?_
      rw [if_pos rfl]
      refine .name h₁ (by simp [hrest]) fun name k₂ h₂ => ?_
      refine .last (ih h₂ ?_) fun _ _ h₃ => .pure h₃
      exact Nat.le_of_succ_le (Nat.le_of_succ_le_succ hn)

theorem runs_parameters {params : List String}
    (h : k.terminals = nameList params ++ Terminal.symbol .rightParen :: rest) :
    Runs True 0 room (Production.parameters k)
      (Before (Terminal.symbol .rightParen :: rest)) := by
  rw [Production.parameters, peek_bind]
  cases params with
  | nil =>
    rw [if_pos (Cursor.kind_eq h)]
    exact .pure h
  | cons first more =>
    have hparen : k.current.kind ≠ .symbol .rightParen := by
      rw [Cursor.kind_eq h]
      exact nofun
    rw [if_neg hparen]
    refine .name h (by simp) fun name k₁ h₁ => ?_
    rw [eachAfter, bind_assoc, get_bind]
    have hn := length_le_rest h₁ (List.cons_ne_nil _ _)
    exact .last (runs_commaNames h₁ (List.cons_ne_nil _ _) nofun hn) fun _ _ h₂ => .pure h₂

theorem complete_function {name : String} {params : List String}
    {body : Derivation .statements} (hbody : body.Complete limit) :
    (function name params body).Complete limit := by
  intro room k rest ⟨hk, hrest, hg⟩
  simp only [yield_function, List.cons_append, List.nil_append, List.append_assoc] at hk
  rw [Grammar.item, peek_bind, if_pos (Cursor.kind_eq hk)]
  refine .level (Grammar.function limit)
    (fun room => Production.function (Grammar.statements limit room)) rfl (fun _ => rfl)
    (fun room => ?_) room
  rw [Production.function, here_bind]
  refine .word hk (by simp) fun k₁ h₁ => ?_
  refine .name h₁ (by simp) fun name k₂ h₂ => ?_
  refine .symbol h₂ (by simp) fun k₃ h₃ => ?_
  refine .congr (.bind (runs_parameters h₃) fun params k₄ h₄ => ?_) (by rw [true_and, Nat.zero_max])
  refine .symbol h₄ (by simp) fun k₅ h₅ => ?_
  refine .word h₅ (by simp) fun k₆ h₆ => ?_
  refine .last (runs_statements hbody ⟨h₆, by simp, hg⟩ rfl) fun _ k₇ h₇ => ?_
  exact .word h₇ hrest fun k₈ h₈ => .pure h₈

theorem runs_optional {mark : Kind} {d : Derivation (.optional mark)} (hd : d.Complete limit)
    (h : k.Meets d rest) :
    Runs d.Bounded d.need room (Production.optional mark (Grammar.simple limit room) k)
      (Before rest) := by
  obtain ⟨hk, hrest, hg⟩ := h
  rw [Production.optional]
  cases d with
  | absent =>
    refine .accept_none ?_ (.pure hk)
    rw [← Cursor.ahead_terminals k .endOfInput, hk]
    exact hg
  | present value =>
    refine .accept_mark hk rfl (by simp [hrest]) fun k₁ h₁ => ?_
    rw [if_pos rfl]
    exact .last (hd value rfl ⟨h₁, hrest, hg⟩) fun _ _ h₂ => .pure h₂

theorem complete_var {name : String} {init : Derivation (.optional (.symbol .assign))}
    (hinit : init.Complete limit) : (var name init).Complete limit := by
  intro room k rest ⟨hk, hrest, hg⟩
  have hkind : k.current.kind = .keyword .kwVar := Cursor.kind_eq hk
  refine runs_part (Grammar.var limit) (fun room => Production.var (Grammar.simple limit room))
    (by simp [hkind]) (fun room => by simp only [Grammar.statement, current_bind, hkind]) rfl
    (fun _ => rfl) (fun room => ?_) room
  rw [Production.var, here_bind]
  refine .word hk (by simp) fun k₁ h₁ => ?_
  refine .name h₁ (by simp [hrest]) fun name k₂ h₂ => ?_
  exact .last (runs_optional hinit ⟨h₂, hrest, hg⟩) fun _ _ h₃ => .pure h₃

theorem statement_eq_assignment (h : k.current.kind.opensExpression = true) (room : Nat) :
    Grammar.statement limit (room + 1) k = Grammar.assignment limit room k := by
  rw [← Kind.startsExpression_eq] at h
  simp only [Grammar.statement, current_bind]
  generalize k.current.kind = kind at h ⊢
  split <;> first | rw [if_pos h] | cases h

theorem complete_expr {target : Derivation .simple}
    {value : Derivation (.optional (.symbol .assign))} (htarget : target.Complete limit)
    (hvalue : value.Complete limit) : (expr target value).Complete limit := by
  intro room k rest ⟨hk, hrest, hgt, hgv⟩
  rw [yield_expr, List.append_assoc] at hk
  have hmeets : k.Meets target (value.yield ++ rest) := ⟨hk, by simp [hrest], by simpa using hgt⟩
  refine runs_part (Grammar.assignment limit)
    (fun room => Production.assignment (Grammar.simple limit room))
    (Kind.ne_func_of_opensExpression hmeets.starts) (statement_eq_assignment hmeets.starts) rfl
    (fun _ => rfl) (fun room => ?_) room
  rw [Production.assignment, here_bind]
  refine .bind (htarget hmeets) fun _ k₁ h₁ => ?_
  cases value with
  | absent =>
    refine .accept_none ?_ (.pure h₁)
    rw [← Cursor.ahead_terminals k₁ .endOfInput, h₁]
    exact hgv
  | present value =>
    refine .accept_mark h₁ rfl (by simp [hrest]) fun k₂ h₂ => ?_
    rw [if_pos rfl]
    exact .last (hvalue value rfl ⟨h₂, hrest, hgv⟩) fun _ _ h₃ => .pure h₃

theorem complete_loop {cond : Derivation .group} {body : Derivation .statements}
    (hcond : cond.Complete limit) (hbody : body.Complete limit) :
    (loop cond body).Complete limit := by
  intro room k rest ⟨hk, hrest, hgc, hgb⟩
  simp only [yield_loop, List.cons_append, List.nil_append, List.append_assoc] at hk
  have hkind : k.current.kind = .keyword .kwWhile := Cursor.kind_eq hk
  refine runs_part (Grammar.loop limit)
    (fun room => Production.loop (Grammar.parenthesized limit room) (Grammar.block limit room))
    (by simp [hkind]) (fun room => by simp only [Grammar.statement, current_bind, hkind]) rfl
    (fun _ => rfl) (fun room => ?_) room
  rw [Production.loop, here_bind]
  refine .word hk (by simp) fun k₁ h₁ => ?_
  refine .bind (hcond ⟨h₁, by simp, hgc⟩) fun _ k₂ h₂ => ?_
  refine .word h₂ (by simp) fun k₃ h₃ => ?_
  refine .last (runs_block hbody ⟨h₃, by simp, hgb⟩ rfl) fun _ k₄ h₄ => ?_
  exact .word h₄ hrest fun k₅ h₅ => .pure h₅

theorem complete_scope {body : Derivation .statements} (hbody : body.Complete limit) :
    (scope body).Complete limit := by
  intro room k rest ⟨hk, hrest, hg⟩
  simp only [yield_scope, List.cons_append, List.nil_append, List.append_assoc] at hk
  have hkind : k.current.kind = .keyword .kwDo := Cursor.kind_eq hk
  refine runs_part (Grammar.scope limit)
    (fun room => Production.scope (Grammar.block limit room))
    (by simp [hkind]) (fun room => by simp only [Grammar.statement, current_bind, hkind]) rfl
    (fun _ => rfl) (fun room => ?_) room
  rw [Production.scope, here_bind]
  refine .word hk (by simp) fun k₁ h₁ => ?_
  refine .last (runs_block hbody ⟨h₁, by simp, hg⟩ rfl) fun _ k₂ h₂ => ?_
  exact .word h₂ hrest fun k₃ h₃ => .pure h₃

theorem runs_single {stmt : Span → Stmt} {t : Terminal} (h : k.terminals = t :: rest)
    (hrest : rest ≠ []) : Runs True 0 room (Production.single stmt k) (Before rest) := by
  rw [Production.single, here_bind]
  exact .advance h hrest fun k₁ h₁ => .pure h₁

theorem complete_leave : leave.Complete limit := by
  intro room k rest ⟨hk, hrest, _⟩
  have hkind : k.current.kind = .keyword .kwBreak := Cursor.kind_eq hk
  exact runs_item (fun _ => Production.single .leave) (by simp [hkind])
    (fun room => by simp only [Grammar.statement, current_bind, hkind])
    (fun room => runs_single hk hrest) room

theorem complete_skip : skip.Complete limit := by
  intro room k rest ⟨hk, hrest, _⟩
  have hkind : k.current.kind = .keyword .kwContinue := Cursor.kind_eq hk
  exact runs_item (fun _ => Production.single .skip) (by simp [hkind])
    (fun room => by simp only [Grammar.statement, current_bind, hkind])
    (fun room => runs_single hk hrest) room

/-! ### Choices -/

theorem runs_arm {cond : Derivation .group} {body : Derivation .statements}
    (hcond : cond.Complete limit) (hbody : body.Complete limit)
    (hk : k.terminals = cond.yield ++ Terminal.word .kwThen :: (body.yield ++ rest))
    (hrest : rest ≠ []) (hgc : cond.Greedy (.keyword .kwThen))
    (hgb : body.Greedy (ahead rest .endOfInput))
    (hends : (ahead rest .endOfInput).endsList = true) :
    Runs (cond.Bounded ∧ body.Bounded) (max cond.need body.need) room
      (Production.arm (Grammar.parenthesized limit room) (Grammar.block limit room) k)
      (Before rest) := by
  rw [Production.arm]
  refine .bind (hcond ⟨hk, by simp, hgc⟩) fun _ k₁ h₁ => ?_
  refine .word h₁ (by simp [hrest]) fun k₂ h₂ => ?_
  exact .last (runs_block hbody ⟨h₂, hrest, hgb⟩ hends) fun _ _ h₃ => .pure h₃

/-- Where no `elseif` is at hand only a block behind `else` may come. -/
theorem runs_arms_of_ne {A : Prop} {m n : Nat} {cond : Parser Expr} {body : Parser Block}
    (hkind : k.current.kind ≠ .keyword .kwElseif)
    (h : Runs A m room (Production.arms.optionalBlock body k) (Before rest)) :
    Runs A m room (Production.arms cond body n k) (Before rest) := by
  cases n with
  | zero =>
    rw [Production.arms, roundsAfter, pure_bind]
    exact .last h fun _ _ h₁ => .pure h₁
  | succ n =>
    rw [Production.arms_succ]
    exact .accept_none hkind (.last h fun _ _ h₁ => .pure h₁)

theorem complete_nothing : nothing.Complete limit := by
  intro room n k rest ⟨hk, hrest, hgif, hgelse⟩ hends hn
  have hkind : k.current.kind = ahead rest .endOfInput := by
    rw [← Cursor.ahead_terminals k .endOfInput, hk]
    rfl
  refine runs_arms_of_ne (by rwa [hkind]) ?_
  exact .accept_none (by rwa [hkind]) (.pure hk)

theorem complete_last {body : Derivation .statements} (hbody : body.Complete limit) :
    (last body).Complete limit := by
  intro room n k rest ⟨hk, hrest, hg⟩ hends hn
  rw [yield_last, List.append_assoc] at hk
  refine runs_arms_of_ne (by simp [Cursor.kind_eq hk]) ?_
  refine .accept_mark hk rfl (by simp [hrest]) fun k₁ h₁ => ?_
  rw [if_pos rfl]
  exact .last (runs_block hbody ⟨h₁, hrest, hg⟩ (by rw [hends]; rfl)) fun _ _ h₂ => .pure h₂

/-- A list of statements inside an `if` ends in front of the next arm. -/
theorem ahead_otherwise_endsList (d : Derivation .otherwise) {next : Kind}
    (h : next = .keyword .kwEndif) : (ahead d.yield next).endsList = true := by
  cases d with
  | nothing => rw [h]; rfl
  | last body => rfl
  | elseIf cond body more => rfl

theorem complete_elseIf {cond : Derivation .group} {body : Derivation .statements}
    {more : Derivation .otherwise} (hcond : cond.Complete limit) (hbody : body.Complete limit)
    (hmore : more.Complete limit) : (elseIf cond body more).Complete limit := by
  intro room n k rest ⟨hk, hrest, hgc, hgb, hgm⟩ hends hn
  simp only [yield_elseIf, List.cons_append, List.nil_append, List.append_assoc] at hk
  simp only [yield_elseIf, List.length_append, List.length_cons] at hn
  cases n with
  | zero => omega
  | succ n =>
    rw [Production.arms_succ]
    refine .accept_mark hk rfl (by simp) fun k₁ h₁ => ?_
    rw [if_pos rfl]
    refine .bind (runs_arm hcond hbody h₁ (by simp [hrest]) hgc (by simpa using hgb)
      (by simpa using ahead_otherwise_endsList more hends)) fun _ k₂ h₂ => ?_
    exact .last (hmore ⟨h₂, hrest, hgm⟩ hends (by omega)) fun _ _ h₃ => .pure h₃

theorem complete_branch {cond : Derivation .group} {body : Derivation .statements}
    {more : Derivation .otherwise} (hcond : cond.Complete limit) (hbody : body.Complete limit)
    (hmore : more.Complete limit) : (branch cond body more).Complete limit := by
  intro room k rest ⟨hk, hrest, hgc, hgb, hgm⟩
  simp only [yield_branch, List.cons_append, List.nil_append, List.append_assoc] at hk
  have hkind : k.current.kind = .keyword .kwIf := Cursor.kind_eq hk
  refine runs_part (Grammar.branch limit)
    (fun room => Production.branch (Grammar.parenthesized limit room) (Grammar.block limit room))
    (by simp [hkind]) (fun room => by simp only [Grammar.statement, current_bind, hkind]) rfl
    (fun _ => rfl) (fun room => ?_) room
  rw [Production.branch_eq, here_bind]
  refine .word hk (by simp) fun k₁ h₁ => ?_
  refine .bind (runs_arm hcond hbody h₁ (by simp) hgc (by simpa using hgb)
    (by simpa using ahead_otherwise_endsList more rfl)) fun _ k₂ h₂ => ?_
  rw [get_bind]
  have hn := length_le_rest h₂ (by simp)
  refine .last (hmore ⟨h₂, by simp, hgm⟩ rfl hn) fun _ k₃ h₃ => ?_
  exact .word h₃ hrest fun k₄ h₄ => .pure h₄

/-! ### Counting loops -/

theorem runs_direction {A : Prop} {m : Nat} {β : Type} {Q : β → Cursor → Prop}
    {g : Direction → Parser β} {way : Direction}
    (h : k.terminals = Terminal.word way.keyword :: rest) (hrest : rest ≠ [])
    (hg : ∀ k', k'.terminals = rest → Runs A m room (g way k') Q) :
    Runs A m room ((Production.direction >>= g) k) Q := by
  have hkind : k.current.kind = .keyword way.keyword := Cursor.kind_eq h
  obtain ⟨k', hok, hk'⟩ := advance_of_terminals h hrest
  have hway : Production.direction k = .ok (way, k') := by
    rw [Production.direction, current_bind, hkind]
    cases way <;> exact bind_of_ok hok
  rw [bind_of_ok hway]
  exact hg k' hk'

theorem complete_count {name : String} {start stop : Derivation .simple} {way : Direction}
    {step : Derivation (.optional (.keyword .kwStep))} {body : Derivation .statements}
    (hstart : start.Complete limit) (hstop : stop.Complete limit) (hstep : step.Complete limit)
    (hbody : body.Complete limit) : (count name start way stop step body).Complete limit := by
  intro room k rest ⟨hk, hrest, hga, hgz, hgs, hgb⟩
  simp only [yield_count, List.cons_append, List.nil_append, List.append_assoc] at hk
  have hkind : k.current.kind = .keyword .kwFor := Cursor.kind_eq hk
  refine runs_part (Grammar.count limit)
    (fun room => Production.count (Grammar.simple limit room) (Grammar.block limit room))
    (by simp [hkind]) (fun room => by simp only [Grammar.statement, current_bind, hkind]) rfl
    (fun _ => rfl) (fun room => ?_) room
  rw [Production.count, here_bind]
  refine .word hk (by simp) fun k₁ h₁ => ?_
  refine .name h₁ (by simp) fun name k₂ h₂ => ?_
  refine .symbol h₂ (by simp) fun k₃ h₃ => ?_
  refine .bind (hstart ⟨h₃, by simp, hga⟩) fun _ k₄ h₄ => ?_
  refine runs_direction h₄ (by simp) fun k₅ h₅ => ?_
  refine .bind (hstop ⟨h₅, by simp, by simpa using hgz⟩) fun _ k₆ h₆ => ?_
  refine .bind (runs_optional hstep ⟨h₆, by simp, hgs⟩) fun _ k₇ h₇ => ?_
  refine .word h₇ (by simp) fun k₈ h₈ => ?_
  refine .last (runs_block hbody ⟨h₈, by simp, hgb⟩ rfl) fun _ k₉ h₉ => ?_
  exact .word h₉ hrest fun k₁₀ h₁₀ => .pure h₁₀

/-! ### Arguments -/

theorem complete_noMore : noMore.Complete limit := by
  intro room left k rest ⟨hk, hrest, _⟩ hparen
  have hkind : k.current.kind = .symbol .rightParen := by
    rw [← Cursor.ahead_terminals k .endOfInput, hk]
    exact hparen
  have hfits : True ∧ 0 ≤ room ↔ (True ∧ 0 ≤ left) ∧ 0 ≤ room := by simp
  refine .congr ?_ hfits
  cases left with
  | zero =>
    rw [argumentsUpTo, peek_bind, if_pos hkind]
    exact .pure hk
  | succ left =>
    rw [argumentsUpTo, peek_bind, if_pos hkind]
    exact .pure hk

theorem complete_oneMore {first : Derivation .simple} {more : Derivation .moreArguments}
    (hfirst : first.Complete limit) (hmore : more.Complete limit) :
    (oneMore first more).Complete limit := by
  intro room left k rest ⟨hk, hrest, hgf, hgm⟩ hparen
  simp only [yield_oneMore, List.cons_append, List.nil_append, List.append_assoc] at hk
  have hkind : k.current.kind ≠ .symbol .rightParen := by
    rw [Cursor.kind_eq hk]
    exact nofun
  cases left with
  | zero =>
    rw [argumentsUpTo, peek_bind, if_neg hkind]
    refine .symbol hk (by simp [hrest]) fun k₁ h₁ => ?_
    exact .refused (hfirst ⟨h₁, by simp [hrest], by simpa using hgf⟩)
      (fun hfits => Nat.not_succ_le_zero _ hfits.1.2) fun _ _ => ⟨_, rfl, rfl⟩
  | succ left =>
    rw [argumentsUpTo, peek_bind, if_neg hkind]
    refine .symbol hk (by simp [hrest]) fun k₁ h₁ => ?_
    refine .congr (.bind (hfirst ⟨h₁, by simp [hrest], by simpa using hgf⟩) fun _ _ h₂ => .last
      (hmore ⟨h₂, hrest, hgm⟩ hparen) fun _ _ h₃ => .pure h₃) ?_
    show (first.Bounded ∧ more.Bounded ∧ more.length ≤ left) ∧ max first.need more.need ≤ room ↔
      ((first.Bounded ∧ more.Bounded) ∧ more.length + 1 ≤ left + 1) ∧
        max first.need more.need ≤ room
    simp only [Nat.add_le_add_iff_right, and_assoc]

/-- A list of arguments that begins with one is not empty. -/
theorem runs_someArguments {first : Derivation .simple} {more : Derivation .moreArguments}
    (hfirst : first.Complete limit) (hmore : more.Complete limit)
    (hk : k.terminals = first.yield ++ (more.yield ++ rest)) (hrest : rest ≠ [])
    (hgf : first.Greedy (ahead more.yield (ahead rest .endOfInput)))
    (hgm : more.Greedy (ahead rest .endOfInput))
    (hparen : ahead rest .endOfInput = .symbol .rightParen) :
    Runs (first.Bounded ∧ more.Bounded ∧ more.length < maxLinks) (max first.need more.need) room
      (argumentsUpTo (Grammar.simple limit room) maxLinks (pure ()) k)
      (fun args k' => args ≠ [] ∧ k'.terminals = rest) := by
  have hmeets : k.Meets first (more.yield ++ rest) := ⟨hk, by simp [hrest], by simpa using hgf⟩
  unfold maxLinks
  rw [argumentsUpTo, peek_bind, if_neg (Kind.ne_rightParen_of_opensExpression hmeets.starts),
    pure_bind_apply]
  refine .congr (.bind (hfirst hmeets) fun _ _ h₁ => .last (hmore ⟨h₁, hrest, hgm⟩ hparen)
    fun _ _ h₂ => .pure ⟨List.cons_ne_nil _ _, h₂⟩) ?_
  rw [Nat.lt_succ_iff]

theorem complete_someArguments {first : Derivation .simple} {more : Derivation .moreArguments}
    (hfirst : first.Complete limit) (hmore : more.Complete limit) :
    (someArguments first more).Complete limit := by
  intro room k rest ⟨hk, hrest, hgf, hgm⟩ hparen
  rw [yield_someArguments, List.append_assoc] at hk
  exact .mono (runs_someArguments hfirst hmore hk hrest hgf hgm hparen) fun _ _ h₁ => h₁.2

theorem complete_noArguments : noArguments.Complete limit := by
  intro room k rest ⟨hk, hrest, _⟩ hparen
  have hkind : k.current.kind = .symbol .rightParen := by
    rw [← Cursor.ahead_terminals k .endOfInput, hk]
    exact hparen
  unfold maxLinks
  rw [argumentsUpTo, peek_bind, if_pos hkind]
  exact .pure hk

theorem complete_each {name : String} {first : Derivation .simple}
    {more : Derivation .moreArguments} {body : Derivation .statements}
    (hfirst : first.Complete limit) (hmore : more.Complete limit)
    (hbody : body.Complete limit) : (each name first more body).Complete limit := by
  intro room k rest ⟨hk, hrest, hgf, hgm, hgb⟩
  simp only [yield_each, List.cons_append, List.nil_append, List.append_assoc] at hk
  have hkind : k.current.kind = .keyword .kwForeach := Cursor.kind_eq hk
  refine runs_part (Grammar.each limit)
    (fun room => Production.each (Grammar.simple limit room) (Grammar.block limit room))
    (by simp [hkind]) (fun room => by simp only [Grammar.statement, current_bind, hkind]) rfl
    (fun _ => rfl) (fun room => ?_) room
  rw [Production.each, here_bind]
  refine .word hk (by simp) fun k₁ h₁ => ?_
  refine .name h₁ (by simp) fun name k₂ h₂ => ?_
  refine .word h₂ (by simp) fun k₃ h₃ => ?_
  rw [arguments, bind_assoc]
  refine .symbol h₃ (by simp) fun k₄ h₄ => ?_
  rw [bind_assoc]
  refine .bind (runs_someArguments hfirst hmore h₄ (by simp) hgf hgm rfl) fun args k₅ h₅ => ?_
  rw [bind_assoc]
  refine .symbol h₅.2 (by simp) fun k₆ h₆ => ?_
  rw [pure_bind_apply, if_neg (by simpa using h₅.1)]
  refine .word h₆ (by simp) fun k₇ h₇ => ?_
  refine .last (runs_block hbody ⟨h₇, by simp, hgb⟩ rfl) fun _ k₈ h₈ => ?_
  exact .word h₈ hrest fun k₉ h₉ => .pure h₉

theorem runs_arguments {args : Derivation .arguments} (hargs : args.Complete limit)
    (hk : k.terminals = Terminal.symbol .leftParen ::
      (args.yield ++ Terminal.symbol .rightParen :: rest))
    (hrest : rest ≠ []) (hg : args.Greedy (.symbol .rightParen)) :
    Runs args.Bounded args.need room (arguments (Grammar.simple limit room) k)
      (Before rest) := by
  rw [arguments]
  refine .symbol hk (by simp) fun k₁ h₁ => ?_
  refine .last (hargs ⟨h₁, by simp, hg⟩ rfl) fun _ k₂ h₂ => ?_
  exact .symbol h₂ hrest fun k₃ h₃ => .pure h₃

/-! ### Operators -/

theorem complete_binary {layer : Layer} {first : Derivation (.layer layer.operands)}
    {more : Derivation (.operations layer)} (hfirst : first.Complete limit)
    (hmore : more.Complete limit) : (binary first more).Complete limit := by
  intro room k rest ⟨hk, hrest, hgf, hgm⟩
  rw [yield_binary, List.append_assoc] at hk
  refine .level (Grammar.binary limit layer) (fun room => do
      let start ← here
      let first ← Grammar.layered limit layer.operands room
      Grammar.operations limit layer start room first) rfl
    (fun room => by rw [Grammar.binary, Grammar.operand_eq]) (fun room => ?_) room
  rw [here_bind]
  refine .bind (hfirst ⟨hk, by simp [hrest], by simpa using hgf⟩) fun left k₁ h₁ => ?_
  exact hmore _ left ⟨h₁, hrest, hgm⟩

theorem complete_finished {layer : Layer} :
    (finished : Derivation (.operations layer)).Complete limit := by
  intro start left room k rest ⟨hk, hrest, hg⟩
  have hnone : layer.operator? k.current.kind = none := by
    rw [← Cursor.ahead_terminals k .endOfInput, hk]
    exact Layer.operator?_eq_none_iff.mpr hg
  cases room with
  | zero =>
    simp only [Grammar.operations, peek_bind, hnone]
    exact .pure hk
  | succ room =>
    simp only [Grammar.operations, peek_bind, hnone]
    exact .pure hk

theorem complete_operation {layer : Layer} {sign : layer.Sign}
    {right : Derivation (.layer layer.operands)} {more : Derivation (.operations layer)}
    (hright : right.Complete limit) (hmore : more.Complete limit) :
    (operation sign right more).Complete limit := by
  intro start left room k rest ⟨hk, hrest, hgr, hgm⟩
  simp only [yield_operation, List.cons_append, List.nil_append, List.append_assoc] at hk
  have hop : layer.operator? k.current.kind = some sign.op := by
    rw [Cursor.kind_eq hk]
    exact Layer.operator?_eq_some_iff.mpr sign.spells
  have hzero : Grammar.operations limit layer start 0 left k = (tooDeep limit : Parser Expr) k := by
    simp only [Grammar.operations, peek_bind, hop]
  refine .level (fun room => Grammar.operations limit layer start room left) (fun room => do
      let _ ← advance
      let right ← Grammar.layered limit layer.operands room
      Grammar.operations limit layer start room (.binary sign.op left right (← spanFrom start)))
    hzero (fun room => by simp only [Grammar.operations, peek_bind, hop, Grammar.operand_eq])
    (fun room => ?_) room
  refine .advance hk (by simp [hrest]) fun k₁ h₁ => ?_
  refine .bind (hright ⟨h₁, by simp [hrest], by simpa using hgr⟩) fun _ k₂ h₂ => ?_
  rw [spanFrom_bind]
  exact hmore start _ ⟨h₂, hrest, hgm⟩

theorem complete_unary {op : UnaryOp} {operand : Derivation (.layer none)}
    (hoperand : operand.Complete limit) : (unary op operand).Complete limit := by
  intro room k rest ⟨hk, hrest, hg⟩
  have hop : UnaryOp.ofKind? k.current.kind = some op := by
    rw [Cursor.kind_eq hk]
    exact UnaryOp.ofKind?_kind op
  refine .level (Grammar.unary limit) (fun room => Production.unary (Grammar.unary limit room)
    (Grammar.primary limit room)) rfl (fun _ => rfl) (fun room => ?_) room
  simp only [Production.unary, here_bind, peek_bind, hop]
  refine .advance hk (by simp [hrest]) fun k₁ h₁ => ?_
  exact .last (hoperand ⟨h₁, hrest, hg⟩) fun _ _ h₂ => .pure h₂

theorem complete_plain {primary : Derivation .primary} (hprimary : primary.Complete limit) :
    (plain primary).Complete limit := by
  intro room k rest ⟨hk, hrest, hg⟩
  have hmeets : k.Meets primary rest := ⟨hk, hrest, hg⟩
  refine .level (Grammar.unary limit) (fun room => Production.unary (Grammar.unary limit room)
    (Grammar.primary limit room)) rfl (fun _ => rfl) (fun room => ?_) room
  simp only [Production.unary, here_bind, peek_bind, hmeets.starts.2]
  exact hprimary hmeets

/-! ### Primary expressions -/

theorem complete_group {value : Derivation .simple} (hvalue : value.Complete limit) :
    (group value).Complete limit := by
  intro room k rest ⟨hk, hrest, hg⟩
  simp only [yield_group, List.cons_append, List.nil_append, List.append_assoc] at hk
  refine .level (Grammar.parenthesized limit)
    (fun room => Production.parenthesized (Grammar.simple limit room)) rfl (fun _ => rfl)
    (fun room => ?_) room
  rw [Production.parenthesized]
  refine .expect hk rfl (by simp) fun k₁ h₁ => ?_
  have hmeets : k₁.Meets value (Terminal.symbol .rightParen :: rest) := ⟨h₁, by simp, hg⟩
  rw [current_bind, if_neg (Kind.ne_rightParen_of_opensExpression hmeets.starts)]
  refine .last (hvalue hmeets) fun _ k₂ h₂ => ?_
  exact .symbol h₂ hrest fun k₃ h₃ => .pure h₃

/-- A primary expression goes by the token at hand. -/
theorem runs_primary {A : Prop} {m : Nat} {Q : Expr → Cursor → Prop}
    (h : ∀ room, Runs A m room (Production.primary (Grammar.index limit room)
      (Grammar.parenthesized limit room) (Grammar.suffixes limit room) k) Q) (room : Nat) :
    Runs A (m + 1) room (Grammar.primary limit room k) Q :=
  .level (Grammar.primary limit) (fun room => Production.primary (Grammar.index limit room)
    (Grammar.parenthesized limit room) (Grammar.suffixes limit room)) rfl (fun _ => rfl) h room

theorem complete_null : null.Complete limit := by
  intro room k rest ⟨hk, hrest, _⟩
  refine runs_primary (fun room => ?_) room
  simp only [Production.primary, current_bind, Cursor.kind_eq hk]
  exact .advance hk hrest fun _ h₁ => .pure h₁

theorem complete_number {text : String} : (number text).Complete limit := by
  intro room k rest ⟨hk, hrest, _⟩
  refine runs_primary (fun room => ?_) room
  simp only [Production.primary, current_bind, Cursor.kind_eq hk]
  exact .advance hk hrest fun _ h₁ => .pure h₁

theorem complete_string {text : String} : (string text).Complete limit := by
  intro room k rest ⟨hk, hrest, _⟩
  refine runs_primary (fun room => ?_) room
  simp only [Production.primary, current_bind, Cursor.kind_eq hk]
  exact .advance hk hrest fun _ h₁ => .pure h₁

theorem one_le_need_suffixes (d : Derivation .suffixes) : 1 ≤ d.need := by
  cases d with
  | ended => exact Nat.le_refl 1
  | link first more => exact Nat.le_trans (Nat.le_add_left 1 first.need) (Nat.le_max_left _ _)

theorem length_lt_of_bounded {d : Derivation .suffixes} (h : d.Bounded) :
    d.length < maxLinks := by
  cases d with
  | ended => exact Nat.zero_lt_succ _
  | link first more => exact h.2.2

theorem runs_suffixes {d : Derivation .suffixes} (hd : d.Complete limit) (h : k.Meets d rest)
    (base : Expr) :
    Runs d.Bounded d.need room (Grammar.suffixes limit room base k) (Before rest) := by
  cases room with
  | zero =>
    have hneed := one_le_need_suffixes d
    exact .limit (fun hfits => by omega) rfl
  | succ room =>
    refine .congr (hd base h (Nat.le_refl _)) ?_
    rw [and_iff_left_of_imp length_lt_of_bounded]

/-- An index where there is one: what follows it is read either way. -/
theorem runs_index {A : Prop} {m : Nat} {β : Type} {Q : β → Cursor → Prop}
    {index : Derivation .optionalIndex} (hindex : index.Complete limit)
    (h : k.Meets index rest) {f : Index → Parser β} {g : Parser β}
    (hf : ∀ i k', k'.terminals = rest → Runs A m room (f i k') Q)
    (hg : k.terminals = rest → Runs A m room (g k) Q) :
    Runs (index.Bounded ∧ A) (max index.need m) room
      ((if k.current.kind = .symbol .leftBracket then Grammar.index limit room >>= f else g) k)
      Q := by
  cases index with
  | unindexed =>
    have hkind : k.current.kind ≠ .symbol .leftBracket := by
      rw [← Cursor.ahead_terminals k .endOfInput, h.terminals]
      exact h.greedy
    rw [if_neg hkind]
    refine .congr (hg h.terminals) ?_
    show A ∧ m ≤ room ↔ (True ∧ A) ∧ max 0 m ≤ room
    rw [true_and, Nat.zero_max]
  | indexed index =>
    have hmeets : k.Meets index rest := ⟨h.terminals, h.behind, h.greedy⟩
    have hkind : k.current.kind = .symbol .leftBracket := hmeets.starts
    rw [if_pos hkind]
    exact .bind (hindex index rfl hmeets) hf

theorem complete_named {name : String} {index : Derivation .optionalIndex}
    {more : Derivation .suffixes} (hindex : index.Complete limit)
    (hmore : more.Complete limit) : (named name index more).Complete limit := by
  intro room k rest ⟨hk, hrest, hgi, hgm⟩
  simp only [yield_named, List.cons_append, List.nil_append, List.append_assoc] at hk
  refine runs_primary (fun room => ?_) room
  simp only [Production.primary, current_bind, Cursor.kind_eq hk]
  refine .advance hk (by simp [hrest]) fun k₁ h₁ => ?_
  rw [peek_bind]
  refine runs_index hindex ⟨h₁, by simp [hrest], by simpa using hgi⟩ (fun _ k₂ h₂ => ?_)
    fun h₂ => ?_
  · rw [spanFrom_bind]
    exact runs_suffixes hmore ⟨h₂, hrest, hgm⟩ _
  · exact runs_suffixes hmore ⟨h₂, hrest, hgm⟩ _

theorem complete_grouped {value : Derivation .group} {more : Derivation .suffixes}
    (hvalue : value.Complete limit) (hmore : more.Complete limit) :
    (grouped value more).Complete limit := by
  intro room k rest ⟨hk, hrest, hgv, hgm⟩
  rw [yield_grouped, List.append_assoc] at hk
  have hmeets : k.Meets value (more.yield ++ rest) := ⟨hk, by simp [hrest], by simpa using hgv⟩
  refine runs_primary (fun room => ?_) room
  simp only [Production.primary, current_bind, show k.current.kind = _ from hmeets.starts]
  refine .bind (hvalue hmeets) fun _ k₁ h₁ => ?_
  exact runs_suffixes hmore ⟨h₁, hrest, hgm⟩ _

/-! ### Suffixes -/

/-- Where no suffix can start none is found. -/
theorem suffix_of_not_startsSuffix {value : Parser Expr} {bracket : Parser Index} {base : Expr}
    (h : k.current.kind.startsSuffix = false) :
    Production.suffix value bracket base k = .ok (none, k) := by
  simp only [Production.suffix, peek_bind]
  generalize k.current.kind = kind at h ⊢
  split <;> first | cases h | rfl

theorem complete_ended : ended.Complete limit := by
  intro room left k rest base ⟨hk, hrest, hg⟩ hleft
  have hkind : k.current.kind.startsSuffix = false := by
    rw [← Cursor.ahead_terminals k .endOfInput, hk]
    exact hg
  cases left with
  | zero => exact .limit (fun hfits => Nat.not_lt_zero _ hfits.1.2) rfl
  | succ left =>
    have hfits : True ∧ 0 ≤ room + 1 ↔ (True ∧ 0 < left + 1) ∧ 1 ≤ room + 1 := by simp
    rw [chain, bind_of_ok (suffix_of_not_startsSuffix hkind)]
    exact .congr (.pure hk) hfits

theorem complete_link {first : Derivation .suffix} {more : Derivation .suffixes}
    (hfirst : first.Complete limit) (hmore : more.Complete limit) :
    (link first more).Complete limit := by
  intro room left k rest base ⟨hk, hrest, hgf, hgm⟩ hleft
  rw [yield_link, List.append_assoc] at hk
  cases left with
  | zero => exact .limit (fun hfits => Nat.not_lt_zero _ hfits.1.2) rfl
  | succ left =>
    have hmeets : k.Meets first (more.yield ++ rest) := ⟨hk, by simp [hrest], by simpa using hgf⟩
    rw [chain]
    refine .congr (.bind (hfirst base hmeets).succ (B := more.Bounded ∧ more.length < left)
      (n := more.need) fun o k₁ h₁ => ?_) ?_
    · obtain ⟨longer, rfl⟩ := Option.isSome_iff_exists.mp h₁.1
      exact hmore longer ⟨h₁.2, hrest, hgm⟩ (Nat.le_of_succ_le hleft)
    · show (first.Bounded ∧ more.Bounded ∧ more.length < left) ∧
          max (first.need + 1) more.need ≤ room + 1 ↔
        ((first.Bounded ∧ more.Bounded ∧ more.length + 1 < maxLinks) ∧
          more.length + 1 < left + 1) ∧ max (first.need + 1) more.need ≤ room + 1
      grind

theorem runs_indexedCall {index : Derivation .optionalIndex} (hindex : index.Complete limit)
    (h : k.Meets index rest) (call : Expr) :
    Runs index.Bounded index.need room
      (Production.indexedCall (Grammar.index limit room) call k) (Before rest) := by
  rw [Production.indexedCall, peek_bind]
  refine .congr (runs_index hindex h (fun _ _ h₁ => .pure h₁) fun h₁ => .pure h₁) ?_
  rw [and_true, Nat.max_zero]

theorem runs_optionalIndex {index : Derivation .optionalIndex} (hindex : index.Complete limit)
    (h : k.Meets index rest) :
    Runs index.Bounded index.need room (Production.optionalIndex (Grammar.index limit room) k)
      (Before rest) := by
  rw [Production.optionalIndex, peek_bind, ← bind_pure (Grammar.index limit room)]
  refine .congr (runs_index hindex h (fun _ _ h₁ => .pure h₁) fun h₁ => .pure h₁) ?_
  rw [and_true, Nat.max_zero]

theorem complete_call {args : Derivation .arguments} {index : Derivation .optionalIndex}
    (hargs : args.Complete limit) (hindex : index.Complete limit) :
    (call args index).Complete limit := by
  intro room k rest base ⟨hk, hrest, hga, hgi⟩
  simp only [yield_call, List.cons_append, List.nil_append, List.append_assoc] at hk
  simp only [Grammar.suffix, Production.suffix, peek_bind, Cursor.kind_eq hk]
  refine .bind (runs_arguments hargs hk (by simp [hrest]) hga) fun _ k₁ h₁ => ?_
  rw [spanFrom_bind]
  exact .last (runs_indexedCall hindex ⟨h₁, hrest, hgi⟩ _) fun _ _ h₂ => .pure ⟨rfl, h₂⟩

theorem complete_method {name : String} {args : Derivation .arguments}
    {index : Derivation .optionalIndex} (hargs : args.Complete limit)
    (hindex : index.Complete limit) : (method name args index).Complete limit := by
  intro room k rest base ⟨hk, hrest, hga, hgi⟩
  simp only [yield_method, List.cons_append, List.nil_append, List.append_assoc] at hk
  simp only [Grammar.suffix, Production.suffix, peek_bind, Cursor.kind_eq hk]
  refine .advance hk (by simp) fun k₁ h₁ => ?_
  refine .expect h₁ rfl (by simp) fun k₂ h₂ => ?_
  rw [peek_bind, if_pos (Cursor.kind_eq h₂)]
  refine .bind (runs_arguments hargs h₂ (by simp [hrest]) hga) fun _ k₃ h₃ => ?_
  rw [spanFrom_bind, spanFrom_bind]
  exact .last (runs_indexedCall hindex ⟨h₃, hrest, hgi⟩ _) fun _ _ h₄ => .pure ⟨rfl, h₄⟩

theorem complete_member {name : String} {index : Derivation .optionalIndex}
    (hindex : index.Complete limit) : (member name index).Complete limit := by
  intro room k rest base ⟨hk, hrest, hgi, hparen⟩
  simp only [yield_member, List.cons_append, List.nil_append] at hk
  simp only [Grammar.suffix, Production.suffix, peek_bind, Cursor.kind_eq hk]
  refine .advance hk (by simp) fun k₁ h₁ => ?_
  refine .expect h₁ rfl (by simp [hrest]) fun k₂ h₂ => ?_
  have hkind : k₂.current.kind ≠ .symbol .leftParen := by
    rwa [← Cursor.ahead_terminals k₂ .endOfInput, h₂, ahead_append]
  rw [peek_bind, if_neg hkind]
  exact .last (runs_optionalIndex hindex ⟨h₂, hrest, hgi⟩) fun _ _ h₃ => .pure ⟨rfl, h₃⟩

theorem complete_descendant {name : String} {index : Derivation .optionalIndex}
    (hindex : index.Complete limit) : (descendant name index).Complete limit := by
  intro room k rest base ⟨hk, hrest, hgi⟩
  simp only [yield_descendant, List.cons_append, List.nil_append] at hk
  simp only [Grammar.suffix, Production.suffix, peek_bind, Cursor.kind_eq hk]
  refine .advance hk (by simp) fun k₁ h₁ => ?_
  refine .name h₁ (by simp [hrest]) fun name k₂ h₂ => ?_
  exact .last (runs_optionalIndex hindex ⟨h₂, hrest, hgi⟩) fun _ _ h₃ => .pure ⟨rfl, h₃⟩

theorem complete_hash {name : String} {index : Derivation .optionalIndex}
    (hindex : index.Complete limit) : (hash name index).Complete limit := by
  intro room k rest base ⟨hk, hrest, hgi⟩
  simp only [yield_hash, List.cons_append, List.nil_append] at hk
  simp only [Grammar.suffix, Production.suffix, peek_bind, Cursor.kind_eq hk]
  refine .advance hk (by simp) fun k₁ h₁ => ?_
  refine .name h₁ (by simp [hrest]) fun name k₂ h₂ => ?_
  exact .last (runs_optionalIndex hindex ⟨h₂, hrest, hgi⟩) fun _ _ h₃ => .pure ⟨rfl, h₃⟩

theorem complete_star : star.Complete limit := by
  intro room k rest base ⟨hk, hrest, _⟩
  simp only [Grammar.suffix, Production.suffix, peek_bind, Cursor.kind_eq hk]
  exact .advance hk hrest fun _ h₁ => .pure ⟨rfl, h₁⟩

/-! ### Indexes -/

theorem complete_every : every.Complete limit := by
  intro room k rest ⟨hk, hrest, _⟩
  simp only [yield_every, List.cons_append, List.nil_append] at hk
  refine .level (Grammar.index limit) (fun room => Production.index (Grammar.simple limit room))
    rfl (fun _ => rfl) (fun room => ?_) room
  rw [Production.index_eq]
  refine .symbol hk (by simp) fun k₁ h₁ => ?_
  have hentry : Runs True 0 room (Production.entry (Grammar.simple limit room) k₁)
      (Before (Terminal.symbol .rightBracket :: rest)) := by
    rw [Production.entry, peek_bind, Cursor.kind_eq h₁]
    exact .advance h₁ (by simp) fun _ h₂ => .pure h₂
  exact .last hentry fun _ k₂ h₂ => .symbol h₂ hrest fun _ h₃ => .pure h₃

/-- The part of an index between the brackets, by the token behind the opening one. -/
theorem runs_entry {mode : IndexMode} {value : Derivation .simple} (hvalue : value.Complete limit)
    (hk : k.terminals = mode.sign ++ (value.yield ++ Terminal.symbol .rightBracket :: rest))
    (hg : value.Greedy (.symbol .rightBracket))
    (hsign : mode = .absolute → ∀ sign ∈ [Symbol.plus, .minus],
      ahead value.yield (.symbol .rightBracket) ≠ .symbol sign) :
    Runs value.Bounded value.need room (Production.entry (Grammar.simple limit room) k)
      (Before (Terminal.symbol .rightBracket :: rest)) := by
  rw [Production.entry, peek_bind]
  cases mode with
  | absolute =>
    have hmeets : k.Meets value (Terminal.symbol .rightBracket :: rest) := ⟨hk, by simp, hg⟩
    have hplus := hsign rfl .plus (by simp)
    have hminus := hsign rfl .minus (by simp)
    have hkind : ahead value.yield (.symbol .rightBracket) = k.current.kind := by
      rw [← Cursor.ahead_terminals k .endOfInput, hk, IndexMode.sign, List.nil_append, ahead_append]
      rfl
    have hstarts : k.current.kind.opensExpression = true := hmeets.starts
    rw [hkind] at hplus hminus
    generalize k.current.kind = kind at hplus hminus hstarts
    split
    · cases hstarts
    · exact absurd rfl hplus
    · exact absurd rfl hminus
    · exact .last (hvalue hmeets) fun _ _ h₁ => .pure h₁
  | forward =>
    rw [Cursor.kind_eq hk]
    refine .advance hk (by simp) fun k₁ h₁ => ?_
    exact .last (hvalue ⟨h₁, by simp, hg⟩) fun _ _ h₂ => .pure h₂
  | backward =>
    rw [Cursor.kind_eq hk]
    refine .advance hk (by simp) fun k₁ h₁ => ?_
    exact .last (hvalue ⟨h₁, by simp, hg⟩) fun _ _ h₂ => .pure h₂

theorem complete_entry {mode : IndexMode} {value : Derivation .simple}
    (hvalue : value.Complete limit) : (entry mode value).Complete limit := by
  intro room k rest ⟨hk, hrest, hg, hsign⟩
  simp only [yield_entry, List.cons_append, List.nil_append, List.append_assoc] at hk
  refine .level (Grammar.index limit) (fun room => Production.index (Grammar.simple limit room))
    rfl (fun _ => rfl) (fun room => ?_) room
  rw [Production.index_eq]
  refine .symbol hk (by simp) fun k₁ h₁ => ?_
  refine .last (runs_entry hvalue h₁ hg hsign) fun _ k₂ h₂ => ?_
  exact .symbol h₂ hrest fun _ h₃ => .pure h₃

/-! ### The grammar -/

/-- **Completeness**: in front of what a greedy derivation derives, the parser of its rule
reads exactly that, or a limit stops it. -/
theorem complete (limit : Nat) {r : Rule} (d : Derivation r) : d.Complete limit := by
  induction d with
  | done => exact complete_done
  | item first more ihf ihm => exact complete_item ihf ihm
  | function name params body ih => exact complete_function ih
  | var name init ih => exact complete_var ih
  | expr target value iht ihv => exact complete_expr iht ihv
  | branch cond body more ihc ihb ihm => exact complete_branch ihc ihb ihm
  | loop cond body ihc ihb => exact complete_loop ihc ihb
  | count name start way stop step body iha ihz ihs ihb => exact complete_count iha ihz ihs ihb
  | each name first more body ihf ihm ihb => exact complete_each ihf ihm ihb
  | scope body ih => exact complete_scope ih
  | leave => exact complete_leave
  | skip => exact complete_skip
  | nothing => exact complete_nothing
  | last body ih => exact complete_last ih
  | elseIf cond body more ihc ihb ihm => exact complete_elseIf ihc ihb ihm
  | absent => exact fun _ h => nomatch h
  | present value ih => exact fun _ h => Derivation.present.inj h ▸ ih
  | binary first more ihf ihm => exact complete_binary ihf ihm
  | unary op operand ih => exact complete_unary ih
  | plain primary ih => exact complete_plain ih
  | finished => exact complete_finished
  | operation sign right more ihr ihm => exact complete_operation ihr ihm
  | group value ih => exact complete_group ih
  | null => exact complete_null
  | number text => exact complete_number
  | string text => exact complete_string
  | named name index more ihi ihm => exact complete_named ihi ihm
  | grouped value more ihv ihm => exact complete_grouped ihv ihm
  | ended => exact complete_ended
  | link first more ihf ihm => exact complete_link ihf ihm
  | call args index iha ihi => exact complete_call iha ihi
  | method name args index iha ihi => exact complete_method iha ihi
  | member name index ih => exact complete_member ih
  | descendant name index ih => exact complete_descendant ih
  | hash name index ih => exact complete_hash ih
  | star => exact complete_star
  | every => exact complete_every
  | entry mode value ih => exact complete_entry ih
  | unindexed => exact fun _ h => nomatch h
  | indexed index ih => exact fun _ h => Derivation.indexed.inj h ▸ ih
  | noArguments => exact complete_noArguments
  | someArguments first more ihf ihm => exact complete_someArguments ihf ihm
  | noMore => exact complete_noMore
  | oneMore first more ihf ihm => exact complete_oneMore ihf ihm

end Derivation

end FormCalc
