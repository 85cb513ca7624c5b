import FormCalc.Proofs.Grammar.Derivation

/-!
# The grammar is unambiguous

Greedy choice leaves one derivation.  Two greedy derivations from one rule, read off the
same terminals, are equal and leave the same terminals behind (`Derivation.unique`).

The argument is one induction on the first derivation.  Where a rule has alternatives the
terminal at hand decides between them: `Derivation.starts` says with which kinds a
derivation can begin, and where one alternative is to stop, `Greedy` says that the kind
behind it begins no other.
-/

namespace FormCalc

open Terminal

/-! ### How derivations begin -/

/-- The kinds that a derivation from a rule can begin with.  Nothing is said of the rules
that can derive nothing. -/
def Rule.Starts : Rule → Kind → Prop
  | .statement, kind => kind.startsStatement = true
  | .layer _, kind => kind.opensExpression = true
  | .primary, kind => kind.opensExpression = true ∧ UnaryOp.ofKind? kind = none
  | .group, kind => kind = .symbol .leftParen
  | .suffix, kind => kind.startsSuffix = true
  | .index, kind => kind = .symbol .leftBracket
  | _, _ => True

theorem Kind.startsStatement_of_opensExpression {kind : Kind}
    (h : kind.opensExpression = true) : kind.startsStatement = true := by
  unfold startsStatement
  split <;> first | rfl | exact h

/-- **A derivation begins with a kind of its rule.**  The kind behind it does not matter,
so it derives at least one terminal. -/
theorem Derivation.starts {r : Rule} (d : Derivation r) (next : Kind) :
    r.Starts (ahead d.yield next) := by
  induction d generalizing next with
  | expr target value ih _ =>
    rw [yield_expr, ahead_append]
    exact Kind.startsStatement_of_opensExpression (ih _)
  | binary first rest ih _ =>
    rw [yield_binary, ahead_append]
    exact ih _
  | plain primary ih => exact (ih next).1
  | unary op operand _ => cases op <;> rfl
  | grouped value suffixes ih _ =>
    have hparen : ahead value.yield (ahead suffixes.yield next) = .symbol .leftParen := ih _
    rw [yield_grouped, ahead_append, hparen]
    exact ⟨rfl, rfl⟩
  | null | number _ | string _ | named _ _ _ _ _ => exact ⟨rfl, rfl⟩
  | _ => first | rfl | trivial

/-- What a derivation begins with, read off the terminals that it takes. -/
theorem Derivation.starts_of_yield_append {r : Rule} {d : Derivation r} {t : Terminal}
    {more ts : List Terminal} (h : d.yield ++ more = t :: ts) : r.Starts t.kind := by
  have hstarts := d.starts (ahead more .endOfInput)
  rw [← ahead_append, h] at hstarts
  exact hstarts

/-- A derivation that stands where another one stopped begins with the kind there. -/
theorem Derivation.starts_ahead {r : Rule} (d : Derivation r) {more rest : List Terminal}
    (stop : Kind) (h : rest = d.yield ++ more) : r.Starts (ahead rest stop) := by
  rw [h, ahead_append]
  exact d.starts _

/-! ### One derivation -/

/-- Whether no other greedy derivation derives the same terminals.  The two may leave
different terminals behind as far as the premises go: that they do not is part of the
conclusion. -/
def Derivation.Unique {r : Rule} (d : Derivation r) : Prop :=
  ∀ (stop : Kind) {d' : Derivation r} {rest rest' : List Terminal},
    d.yield ++ rest = d'.yield ++ rest' → d.Greedy (ahead rest stop) →
      d'.Greedy (ahead rest' stop) → d = d' ∧ rest = rest'

namespace Derivation

/-! #### Statements -/

theorem unique_done : done.Unique := by
  intro stop d' rest rest' h hg hg'
  cases d' with
  | done => exact ⟨rfl, h⟩
  | item first' more' =>
    simp only [yield_done, yield_item, List.append_assoc] at h
    have hstarts : Rule.statement.Starts _ := first'.starts_ahead stop h
    exact absurd hstarts (Bool.eq_false_iff.mp hg)

theorem unique_item {first : Derivation .statement} {more : Derivation .statements}
    (ihf : first.Unique) (ihm : more.Unique) : (item first more).Unique := by
  intro stop d' rest rest' h hg hg'
  cases d' with
  | done =>
    simp only [yield_item, yield_done, List.append_assoc] at h
    have hstarts : Rule.statement.Starts _ := first.starts_ahead stop h.symm
    exact absurd hstarts (Bool.eq_false_iff.mp hg')
  | item first' more' =>
    simp only [yield_item, List.append_assoc] at h
    obtain ⟨rfl, hmore⟩ := ihf stop h (by simpa using hg.1) (by simpa using hg'.1)
    obtain ⟨rfl, hrest⟩ := ihm stop hmore hg.2 hg'.2
    exact ⟨rfl, hrest⟩

/-- Names behind commas end where no comma follows. -/
theorem commaNames_unique {names names' : List String} {t t' : Terminal}
    {rest rest' : List Terminal} (ht : t.kind ≠ .symbol .comma) (ht' : t'.kind ≠ .symbol .comma)
    (h : commaNames names ++ t :: rest = commaNames names' ++ t' :: rest') :
    names = names' ∧ t :: rest = t' :: rest' := by
  induction names generalizing names' with
  | nil =>
    cases names' with
    | nil => exact ⟨rfl, h⟩
    | cons name' more' => exact absurd (congrArg Terminal.kind (List.cons.inj h).1) ht
  | cons name more ih =>
    cases names' with
    | nil => exact absurd (congrArg Terminal.kind (List.cons.inj h).1).symm ht'
    | cons name' more' =>
      simp only [commaNames, List.cons_append, List.cons.injEq, Terminal.mk.injEq, true_and] at h
      obtain ⟨rfl, hmore⟩ := h
      obtain ⟨rfl, hrest⟩ := ih hmore
      exact ⟨rfl, hrest⟩

/-- Names with commas between them end at the closing parenthesis. -/
theorem nameList_unique {names names' : List String} {rest rest' : List Terminal}
    (h : nameList names ++ symbol .rightParen :: rest =
      nameList names' ++ symbol .rightParen :: rest') : names = names' ∧ rest = rest' := by
  cases names with
  | nil =>
    cases names' with
    | nil => exact ⟨rfl, (List.cons.inj h).2⟩
    | cons name' more' => simp [nameList] at h
  | cons name more =>
    cases names' with
    | nil => simp [nameList] at h
    | cons name' more' =>
      simp only [nameList, List.cons_append, List.cons.injEq, Terminal.mk.injEq, true_and] at h
      obtain ⟨rfl, hmore⟩ := h
      obtain ⟨rfl, hrest⟩ := commaNames_unique (by decide) (by decide) hmore
      exact ⟨rfl, (List.cons.inj hrest).2⟩

theorem unique_function {name : String} {params : List String} {body : Derivation .statements}
    (ihb : body.Unique) : (function name params body).Unique := by
  intro stop d' rest rest' h hg hg'
  cases d' with
  | function name' params' body' =>
    simp only [yield_function, List.append_assoc, List.cons_append, List.nil_append,
      List.cons.injEq, Terminal.mk.injEq, true_and] at h
    obtain ⟨rfl, h₁⟩ := h
    obtain ⟨rfl, h₂⟩ := nameList_unique h₁
    obtain ⟨rfl, h₃⟩ := ihb stop (List.cons.inj h₂).2 hg hg'
    exact ⟨rfl, (List.cons.inj h₃).2⟩
  | expr target value =>
    simp only [yield_function, yield_expr, List.append_assoc] at h
    exact nomatch starts_of_yield_append h.symm
  | _ => simp at h

theorem unique_var {name : String} {init : Derivation (.optional (.symbol .assign))}
    (ihi : init.Unique) : (var name init).Unique := by
  intro stop d' rest rest' h hg hg'
  cases d' with
  | var name' init' =>
    simp only [yield_var, List.cons_append, List.nil_append, List.cons.injEq, Terminal.mk.injEq,
      true_and] at h
    obtain ⟨rfl, h₁⟩ := h
    obtain ⟨rfl, h₂⟩ := ihi stop h₁ hg hg'
    exact ⟨rfl, h₂⟩
  | expr target value =>
    simp only [yield_var, yield_expr, List.append_assoc] at h
    exact nomatch starts_of_yield_append h.symm
  | _ => simp at h

theorem unique_expr {target : Derivation .simple}
    {value : Derivation (.optional (.symbol .assign))} (iht : target.Unique)
    (ihv : value.Unique) : (expr target value).Unique := by
  intro stop d' rest rest' h hg hg'
  cases d' with
  | expr target' value' =>
    simp only [yield_expr, List.append_assoc] at h
    obtain ⟨rfl, h₁⟩ := iht stop h (by simpa using hg.1) (by simpa using hg'.1)
    obtain ⟨rfl, h₂⟩ := ihv stop h₁ hg.2 hg'.2
    exact ⟨rfl, h₂⟩
  | _ =>
    -- Every other statement begins with a keyword that begins no expression.
    simp only [yield_expr, yield_function, yield_var, yield_branch, yield_loop, yield_count,
      yield_each, yield_scope, yield_leave, yield_skip, List.append_assoc, List.cons_append,
      List.nil_append] at h
    exact nomatch starts_of_yield_append h

theorem unique_branch {cond : Derivation .group} {body : Derivation .statements}
    {arms : Derivation .otherwise} (ihc : cond.Unique) (ihb : body.Unique)
    (iha : arms.Unique) : (branch cond body arms).Unique := by
  intro stop d' rest rest' h hg hg'
  cases d' with
  | branch cond' body' arms' =>
    simp only [yield_branch, List.append_assoc, List.cons_append, List.nil_append, List.cons.injEq,
      true_and] at h
    obtain ⟨rfl, h₁⟩ := ihc stop h hg.1 hg'.1
    obtain ⟨rfl, h₂⟩ := ihb stop (List.cons.inj h₁).2 (by simpa using hg.2.1)
      (by simpa using hg'.2.1)
    obtain ⟨rfl, h₃⟩ := iha stop h₂ hg.2.2 hg'.2.2
    exact ⟨rfl, (List.cons.inj h₃).2⟩
  | expr target value =>
    simp only [yield_branch, yield_expr, List.append_assoc] at h
    exact nomatch starts_of_yield_append h.symm
  | _ => simp at h

theorem unique_loop {cond : Derivation .group} {body : Derivation .statements}
    (ihc : cond.Unique) (ihb : body.Unique) : (loop cond body).Unique := by
  intro stop d' rest rest' h hg hg'
  cases d' with
  | loop cond' body' =>
    simp only [yield_loop, List.append_assoc, List.cons_append, List.nil_append, List.cons.injEq,
      true_and] at h
    obtain ⟨rfl, h₁⟩ := ihc stop h hg.1 hg'.1
    obtain ⟨rfl, h₂⟩ := ihb stop (List.cons.inj h₁).2 hg.2 hg'.2
    exact ⟨rfl, (List.cons.inj h₂).2⟩
  | expr target value =>
    simp only [yield_loop, yield_expr, List.append_assoc] at h
    exact nomatch starts_of_yield_append h.symm
  | _ => simp at h

theorem unique_count {name : String} {start : Derivation .simple} {direction : Direction}
    {last : Derivation .simple} {step : Derivation (.optional (.keyword .kwStep))}
    {body : Derivation .statements} (ihs : start.Unique) (ihl : last.Unique)
    (iht : step.Unique) (ihb : body.Unique) :
    (count name start direction last step body).Unique := by
  intro stop d' rest rest' h hg hg'
  cases d' with
  | count name' start' direction' last' step' body' =>
    simp only [yield_count, List.append_assoc, List.cons_append, List.nil_append, List.cons.injEq,
      Terminal.mk.injEq, true_and] at h
    obtain ⟨rfl, h₁⟩ := h
    obtain ⟨rfl, h₂⟩ := ihs stop h₁ hg.1 hg'.1
    simp only [List.cons.injEq, Terminal.mk.injEq, Kind.keyword.injEq, and_true] at h₂
    obtain rfl : direction = direction' := by
      cases direction <;> cases direction' <;> first | rfl | exact nomatch h₂.1
    obtain ⟨rfl, h₃⟩ := ihl stop h₂.2 (by simpa using hg.2.1) (by simpa using hg'.2.1)
    obtain ⟨rfl, h₄⟩ := iht stop h₃ hg.2.2.1 hg'.2.2.1
    obtain ⟨rfl, h₅⟩ := ihb stop (List.cons.inj h₄).2 hg.2.2.2 hg'.2.2.2
    exact ⟨rfl, (List.cons.inj h₅).2⟩
  | expr target value =>
    simp only [yield_count, yield_expr, List.append_assoc] at h
    exact nomatch starts_of_yield_append h.symm
  | _ => simp at h

theorem unique_each {name : String} {first : Derivation .simple}
    {more : Derivation .moreArguments} {body : Derivation .statements} (ihf : first.Unique)
    (ihm : more.Unique) (ihb : body.Unique) : (each name first more body).Unique := by
  intro stop d' rest rest' h hg hg'
  cases d' with
  | each name' first' more' body' =>
    simp only [yield_each, List.append_assoc, List.cons_append, List.nil_append, List.cons.injEq,
      Terminal.mk.injEq, true_and] at h
    obtain ⟨rfl, h₁⟩ := h
    obtain ⟨rfl, h₂⟩ := ihf stop h₁ (by simpa using hg.1) (by simpa using hg'.1)
    obtain ⟨rfl, h₃⟩ := ihm stop h₂ hg.2.1 hg'.2.1
    obtain ⟨rfl, h₄⟩ := ihb stop (List.cons.inj (List.cons.inj h₃).2).2 hg.2.2 hg'.2.2
    exact ⟨rfl, (List.cons.inj h₄).2⟩
  | expr target value =>
    simp only [yield_each, yield_expr, List.append_assoc] at h
    exact nomatch starts_of_yield_append h.symm
  | _ => simp at h

theorem unique_scope {body : Derivation .statements} (ihb : body.Unique) :
    (scope body).Unique := by
  intro stop d' rest rest' h hg hg'
  cases d' with
  | scope body' =>
    simp only [yield_scope, List.append_assoc, List.cons_append, List.nil_append, List.cons.injEq,
      true_and] at h
    obtain ⟨rfl, h₁⟩ := ihb stop h hg hg'
    exact ⟨rfl, (List.cons.inj h₁).2⟩
  | expr target value =>
    simp only [yield_scope, yield_expr, List.append_assoc] at h
    exact nomatch starts_of_yield_append h.symm
  | _ => simp at h

theorem unique_leave : leave.Unique := by
  intro stop d' rest rest' h hg hg'
  cases d' with
  | leave => exact ⟨rfl, (List.cons.inj h).2⟩
  | expr target value =>
    simp only [yield_leave, yield_expr, List.append_assoc] at h
    exact nomatch starts_of_yield_append h.symm
  | _ => simp at h

theorem unique_skip : skip.Unique := by
  intro stop d' rest rest' h hg hg'
  cases d' with
  | skip => exact ⟨rfl, (List.cons.inj h).2⟩
  | expr target value =>
    simp only [yield_skip, yield_expr, List.append_assoc] at h
    exact nomatch starts_of_yield_append h.symm
  | _ => simp at h

theorem unique_nothing : nothing.Unique := by
  intro stop d' rest rest' h hg hg'
  cases d' with
  | nothing => exact ⟨rfl, h⟩
  | last body' => exact absurd (congrArg (ahead · stop) h) hg.2
  | elseIf cond' body' arms' =>
    simp only [yield_nothing, yield_elseIf, List.append_assoc, List.cons_append,
      List.nil_append] at h
    exact absurd (congrArg (ahead · stop) h) hg.1

theorem unique_last {body : Derivation .statements} (ihb : body.Unique) :
    (last body).Unique := by
  intro stop d' rest rest' h hg hg'
  cases d' with
  | nothing => exact absurd (congrArg (ahead · stop) h).symm hg'.2
  | last body' =>
    simp only [yield_last, List.cons_append, List.nil_append, List.cons.injEq, true_and] at h
    obtain ⟨rfl, h₁⟩ := ihb stop h hg hg'
    exact ⟨rfl, h₁⟩
  | elseIf cond' body' arms' => simp at h

theorem unique_elseIf {cond : Derivation .group} {body : Derivation .statements}
    {arms : Derivation .otherwise} (ihc : cond.Unique) (ihb : body.Unique)
    (iha : arms.Unique) : (elseIf cond body arms).Unique := by
  intro stop d' rest rest' h hg hg'
  cases d' with
  | nothing =>
    simp only [yield_elseIf, yield_nothing, List.append_assoc, List.cons_append,
      List.nil_append] at h
    exact absurd (congrArg (ahead · stop) h).symm hg'.1
  | last body' => simp at h
  | elseIf cond' body' arms' =>
    simp only [yield_elseIf, List.append_assoc, List.cons_append, List.nil_append, List.cons.injEq,
      true_and] at h
    obtain ⟨rfl, h₁⟩ := ihc stop h hg.1 hg'.1
    obtain ⟨rfl, h₂⟩ := ihb stop (List.cons.inj h₁).2 (by simpa using hg.2.1)
      (by simpa using hg'.2.1)
    obtain ⟨rfl, h₃⟩ := iha stop h₂ hg.2.2 hg'.2.2
    exact ⟨rfl, h₃⟩

/-! #### Expressions -/

theorem unique_absent {mark : Kind} : (absent : Derivation (.optional mark)).Unique := by
  intro stop d' rest rest' h hg hg'
  cases d' with
  | absent => exact ⟨rfl, h⟩
  | present value' => exact absurd (congrArg (ahead · stop) h) hg

theorem unique_present {mark : Kind} {value : Derivation .simple} (ihv : value.Unique) :
    (present value : Derivation (.optional mark)).Unique := by
  intro stop d' rest rest' h hg hg'
  cases d' with
  | absent => exact absurd (congrArg (ahead · stop) h).symm hg'
  | present value' =>
    simp only [yield_present, List.cons_append, List.nil_append, List.cons.injEq, true_and] at h
    obtain ⟨rfl, h₁⟩ := ihv stop h hg hg'
    exact ⟨rfl, h₁⟩

theorem unique_binary {layer : Layer} {first : Derivation (.layer layer.operands)}
    {more : Derivation (.operations layer)} (ihf : first.Unique) (ihm : more.Unique) :
    (binary first more).Unique := by
  intro stop d' rest rest' h hg hg'
  cases d' with
  | binary first' more' =>
    simp only [yield_binary, List.append_assoc] at h
    obtain ⟨rfl, h₁⟩ := ihf stop h (by simpa using hg.1) (by simpa using hg'.1)
    obtain ⟨rfl, h₂⟩ := ihm stop h₁ hg.2 hg'.2
    exact ⟨rfl, h₂⟩

theorem unique_finished {layer : Layer} : (finished : Derivation (.operations layer)).Unique := by
  intro stop d' rest rest' h hg hg'
  cases d' with
  | finished => exact ⟨rfl, h⟩
  | operation sign' right' more' =>
    have hnone : ∀ sign : layer.Sign, ahead rest stop ≠ sign.kind := hg
    rw [show rest = _ from h] at hnone
    exact absurd rfl (hnone sign')

theorem unique_operation {layer : Layer} {sign : layer.Sign}
    {right : Derivation (.layer layer.operands)} {more : Derivation (.operations layer)}
    (ihr : right.Unique) (ihm : more.Unique) : (operation sign right more).Unique := by
  intro stop d' rest rest' h hg hg'
  cases d' with
  | finished =>
    have hnone : ∀ sign : layer.Sign, ahead rest' stop ≠ sign.kind := hg'
    rw [show rest' = _ from h.symm] at hnone
    exact absurd rfl (hnone sign)
  | operation sign' right' more' =>
    simp only [yield_operation, List.append_assoc, List.cons_append, List.nil_append,
      List.cons.injEq, Terminal.mk.injEq, and_true] at h
    obtain rfl : sign = sign' := Layer.Sign.ext h.1
    obtain ⟨rfl, h₁⟩ := ihr stop h.2 (by simpa using hg.1) (by simpa using hg'.1)
    obtain ⟨rfl, h₂⟩ := ihm stop h₁ hg.2 hg'.2
    exact ⟨rfl, h₂⟩

theorem unique_unary {op : UnaryOp} {operand : Derivation (.layer none)}
    (iho : operand.Unique) : (unary op operand).Unique := by
  intro stop d' rest rest' h hg hg'
  cases d' with
  | unary op' operand' =>
    simp only [yield_unary, List.cons_append, List.nil_append, List.cons.injEq, Terminal.mk.injEq,
      and_true] at h
    obtain rfl : op = op' := by
      have hop := congrArg UnaryOp.ofKind? h.1
      simpa using hop
    obtain ⟨rfl, h₁⟩ := iho stop h.2 hg hg'
    exact ⟨rfl, h₁⟩
  | plain primary' =>
    simp only [yield_unary, yield_plain, List.cons_append, List.nil_append] at h
    have hstarts := (starts_of_yield_append h.symm).2
    simp at hstarts

theorem unique_plain {primary : Derivation .primary} (ihp : primary.Unique) :
    (plain primary).Unique := by
  intro stop d' rest rest' h hg hg'
  cases d' with
  | unary op' operand' =>
    simp only [yield_plain, yield_unary, List.cons_append, List.nil_append] at h
    have hstarts := (starts_of_yield_append h).2
    simp at hstarts
  | plain primary' =>
    simp only [yield_plain] at h
    obtain ⟨rfl, h₁⟩ := ihp stop h hg hg'
    exact ⟨rfl, h₁⟩

theorem unique_group {value : Derivation .simple} (ihv : value.Unique) :
    (group value).Unique := by
  intro stop d' rest rest' h hg hg'
  cases d' with
  | group value' =>
    simp only [yield_group, List.append_assoc, List.cons_append, List.nil_append, List.cons.injEq,
      true_and] at h
    obtain ⟨rfl, h₁⟩ := ihv stop h hg hg'
    exact ⟨rfl, (List.cons.inj h₁).2⟩

theorem unique_named {name : String} {index : Derivation .optionalIndex}
    {suffixes : Derivation .suffixes} (ihi : index.Unique) (ihs : suffixes.Unique) :
    (named name index suffixes).Unique := by
  intro stop d' rest rest' h hg hg'
  cases d' with
  | named name' index' suffixes' =>
    simp only [yield_named, List.append_assoc, List.cons_append, List.nil_append, List.cons.injEq,
      Terminal.mk.injEq, true_and] at h
    obtain ⟨rfl, h₁⟩ := h
    obtain ⟨rfl, h₂⟩ := ihi stop h₁ (by simpa using hg.1) (by simpa using hg'.1)
    obtain ⟨rfl, h₃⟩ := ihs stop h₂ hg.2 hg'.2
    exact ⟨rfl, h₃⟩
  | grouped value' suffixes' =>
    simp only [yield_named, yield_grouped, List.append_assoc, List.cons_append,
      List.nil_append] at h
    exact nomatch starts_of_yield_append h.symm
  | _ => simp at h

theorem unique_grouped {value : Derivation .group} {suffixes : Derivation .suffixes}
    (ihv : value.Unique) (ihs : suffixes.Unique) : (grouped value suffixes).Unique := by
  intro stop d' rest rest' h hg hg'
  cases d' with
  | grouped value' suffixes' =>
    simp only [yield_grouped, List.append_assoc] at h
    obtain ⟨rfl, h₁⟩ := ihv stop h (by simpa using hg.1) (by simpa using hg'.1)
    obtain ⟨rfl, h₂⟩ := ihs stop h₁ hg.2 hg'.2
    exact ⟨rfl, h₂⟩
  | _ =>
    simp only [yield_grouped, yield_null, yield_number, yield_string, yield_named,
      List.append_assoc, List.cons_append, List.nil_append] at h
    exact nomatch starts_of_yield_append h

theorem unique_null : null.Unique := by
  intro stop d' rest rest' h hg hg'
  cases d' with
  | null => exact ⟨rfl, (List.cons.inj h).2⟩
  | grouped value' suffixes' =>
    simp only [yield_null, yield_grouped, List.append_assoc] at h
    exact nomatch starts_of_yield_append h.symm
  | _ => simp at h

theorem unique_number {text : String} : (number text).Unique := by
  intro stop d' rest rest' h hg hg'
  cases d' with
  | number text' =>
    simp only [yield_number, List.cons_append, List.nil_append, List.cons.injEq,
      Terminal.mk.injEq, true_and] at h
    obtain ⟨rfl, h₁⟩ := h
    exact ⟨rfl, h₁⟩
  | grouped value' suffixes' =>
    simp only [yield_number, yield_grouped, List.append_assoc] at h
    exact nomatch starts_of_yield_append h.symm
  | _ => simp at h

theorem unique_string {text : String} : (string text).Unique := by
  intro stop d' rest rest' h hg hg'
  cases d' with
  | string text' =>
    simp only [yield_string, List.cons_append, List.nil_append, List.cons.injEq,
      Terminal.mk.injEq, true_and] at h
    obtain ⟨rfl, h₁⟩ := h
    exact ⟨rfl, h₁⟩
  | grouped value' suffixes' =>
    simp only [yield_string, yield_grouped, List.append_assoc] at h
    exact nomatch starts_of_yield_append h.symm
  | _ => simp at h

/-! #### Suffixes -/

theorem unique_ended : ended.Unique := by
  intro stop d' rest rest' h hg hg'
  cases d' with
  | ended => exact ⟨rfl, h⟩
  | link first' more' =>
    simp only [yield_ended, yield_link, List.append_assoc] at h
    have hstarts : Rule.suffix.Starts _ := first'.starts_ahead stop h
    exact absurd hstarts (Bool.eq_false_iff.mp hg)

theorem unique_link {first : Derivation .suffix} {more : Derivation .suffixes}
    (ihf : first.Unique) (ihm : more.Unique) : (link first more).Unique := by
  intro stop d' rest rest' h hg hg'
  cases d' with
  | ended =>
    simp only [yield_link, yield_ended, List.append_assoc] at h
    have hstarts : Rule.suffix.Starts _ := first.starts_ahead stop h.symm
    exact absurd hstarts (Bool.eq_false_iff.mp hg')
  | link first' more' =>
    simp only [yield_link, List.append_assoc] at h
    obtain ⟨rfl, h₁⟩ := ihf stop h (by simpa using hg.1) (by simpa using hg'.1)
    obtain ⟨rfl, h₂⟩ := ihm stop h₁ hg.2 hg'.2
    exact ⟨rfl, h₂⟩

theorem unique_call {args : Derivation .arguments} {index : Derivation .optionalIndex}
    (iha : args.Unique) (ihi : index.Unique) : (call args index).Unique := by
  intro stop d' rest rest' h hg hg'
  cases d' with
  | call args' index' =>
    simp only [yield_call, List.append_assoc, List.cons_append, List.nil_append, List.cons.injEq,
      true_and] at h
    obtain ⟨rfl, h₁⟩ := iha stop h hg.1 hg'.1
    obtain ⟨rfl, h₂⟩ := ihi stop (List.cons.inj h₁).2 hg.2 hg'.2
    exact ⟨rfl, h₂⟩
  | _ => simp at h

theorem unique_method {name : String} {args : Derivation .arguments}
    {index : Derivation .optionalIndex} (iha : args.Unique) (ihi : index.Unique) :
    (method name args index).Unique := by
  intro stop d' rest rest' h hg hg'
  cases d' with
  | method name' args' index' =>
    simp only [yield_method, List.append_assoc, List.cons_append, List.nil_append, List.cons.injEq,
      Terminal.mk.injEq, true_and] at h
    obtain ⟨rfl, h₁⟩ := h
    obtain ⟨rfl, h₂⟩ := iha stop h₁ hg.1 hg'.1
    obtain ⟨rfl, h₃⟩ := ihi stop (List.cons.inj h₂).2 hg.2 hg'.2
    exact ⟨rfl, h₃⟩
  | member name' index' =>
    simp only [yield_method, yield_member, List.append_assoc, List.cons_append, List.nil_append,
      List.cons.injEq, Terminal.mk.injEq, true_and] at h
    have hparen := congrArg (ahead · stop) h.2
    simp only [ahead_cons, ahead_append] at hparen
    exact absurd hparen.symm hg'.2
  | _ => simp at h

theorem unique_member {name : String} {index : Derivation .optionalIndex}
    (ihi : index.Unique) : (member name index).Unique := by
  intro stop d' rest rest' h hg hg'
  cases d' with
  | method name' args' index' =>
    simp only [yield_member, yield_method, List.append_assoc, List.cons_append, List.nil_append,
      List.cons.injEq, Terminal.mk.injEq, true_and] at h
    have hparen := congrArg (ahead · stop) h.2
    simp only [ahead_cons, ahead_append] at hparen
    exact absurd hparen hg.2
  | member name' index' =>
    simp only [yield_member, List.cons_append, List.nil_append, List.cons.injEq, Terminal.mk.injEq,
      true_and] at h
    obtain ⟨rfl, h₁⟩ := h
    obtain ⟨rfl, h₂⟩ := ihi stop h₁ hg.1 hg'.1
    exact ⟨rfl, h₂⟩
  | _ => simp at h

theorem unique_descendant {name : String} {index : Derivation .optionalIndex}
    (ihi : index.Unique) : (descendant name index).Unique := by
  intro stop d' rest rest' h hg hg'
  cases d' with
  | descendant name' index' =>
    simp only [yield_descendant, List.cons_append, List.nil_append, List.cons.injEq,
      Terminal.mk.injEq, true_and] at h
    obtain ⟨rfl, h₁⟩ := h
    obtain ⟨rfl, h₂⟩ := ihi stop h₁ hg hg'
    exact ⟨rfl, h₂⟩
  | _ => simp at h

theorem unique_hash {name : String} {index : Derivation .optionalIndex}
    (ihi : index.Unique) : (hash name index).Unique := by
  intro stop d' rest rest' h hg hg'
  cases d' with
  | hash name' index' =>
    simp only [yield_hash, List.cons_append, List.nil_append, List.cons.injEq, Terminal.mk.injEq,
      true_and] at h
    obtain ⟨rfl, h₁⟩ := h
    obtain ⟨rfl, h₂⟩ := ihi stop h₁ hg hg'
    exact ⟨rfl, h₂⟩
  | _ => simp at h

theorem unique_star : star.Unique := by
  intro stop d' rest rest' h hg hg'
  cases d' with
  | star => exact ⟨rfl, (List.cons.inj h).2⟩
  | _ => simp at h

/-! #### Indexes and arguments -/

theorem unique_every : every.Unique := by
  intro stop d' rest rest' h hg hg'
  cases d' with
  | every => exact ⟨rfl, by simpa using h⟩
  | entry mode' value' =>
    cases mode' with
    | absolute =>
      simp only [yield_every, yield_entry, IndexMode.sign, List.append_assoc, List.cons_append,
        List.nil_append, List.cons.injEq, true_and] at h
      exact nomatch starts_of_yield_append h.symm
    | forward => simp [IndexMode.sign] at h
    | backward => simp [IndexMode.sign] at h

/-- An absolute index does not begin with the sign of another. -/
theorem entry_absolute_ne {value : Derivation .simple} {sign : Symbol}
    {rest ts : List Terminal} {next : Kind} (hsign : sign ∈ [Symbol.plus, .minus])
    (hg : (entry .absolute value).Greedy next) :
    value.yield ++ symbol .rightBracket :: rest ≠ symbol sign :: ts := by
  intro h
  have hhead := congrArg (ahead · .endOfInput) h
  simp only [ahead_append, ahead_cons] at hhead
  exact hg.2 rfl sign hsign hhead

theorem unique_entry {mode : IndexMode} {value : Derivation .simple} (ihv : value.Unique) :
    (entry mode value).Unique := by
  intro stop d' rest rest' h hg hg'
  cases d' with
  | every =>
    cases mode with
    | absolute =>
      simp only [yield_every, yield_entry, IndexMode.sign, List.append_assoc, List.cons_append,
        List.nil_append, List.cons.injEq, true_and] at h
      exact nomatch starts_of_yield_append h
    | forward => simp [IndexMode.sign] at h
    | backward => simp [IndexMode.sign] at h
  | entry mode' value' =>
    simp only [yield_entry, List.append_assoc, List.cons_append, List.nil_append, List.cons.injEq,
      true_and] at h
    have hmode : mode = mode' := by
      cases mode <;> cases mode' <;> first
        | rfl
        | exact absurd h (entry_absolute_ne (by decide) hg)
        | exact absurd h.symm (entry_absolute_ne (by decide) hg')
        | simp [IndexMode.sign] at h
    subst hmode
    obtain ⟨rfl, h₁⟩ := ihv stop (List.append_cancel_left h) hg.1 hg'.1
    exact ⟨rfl, (List.cons.inj h₁).2⟩

theorem unique_unindexed : unindexed.Unique := by
  intro stop d' rest rest' h hg hg'
  cases d' with
  | unindexed => exact ⟨rfl, h⟩
  | indexed index' => exact absurd (index'.starts_ahead stop h) hg

theorem unique_indexed {index : Derivation .index} (ihi : index.Unique) :
    (indexed index).Unique := by
  intro stop d' rest rest' h hg hg'
  cases d' with
  | unindexed => exact absurd (index.starts_ahead stop h.symm) hg'
  | indexed index' =>
    simp only [yield_indexed] at h
    obtain ⟨rfl, h₁⟩ := ihi stop h hg hg'
    exact ⟨rfl, h₁⟩

theorem unique_noArguments : noArguments.Unique := by
  intro stop d' rest rest' h hg hg'
  cases d' with
  | noArguments => exact ⟨rfl, h⟩
  | someArguments first' more' =>
    simp only [yield_noArguments, yield_someArguments, List.append_assoc] at h
    have hstarts : Rule.simple.Starts _ := first'.starts_ahead stop h
    exact absurd hstarts (Bool.eq_false_iff.mp hg)

theorem unique_someArguments {first : Derivation .simple} {more : Derivation .moreArguments}
    (ihf : first.Unique) (ihm : more.Unique) : (someArguments first more).Unique := by
  intro stop d' rest rest' h hg hg'
  cases d' with
  | noArguments =>
    simp only [yield_someArguments, yield_noArguments, List.append_assoc] at h
    have hstarts : Rule.simple.Starts _ := first.starts_ahead stop h.symm
    exact absurd hstarts (Bool.eq_false_iff.mp hg')
  | someArguments first' more' =>
    simp only [yield_someArguments, List.append_assoc] at h
    obtain ⟨rfl, h₁⟩ := ihf stop h (by simpa using hg.1) (by simpa using hg'.1)
    obtain ⟨rfl, h₂⟩ := ihm stop h₁ hg.2 hg'.2
    exact ⟨rfl, h₂⟩

theorem unique_noMore : noMore.Unique := by
  intro stop d' rest rest' h hg hg'
  cases d' with
  | noMore => exact ⟨rfl, h⟩
  | oneMore first' more' =>
    simp only [yield_noMore, yield_oneMore, List.append_assoc, List.cons_append,
      List.nil_append] at h
    exact absurd (congrArg (ahead · stop) h) hg

theorem unique_oneMore {first : Derivation .simple} {more : Derivation .moreArguments}
    (ihf : first.Unique) (ihm : more.Unique) : (oneMore first more).Unique := by
  intro stop d' rest rest' h hg hg'
  cases d' with
  | noMore =>
    simp only [yield_oneMore, yield_noMore, List.append_assoc, List.cons_append,
      List.nil_append] at h
    exact absurd (congrArg (ahead · stop) h).symm hg'
  | oneMore first' more' =>
    simp only [yield_oneMore, List.append_assoc, List.cons_append, List.nil_append, List.cons.injEq,
      true_and] at h
    obtain ⟨rfl, h₁⟩ := ihf stop h (by simpa using hg.1) (by simpa using hg'.1)
    obtain ⟨rfl, h₂⟩ := ihm stop h₁ hg.2 hg'.2
    exact ⟨rfl, h₂⟩

/-- **Greedy derivations are unique**, and so is where they end. -/
theorem unique {r : Rule} (d : Derivation r) : d.Unique := by
  induction d with
  | done => exact unique_done
  | item _ _ ihf ihm => exact unique_item ihf ihm
  | function _ _ _ ihb => exact unique_function ihb
  | var _ _ ihi => exact unique_var ihi
  | expr _ _ iht ihv => exact unique_expr iht ihv
  | branch _ _ _ ihc ihb iha => exact unique_branch ihc ihb iha
  | loop _ _ ihc ihb => exact unique_loop ihc ihb
  | count _ _ _ _ _ _ ihs ihl iht ihb => exact unique_count ihs ihl iht ihb
  | each _ _ _ _ ihf ihm ihb => exact unique_each ihf ihm ihb
  | scope _ ihb => exact unique_scope ihb
  | leave => exact unique_leave
  | skip => exact unique_skip
  | nothing => exact unique_nothing
  | last _ ihb => exact unique_last ihb
  | elseIf _ _ _ ihc ihb iha => exact unique_elseIf ihc ihb iha
  | absent => exact unique_absent
  | present _ ihv => exact unique_present ihv
  | binary _ _ ihf ihm => exact unique_binary ihf ihm
  | unary _ _ iho => exact unique_unary iho
  | plain _ ihp => exact unique_plain ihp
  | finished => exact unique_finished
  | operation _ _ _ ihr ihm => exact unique_operation ihr ihm
  | group _ ihv => exact unique_group ihv
  | null => exact unique_null
  | number _ => exact unique_number
  | string _ => exact unique_string
  | named _ _ _ ihi ihs => exact unique_named ihi ihs
  | grouped _ _ ihv ihs => exact unique_grouped ihv ihs
  | ended => exact unique_ended
  | link _ _ ihf ihm => exact unique_link ihf ihm
  | call _ _ iha ihi => exact unique_call iha ihi
  | method _ _ _ iha ihi => exact unique_method iha ihi
  | member _ _ ihi => exact unique_member ihi
  | descendant _ _ ihi => exact unique_descendant ihi
  | hash _ _ ihi => exact unique_hash ihi
  | star => exact unique_star
  | every => exact unique_every
  | entry _ _ ihv => exact unique_entry ihv
  | unindexed => exact unique_unindexed
  | indexed _ ihi => exact unique_indexed ihi
  | noArguments => exact unique_noArguments
  | someArguments _ _ ihf ihm => exact unique_someArguments ihf ihm
  | noMore => exact unique_noMore
  | oneMore _ _ ihf ihm => exact unique_oneMore ihf ihm

end Derivation

end FormCalc
