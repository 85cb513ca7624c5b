import FormCalc.Proofs.Tree.Bare
import FormCalc.Proofs.Tree.Printed

/-!
# The shape of parsed trees

Not every tree can be turned into JavaScript that makes sense: an assignment becomes a
statement, so it must not stand inside an expression, and half of a method call means nothing
alone.  `Expr.Shaped`, `Stmt.Shaped` and `Program.Shaped` say what may stand where.

* Assignments stand only as statements.
* A call of a method stands only as the second half of `method`, with a bare name as callee.
* An index stands behind a name, a member or a whole call, never behind `.*`.
* Wherever there is text it is a lexeme, and lists stay within their limits.

Spans play no part in it (`Stmt.shaped_of_bare`).
-/

namespace FormCalc

open FormCalc.Parser (maxLinks maxStatements)

/-! ### Expressions -/

/-- Whether an expression is a call on its own: a method call with its receiver, or a call that
is no half of one. -/
def Expr.isWholeCall : Expr → Bool
  | .call _ _ isMethod _ => !isMethod
  | .method .. => true
  | _ => false

/-- Whether a member can be selected from a base with an index behind it. -/
def Member.Selects (base : Expr) (index : Index) : Member → Prop
  | .named name | .hash name => IsName name
  | .star => index.isNone = true
  | .callResult => base.isWholeCall = true ∧ index.isNone = false

mutual

/-- Whether an expression has the shape of one that was parsed. -/
def Expr.Shaped : Expr → Prop
  | .null _ => True
  | .number text _ => IsLexeme .number text
  | .string text _ => IsLexeme .string text
  | .identifier name _ => IsName name
  | .unary _ operand _ => operand.Shaped
  | .binary _ left right _ => left.Shaped ∧ right.Shaped
  | .assign .. => False
  | .call callee args isMethod _ =>
    isMethod = false ∧ callee.Shaped ∧ ShapedArguments args ∧ args.length ≤ maxLinks
  | .dot base member index _ => base.Shaped ∧ index.Shaped ∧ member.Selects base index
  | .element member index _ =>
    (∃ name, member = .named name ∧ IsName name) ∧ index.Shaped ∧ index.isNone = false
  | .descendant base name index _ => base.Shaped ∧ IsName name ∧ index.Shaped
  | .method receiver call _ => receiver.Shaped ∧ call.ShapedMethod

/-- Whether an expression is the second half of a method call. -/
def Expr.ShapedMethod : Expr → Prop
  | .call callee args isMethod _ =>
    isMethod = true ∧ (∃ name span, callee = .identifier name span ∧ IsName name) ∧
      ShapedArguments args ∧ args.length ≤ maxLinks
  | _ => False

/-- Whether an index has the shape of one that was parsed. -/
def Index.Shaped : Index → Prop
  | .none | .star => True
  | .entry _ expr => expr.Shaped

/-- Whether each argument has the shape of one that was parsed. -/
def ShapedArguments : List Expr → Prop
  | [] => True
  | arg :: rest => arg.Shaped ∧ ShapedArguments rest

end

/-- Whether an expression can stand as a statement: only there can it be an assignment. -/
def Expr.ShapedStatement : Expr → Prop
  | .assign target value _ => target.Shaped ∧ value.Shaped
  | expr => expr.Shaped

/-- Whether an optional part has the shape of one that was parsed. -/
def ShapedOptional : Option Expr → Prop
  | none => True
  | some expr => expr.Shaped

/-! ### Statements -/

mutual

/-- Whether a statement has the shape of one that was parsed. -/
def Stmt.Shaped : Stmt → Prop
  | .function name params body _ =>
    IsName name ∧ (∀ param ∈ params, IsName param) ∧ ShapedStmts body ∧
      body.length ≤ maxStatements
  | .var name init _ => IsName name ∧ ShapedOptional init
  | .expr expr _ => expr.ShapedStatement
  | .scope body _ => body.Shaped
  | .branch cond body otherwise _ => cond.Shaped ∧ body.Shaped ∧ otherwise.Shaped
  | .loop cond body _ => cond.Shaped ∧ body.Shaped
  | .count var start stop _ step body _ =>
    IsName var ∧ start.Shaped ∧ stop.Shaped ∧ ShapedOptional step ∧ body.Shaped
  | .each var collections body _ =>
    IsName var ∧ collections ≠ [] ∧ ShapedArguments collections ∧
      collections.length ≤ maxLinks ∧ body.Shaped
  | .leave _ | .skip _ => True

/-- Whether a block has the shape of one that was parsed. -/
def Block.Shaped : Block → Prop
  | .mk stmts _ => ShapedStmts stmts ∧ stmts.length ≤ maxStatements

/-- Whether the parts of an `if` behind its first block have the shape of parsed ones. -/
def Otherwise.Shaped : Otherwise → Prop
  | .nothing => True
  | .last body => body.Shaped
  | .elseIf cond body rest => cond.Shaped ∧ body.Shaped ∧ rest.Shaped

/-- Whether each statement has the shape of one that was parsed. -/
def ShapedStmts : List Stmt → Prop
  | [] => True
  | stmt :: rest => stmt.Shaped ∧ ShapedStmts rest

end

/-- Whether a script has the shape of one that was parsed. -/
def Program.Shaped (program : Program) : Prop :=
  ShapedStmts program.stmts ∧ program.stmts.length ≤ maxStatements

/-! ### Spans play no part -/

@[simp] theorem Expr.isWholeCall_bare (e : Expr) : e.bare.isWholeCall = e.isWholeCall := by
  cases e <;> rfl

@[simp] theorem Index.isNone_bare (index : Index) : index.bare.isNone = index.isNone := by
  cases index <;> rfl

@[simp] theorem length_bareArguments (args : List Expr) :
    (bareArguments args).length = args.length := by
  induction args with
  | nil => rfl
  | cons arg rest ih => exact congrArg (· + 1) ih

@[simp] theorem length_bareStmts (stmts : List Stmt) :
    (bareStmts stmts).length = stmts.length := by
  induction stmts with
  | nil => rfl
  | cons stmt rest ih => exact congrArg (· + 1) ih

theorem Member.selects_bare (base : Expr) (index : Index) (member : Member) :
    member.Selects base.bare index.bare ↔ member.Selects base index := by
  cases member <;> simp [Member.Selects]

theorem Expr.bare_eq_identifier {e : Expr} {name : String} {span : Span}
    (h : e.bare = .identifier name span) : ∃ span', e = .identifier name span' := by
  cases e with
  | identifier name' span' =>
    obtain ⟨rfl, -⟩ := Expr.identifier.inj h
    exact ⟨span', rfl⟩
  | null | number | string | unary | binary | assign | call | dot | element | descendant
  | method => cases h

mutual

theorem Expr.shaped_of_bare : (e : Expr) → e.bare.Shaped → e.Shaped
  | .null _, _ => trivial
  | .number .., h | .string .., h | .identifier .., h => h
  | .unary _ operand _, h => operand.shaped_of_bare h
  | .binary _ left right _, h => ⟨left.shaped_of_bare h.1, right.shaped_of_bare h.2⟩
  | .assign .., h => h
  | .call callee args _ _, h => by
    obtain ⟨hmethod, hcallee, hargs, hlength⟩ := h
    rw [length_bareArguments] at hlength
    exact ⟨hmethod, callee.shaped_of_bare hcallee, shapedArguments_of_bare args hargs, hlength⟩
  | .dot base member index _, h => by
    obtain ⟨hbase, hindex, hselects⟩ := h
    exact ⟨base.shaped_of_bare hbase, index.shaped_of_bare hindex,
      (member.selects_bare base index).mp hselects⟩
  | .element _ index _, h => by
    obtain ⟨hname, hindex, hsome⟩ := h
    rw [index.isNone_bare] at hsome
    exact ⟨hname, index.shaped_of_bare hindex, hsome⟩
  | .descendant base _ index _, h =>
    ⟨base.shaped_of_bare h.1, h.2.1, index.shaped_of_bare h.2.2⟩
  | .method receiver call _, h => ⟨receiver.shaped_of_bare h.1, call.shapedMethod_of_bare h.2⟩

theorem Expr.shapedMethod_of_bare : (e : Expr) → e.bare.ShapedMethod → e.ShapedMethod
  | .call callee args _ _, h => by
    obtain ⟨hmethod, ⟨name, span, hcallee, hname⟩, hargs, hlength⟩ := h
    rw [length_bareArguments] at hlength
    obtain ⟨span', rfl⟩ := Expr.bare_eq_identifier hcallee
    exact ⟨hmethod, ⟨name, span', rfl, hname⟩, shapedArguments_of_bare args hargs, hlength⟩
  | .null _, h | .number .., h | .string .., h | .identifier .., h | .unary .., h
  | .binary .., h | .assign .., h | .dot .., h | .element .., h | .descendant .., h
  | .method .., h => h

theorem Index.shaped_of_bare : (index : Index) → index.bare.Shaped → index.Shaped
  | .none, _ | .star, _ => trivial
  | .entry _ expr, h => expr.shaped_of_bare h

theorem shapedArguments_of_bare :
    (args : List Expr) → ShapedArguments (bareArguments args) → ShapedArguments args
  | [], _ => trivial
  | arg :: rest, h => ⟨arg.shaped_of_bare h.1, shapedArguments_of_bare rest h.2⟩

end

theorem Expr.shapedStatement_of_bare (e : Expr) (h : e.bare.ShapedStatement) :
    e.ShapedStatement := by
  cases e with
  | assign target value span => exact ⟨target.shaped_of_bare h.1, value.shaped_of_bare h.2⟩
  | null | number | string | identifier | unary | binary | call | dot | element | descendant
  | method => exact Expr.shaped_of_bare _ h

theorem shapedOptional_of_bare (part : Option Expr) (h : ShapedOptional (part.map Expr.bare)) :
    ShapedOptional part := by
  cases part with
  | none => trivial
  | some e => exact e.shaped_of_bare h

mutual

theorem Stmt.shaped_of_bare : (stmt : Stmt) → stmt.bare.Shaped → stmt.Shaped
  | .function name params body _, h => by
    obtain ⟨hname, hparams, hbody, hlength⟩ := h
    rw [length_bareStmts] at hlength
    exact ⟨hname, hparams, shapedStmts_of_bare body hbody, hlength⟩
  | .var _ init _, h => ⟨h.1, shapedOptional_of_bare init h.2⟩
  | .expr expr _, h => expr.shapedStatement_of_bare h
  | .scope body _, h => body.shaped_of_bare h
  | .branch cond body otherwise _, h =>
    ⟨cond.shaped_of_bare h.1, body.shaped_of_bare h.2.1, otherwise.shaped_of_bare h.2.2⟩
  | .loop cond body _, h => ⟨cond.shaped_of_bare h.1, body.shaped_of_bare h.2⟩
  | .count _ start stop _ step body _, h => by
    obtain ⟨hvar, hstart, hstop, hstep, hbody⟩ := h
    exact ⟨hvar, start.shaped_of_bare hstart, stop.shaped_of_bare hstop,
      shapedOptional_of_bare step hstep, body.shaped_of_bare hbody⟩
  | .each _ collections body _, h => by
    obtain ⟨hvar, hsome, hcollections, hlength, hbody⟩ := h
    rw [length_bareArguments] at hlength
    refine ⟨hvar, ?_, shapedArguments_of_bare collections hcollections, hlength,
      body.shaped_of_bare hbody⟩
    rintro rfl
    exact hsome rfl
  | .leave _, _ | .skip _, _ => trivial

theorem Block.shaped_of_bare : (body : Block) → body.bare.Shaped → body.Shaped
  | .mk stmts _, h => by
    obtain ⟨hstmts, hlength⟩ := h
    rw [length_bareStmts] at hlength
    exact ⟨shapedStmts_of_bare stmts hstmts, hlength⟩

theorem Otherwise.shaped_of_bare : (rest : Otherwise) → rest.bare.Shaped → rest.Shaped
  | .nothing, _ => trivial
  | .last body, h => body.shaped_of_bare h
  | .elseIf cond body rest, h =>
    ⟨cond.shaped_of_bare h.1, body.shaped_of_bare h.2.1, rest.shaped_of_bare h.2.2⟩

theorem shapedStmts_of_bare :
    (stmts : List Stmt) → ShapedStmts (bareStmts stmts) → ShapedStmts stmts
  | [], _ => trivial
  | stmt :: rest, h => ⟨stmt.shaped_of_bare h.1, shapedStmts_of_bare rest h.2⟩

end

theorem Program.shaped_of_bare {program : Program} (h : program.bare.Shaped) :
    program.Shaped := by
  obtain ⟨hstmts, hlength⟩ := h
  have hsame : program.bare.stmts.length = program.stmts.length := length_bareStmts program.stmts
  exact ⟨shapedStmts_of_bare program.stmts hstmts, hsame ▸ hlength⟩

end FormCalc
