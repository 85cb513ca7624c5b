import Mathlib
import FormCalc.Proofs.Grammar.Correctness
import FormCalc.Proofs.Token.Place

/-!
# What a tree weighs

The weight of a tree is a number of bytes that a script needs at least to have this tree in it.
Names, numbers and strings weigh what their text weighs, and of all other tokens it matters only
that they are there.

* `Expr.weight`, `Stmt.weight`: the weight of a tree.
* `Derivation.weighs`: what a derivation stands for weighs no more than its terminals.
* `Lexes.weight_le`: the terminals of a text weigh no more than the text is long.

So a parsed tree weighs no more than its script is long (`stmtsWeight_of_parse`).
-/

namespace FormCalc

open Terminal

/-! ### Trees -/

/-- The weight of a text that is a token. -/
def textWeight (text : String) : Nat := max 1 text.utf8ByteSize

theorem one_le_textWeight (text : String) : 1 ≤ textWeight text := Nat.le_max_left _ _

theorem utf8ByteSize_le_textWeight (text : String) : text.utf8ByteSize ≤ textWeight text :=
  Nat.le_max_right _ _

/-- A token of one spelling counts as one byte. -/
@[simp] theorem textWeight_empty : textWeight "" = 1 := rfl

/-- The weight of what a point selects. -/
def Member.weight : Member → Nat
  | .named name | .hash name => textWeight name
  | .star => 1
  | .callResult => 0

mutual

/-- The weight of an expression. -/
def Expr.weight : Expr → Nat
  | .null _ => 1
  | .number text _ | .string text _ => textWeight text
  | .identifier name _ => textWeight name
  | .unary _ operand _ => operand.weight + 1
  | .binary _ left right _ => left.weight + 1 + right.weight
  | .assign target value _ => target.weight + 1 + value.weight
  | .call callee args _ _ => callee.weight + argumentsWeight args + 2
  | .dot base member index _ => base.weight + member.weight + index.weight
  | .element member index _ => member.weight + index.weight
  | .descendant base name index _ => base.weight + textWeight name + index.weight
  | .method receiver call _ => receiver.weight + call.weight

/-- The weight of an index, with its brackets. -/
def Index.weight : Index → Nat
  | .none => 0
  | .star => 3
  | .entry _ expr => expr.weight + 2

/-- The weight of arguments. -/
def argumentsWeight : List Expr → Nat
  | [] => 0
  | arg :: rest => arg.weight + argumentsWeight rest

end

/-- The weight of a part behind a mark, with the mark. -/
def optionalWeight : Option Expr → Nat
  | none => 0
  | some expr => expr.weight + 1

mutual

/-- The weight of a statement. -/
def Stmt.weight : Stmt → Nat
  | .function name params body _ =>
    textWeight name + (params.map textWeight).sum + stmtsWeight body + 5
  | .var name init _ => textWeight name + optionalWeight init + 1
  | .expr expr _ => expr.weight
  | .scope body _ => body.weight + 2
  | .branch cond body otherwise _ => cond.weight + body.weight + otherwise.weight + 3
  | .loop cond body _ => cond.weight + body.weight + 3
  | .count var start stop _ step body _ =>
    textWeight var + start.weight + stop.weight + optionalWeight step + body.weight + 5
  | .each var collections body _ =>
    textWeight var + argumentsWeight collections + body.weight + 6
  | .leave _ | .skip _ => 1

/-- The weight of a block. -/
def Block.weight : Block → Nat
  | .mk stmts _ => stmtsWeight stmts

/-- The weight of the parts of an `if` behind its first block. -/
def Otherwise.weight : Otherwise → Nat
  | .nothing => 0
  | .last body => body.weight + 1
  | .elseIf cond body rest => cond.weight + body.weight + rest.weight + 2

/-- The weight of statements. -/
def stmtsWeight : List Stmt → Nat
  | [] => 0
  | stmt :: rest => stmt.weight + stmtsWeight rest

end

/-! ### Derivations -/

/-- The weight of a terminal. -/
def Terminal.weight (t : Terminal) : Nat := textWeight t.text

/-- The weight of terminals. -/
def terminalsWeight (ts : List Terminal) : Nat := (ts.map Terminal.weight).sum

section Terminals

variable (t : Terminal) (ts us : List Terminal)

@[simp] theorem terminalsWeight_nil : terminalsWeight [] = 0 := rfl

@[simp] theorem terminalsWeight_cons :
    terminalsWeight (t :: ts) = t.weight + terminalsWeight ts := by
  simp [terminalsWeight]

@[simp] theorem terminalsWeight_append :
    terminalsWeight (ts ++ us) = terminalsWeight ts + terminalsWeight us := by
  simp [terminalsWeight]

@[simp] theorem weight_text (kind : Kind) (text : String) :
    Terminal.weight ⟨kind, text⟩ = textWeight text := rfl

end Terminals

theorem weight_commaNames (names : List String) :
    (names.map textWeight).sum ≤ terminalsWeight (commaNames names) := by
  induction names with
  | nil => exact Nat.le_refl 0
  | cons name names ih =>
    simp only [List.map_cons, List.sum_cons, commaNames, terminalsWeight_cons, weight_text]
    omega

theorem weight_nameList (names : List String) :
    (names.map textWeight).sum ≤ terminalsWeight (nameList names) := by
  cases names with
  | nil => exact Nat.le_refl 0
  | cons name names =>
    have hnames := weight_commaNames names
    simp only [List.map_cons, List.sum_cons, nameList, terminalsWeight_cons, weight_text]
    omega

theorem Expr.weight_indexed (call : Expr) (index : Index) :
    (call.indexed index).weight = call.weight + index.weight := by
  cases index with
  | none => rfl
  | star | entry => rw [Expr.indexed, Expr.weight, Member.weight, Nat.add_zero]; rintro ⟨⟩

theorem Expr.weight_ofName (name : String) (index : Index) :
    (Expr.ofName name index).weight = textWeight name + index.weight := by
  cases index with
  | none => rfl
  | star | entry => rw [Expr.ofName, Expr.weight, Member.weight]; rintro ⟨⟩

theorem Stmt.weight_ofTarget (target : Expr) (part : Option Expr) :
    (Stmt.ofTarget target part).weight = target.weight + optionalWeight part := by
  cases part with
  | none => rfl
  | some value =>
    rw [Stmt.ofTarget, Stmt.weight, Expr.weight, optionalWeight, Nat.add_assoc, Nat.add_comm 1]

/-- Whether what a derivation stands for weighs no more than this.  What is put behind an
expression makes it no heavier than by this. -/
def Rule.Weighs : (r : Rule) → r.Value → Nat → Prop
  | .statements, stmts, n => stmtsWeight stmts ≤ n
  | .statement, stmt, n => stmt.weight ≤ n
  | .otherwise, rest, n => rest.weight ≤ n
  | .optional _, part, n => optionalWeight part ≤ n
  | .layer _, e, n | .group, e, n | .primary, e, n => e.weight ≤ n
  | .operations _, extend, n | .suffixes, extend, n | .suffix, extend, n =>
    ∀ e : Expr, (extend e).weight ≤ e.weight + n
  | .index, i, n | .optionalIndex, i, n => i.weight ≤ n
  | .arguments, args, n | .moreArguments, args, n => argumentsWeight args ≤ n

/-- **What a derivation stands for weighs no more than its terminals.** -/
theorem Derivation.weighs {r : Rule} (d : Derivation r) :
    r.Weighs d.value (terminalsWeight d.yield) := by
  induction d with
  | done | leave | skip | nothing | absent | null | number | string | every | unindexed
  | noArguments | noMore => exact Nat.le_refl _
  | finished | ended => exact fun e => Nat.le_refl _
  | item first rest ihfirst ihrest =>
    simp only [Rule.Weighs, value, stmtsWeight, yield_item, terminalsWeight_append] at *
    omega
  | function name params body ih =>
    have hparams := weight_nameList params
    simp only [Rule.Weighs, value, Stmt.weight, yield_function, terminalsWeight_append,
      terminalsWeight_cons, terminalsWeight_nil, weight_text, textWeight_empty] at *
    omega
  | var name init ih =>
    simp only [Rule.Weighs, value, Stmt.weight, yield_var, terminalsWeight_append,
      terminalsWeight_cons, terminalsWeight_nil, weight_text, textWeight_empty] at *
    omega
  | expr target part ihtarget ihpart =>
    simp only [Rule.Weighs, value, Stmt.weight_ofTarget, yield_expr, terminalsWeight_append] at *
    omega
  | branch cond body rest ihcond ihbody ihrest =>
    simp only [Rule.Weighs, value, Stmt.weight, Block.weight, yield_branch, terminalsWeight_append,
      terminalsWeight_cons, terminalsWeight_nil, weight_text, textWeight_empty] at *
    omega
  | loop cond body ihcond ihbody =>
    simp only [Rule.Weighs, value, Stmt.weight, Block.weight, yield_loop, terminalsWeight_append,
      terminalsWeight_cons, terminalsWeight_nil, weight_text, textWeight_empty] at *
    omega
  | count name start direction stop step body ihstart ihstop ihstep ihbody =>
    simp only [Rule.Weighs, value, Stmt.weight, Block.weight, yield_count, terminalsWeight_append,
      terminalsWeight_cons, terminalsWeight_nil, weight_text, textWeight_empty] at *
    omega
  | each name first more body ihfirst ihmore ihbody =>
    simp only [Rule.Weighs, value, Stmt.weight, Block.weight, argumentsWeight, yield_each,
      terminalsWeight_append, terminalsWeight_cons, terminalsWeight_nil, weight_text,
      textWeight_empty] at *
    omega
  | scope body ih =>
    simp only [Rule.Weighs, value, Stmt.weight, Block.weight, yield_scope, terminalsWeight_append,
      terminalsWeight_cons, terminalsWeight_nil, weight_text, textWeight_empty] at *
    omega
  | last body ih =>
    simp only [Rule.Weighs, value, Otherwise.weight, Block.weight, yield_last,
      terminalsWeight_append, terminalsWeight_cons, terminalsWeight_nil, weight_text,
      textWeight_empty] at *
    omega
  | elseIf cond body rest ihcond ihbody ihrest =>
    simp only [Rule.Weighs, value, Otherwise.weight, Block.weight, yield_elseIf,
      terminalsWeight_append, terminalsWeight_cons, terminalsWeight_nil, weight_text,
      textWeight_empty] at *
    omega
  | present e ih =>
    simp only [Rule.Weighs, value, optionalWeight, yield_present, terminalsWeight_append,
      terminalsWeight_cons, terminalsWeight_nil, weight_text, textWeight_empty] at *
    omega
  | binary first rest ihfirst ihrest =>
    have hrest := ihrest first.value
    simp only [Rule.Weighs, value, yield_binary, terminalsWeight_append] at *
    omega
  | unary op operand ih =>
    simp only [Rule.Weighs, value, Expr.weight, yield_unary, terminalsWeight_append,
      terminalsWeight_cons, terminalsWeight_nil, weight_text, textWeight_empty] at *
    omega
  | plain primary ih => exact ih
  | operation sign right rest ihright ihrest =>
    intro left
    have hrest := ihrest (.binary sign.op left right.value .origin)
    simp only [Rule.Weighs, value, Expr.weight, yield_operation, terminalsWeight_append,
      terminalsWeight_cons, terminalsWeight_nil, weight_text, textWeight_empty] at *
    omega
  | group e ih =>
    simp only [Rule.Weighs, value, yield_group, terminalsWeight_append] at *
    omega
  | named name index suffixes ihindex ihsuffixes =>
    have hsuffixes := ihsuffixes (.ofName name index.value)
    simp only [Rule.Weighs, value, Expr.weight_ofName, yield_named, terminalsWeight_append,
      terminalsWeight_cons, terminalsWeight_nil, weight_text] at *
    omega
  | grouped e suffixes ihe ihsuffixes =>
    have hsuffixes := ihsuffixes e.value
    simp only [Rule.Weighs, value, yield_grouped, terminalsWeight_append] at *
    omega
  | link first rest ihfirst ihrest =>
    intro base
    have hfirst := ihfirst base
    have hrest := ihrest (first.value base)
    simp only [Rule.Weighs, value, yield_link, terminalsWeight_append] at *
    omega
  | call args index ihargs ihindex =>
    intro base
    simp only [Rule.Weighs, value, Expr.weight_indexed, Expr.weight, yield_call,
      terminalsWeight_append, terminalsWeight_cons, terminalsWeight_nil, weight_text,
      textWeight_empty] at *
    omega
  | method name args index ihargs ihindex =>
    intro base
    simp only [Rule.Weighs, value, Expr.weight_indexed, Expr.weight, yield_method,
      terminalsWeight_append, terminalsWeight_cons, terminalsWeight_nil, weight_text,
      textWeight_empty] at *
    omega
  | member name index ih | hash name index ih =>
    intro base
    simp only [Rule.Weighs, value, Expr.weight, Member.weight, yield_member, yield_hash,
      terminalsWeight_append, terminalsWeight_cons, terminalsWeight_nil, weight_text,
      textWeight_empty] at *
    omega
  | descendant name index ih =>
    intro base
    simp only [Rule.Weighs, value, Expr.weight, yield_descendant, terminalsWeight_append,
      terminalsWeight_cons, terminalsWeight_nil, weight_text, textWeight_empty] at *
    omega
  | star => exact fun base => Nat.le_refl _
  | entry mode e ih =>
    simp only [Rule.Weighs, value, Index.weight, yield_entry, terminalsWeight_append,
      terminalsWeight_cons, terminalsWeight_nil, weight_text, textWeight_empty] at *
    omega
  | indexed index ih => exact ih
  | someArguments first more ihfirst ihmore =>
    simp only [Rule.Weighs, value, argumentsWeight, yield_someArguments,
      terminalsWeight_append] at *
    omega
  | oneMore first more ihfirst ihmore =>
    simp only [Rule.Weighs, value, argumentsWeight, yield_oneMore, terminalsWeight_append] at *
    omega

/-! ### Texts -/

/-- Spans that stand one after the other have room between their bounds. -/
theorem InOrder.sum_length_le {lo hi : Nat} {spans : List Span} (h : InOrder lo hi spans) :
    lo + (spans.map Span.length).sum ≤ hi := by
  induction spans generalizing lo with
  | nil => exact h
  | cons span rest ih =>
    obtain ⟨hstart, hspan, hrest⟩ := h
    have hsum := ih hrest
    simp only [List.map_cons, List.sum_cons, Span.length]
    omega

/-- A token weighs no more than its text is long. -/
theorem Token.weight_terminal_le {text : String} {token : Token} (h : token.Placed text)
    (hlexeme : IsLexeme token.kind token.text) : token.terminal.weight ≤ token.span.length := by
  obtain ⟨front, back, -, -, hstop⟩ := h.shows
  have hlength : token.span.length = token.text.utf8ByteSize := by
    rw [Span.length, hstop, utf8Length_toList]
    omega
  have hpos : 1 ≤ token.text.utf8ByteSize := by
    obtain ⟨c, cs, hcs, -⟩ := hlexeme
    have hsize : 0 < c.utf8Size := c.utf8Size_pos
    rw [← utf8Length_toList, hcs, utf8Length_cons]
    omega
  have hweight :
      token.terminal.weight = textWeight (if token.kind.varies then token.text else "") := rfl
  rw [hweight, hlength]
  split
  · exact Nat.max_le.mpr ⟨hpos, Nat.le_refl _⟩
  · exact hpos

/-- **The terminals of a text weigh no more than the text is long.** -/
theorem Lexes.weight_le {text : String} {tokens : List Token} {mark : Token}
    (h : Lexes text tokens mark) :
    terminalsWeight (tokens.map Token.terminal) ≤ text.utf8ByteSize := by
  obtain ⟨horder, hplaced⟩ := Lexer.placed_pulls h.pulls
  have hlexeme : ∀ token ∈ tokens, IsLexeme token.kind token.text := by
    intro token htoken
    have hmem : .ok token ∈ (Lexer.ofText text).pulls := by
      rw [h.pulls]
      exact List.mem_append_left _ (List.mem_map_of_mem htoken)
    exact Lexer.isLexeme_of_mem_pulls hmem (Lexer.kind_of_pulls h.pulls htoken)
  have hsum : terminalsWeight (tokens.map Token.terminal) ≤
      ((tokens.map Token.span).map Span.length).sum := by
    rw [terminalsWeight, List.map_map, List.map_map]
    exact List.sum_le_sum fun token htoken =>
      token.weight_terminal_le (hplaced token htoken) (hlexeme token htoken)
  have hlength := horder.sum_length_le
  omega

/-- A parsed tree weighs no more than its script is long. -/
theorem stmtsWeight_of_parse {maxDepth : Nat} {text : String} {program : Program}
    (h : Program.parse maxDepth text = .ok program) :
    stmtsWeight (bareStmts program.stmts) ≤ text.utf8ByteSize := by
  obtain ⟨tokens, mark, hlexes⟩ := exists_lexes_of_parse h
  obtain ⟨-, d, hd, hvalue⟩ := derives_of_parse hlexes h
  have hstmts : bareStmts program.stmts = d.value := congrArg Program.stmts hvalue
  have hweighs : stmtsWeight d.value ≤ terminalsWeight d.yield := d.weighs
  rw [hd.yield] at hweighs
  rw [hstmts]
  exact Nat.le_trans hweighs hlexes.weight_le

end FormCalc
