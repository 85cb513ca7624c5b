import FormCalc.Proofs.Grammar.Correctness
import FormCalc.Proofs.Token.Alone
import FormCalc.Proofs.Tree.Shape

/-!
# Parsed trees have their shape

What parses is derived from lexemes, and the derivation stays within the limits of its lists.
So it is enough to look at derivations: the tree of each of them is `Shaped`
(`Derivation.shaped`), by induction on the derivation.  What operators and suffixes make of a
shaped expression is shaped again.
-/

namespace FormCalc

open Terminal FormCalc.Parser

/-! ### Lexemes in a derivation -/

/-- Whether the text of a terminal is a lexeme, if it has a text of its own. -/
def Terminal.Lexed (t : Terminal) : Prop := t.kind.varies = true → IsLexeme t.kind t.text

/-- Whether the text of each terminal is a lexeme. -/
def AllLexed (ts : List Terminal) : Prop := ∀ t ∈ ts, t.Lexed

@[simp] theorem allLexed_cons {t : Terminal} {ts : List Terminal} :
    AllLexed (t :: ts) ↔ t.Lexed ∧ AllLexed ts := List.forall_mem_cons

@[simp] theorem allLexed_append {ts us : List Terminal} :
    AllLexed (ts ++ us) ↔ AllLexed ts ∧ AllLexed us := List.forall_mem_append

@[simp] theorem lexed_identifier {name : String} : (identifier name).Lexed ↔ IsName name := by
  simp [Terminal.Lexed, Kind.varies]

theorem isName_of_commaNames {names : List String} (h : AllLexed (commaNames names)) :
    ∀ name ∈ names, IsName name := by
  induction names with
  | nil => simp
  | cons first rest ih =>
    simp only [commaNames, allLexed_cons, lexed_identifier] at h
    exact List.forall_mem_cons.mpr ⟨h.2.1, ih h.2.2⟩

theorem isName_of_nameList {names : List String} (h : AllLexed (nameList names)) :
    ∀ name ∈ names, IsName name := by
  cases names with
  | nil => simp
  | cons first rest =>
    simp only [nameList, allLexed_cons, lexed_identifier] at h
    exact List.forall_mem_cons.mpr ⟨h.1, isName_of_commaNames h.2⟩

/-! ### Parts of shaped trees -/

theorem Expr.shaped_indexed {call : Expr} {index : Index} (hcall : call.Shaped)
    (hwhole : call.isWholeCall = true) (hindex : index.Shaped) : (call.indexed index).Shaped := by
  cases index with
  | none => exact hcall
  | star => exact ⟨hcall, hindex, hwhole, rfl⟩
  | entry mode expr => exact ⟨hcall, hindex, hwhole, rfl⟩

theorem Expr.shaped_ofName {name : String} {index : Index} (hname : IsName name)
    (hindex : index.Shaped) : (Expr.ofName name index).Shaped := by
  cases index with
  | none => exact hname
  | star => exact ⟨⟨name, rfl, hname⟩, hindex, rfl⟩
  | entry mode expr => exact ⟨⟨name, rfl, hname⟩, hindex, rfl⟩

theorem Expr.Shaped.statement {e : Expr} (h : e.Shaped) : e.ShapedStatement := by
  cases e with
  | assign => exact h.elim
  | null | number | string | identifier | unary | binary | call | dot | element | descendant
  | method => exact h

theorem Stmt.shaped_ofTarget {target : Expr} {part : Option Expr} (htarget : target.Shaped)
    (hpart : ShapedOptional part) : (Stmt.ofTarget target part).Shaped := by
  cases part with
  | none => exact htarget.statement
  | some value => exact ⟨htarget, hpart⟩

/-! ### Trees of derivations -/

namespace Derivation

theorem length_value_statements : (d : Derivation .statements) → d.value.length = d.length
  | .done => rfl
  | .item _ rest => congrArg (· + 1) rest.length_value_statements

theorem length_value_moreArguments :
    (d : Derivation .moreArguments) → d.value.length = d.length
  | .noMore => rfl
  | .oneMore _ more => congrArg (· + 1) more.length_value_moreArguments

theorem length_value_body {body : Derivation .statements} (h : body.Bounded) :
    body.value.length ≤ maxStatements := by
  rw [length_value_statements]
  exact length_le_of_bounded h

theorem length_value_list {more : Derivation .moreArguments} (h : more.length < maxLinks)
    (first : Expr) : (first :: more.value).length ≤ maxLinks := by
  rw [List.length_cons, length_value_moreArguments]
  exact h

theorem length_value_arguments {args : Derivation .arguments} (h : args.Bounded) :
    args.value.length ≤ maxLinks := by
  cases args with
  | noArguments => exact Nat.zero_le _
  | someArguments first more => exact length_value_list h.2.2 first.value

end Derivation

/-- Whether what a derivation stands for is shaped.  What is put behind an expression has to
keep a shape. -/
def Rule.Shaped : (r : Rule) → r.Value → Prop
  | .statements, stmts => ShapedStmts stmts
  | .statement, stmt => stmt.Shaped
  | .otherwise, rest => rest.Shaped
  | .optional _, part => ShapedOptional part
  | .layer _, e | .group, e | .primary, e => e.Shaped
  | .operations _, extend | .suffixes, extend | .suffix, extend =>
    ∀ e : Expr, e.Shaped → (extend e).Shaped
  | .index, i | .optionalIndex, i => i.Shaped
  | .arguments, args | .moreArguments, args => ShapedArguments args

/-- **Derived trees are shaped**, if the derivation is made of lexemes and stays within the
limits. -/
theorem Derivation.shaped {r : Rule} (d : Derivation r) (hbounded : d.Bounded)
    (hlexed : AllLexed d.yield) : r.Shaped d.value := by
  induction d with
  | done | leave | skip | nothing | absent | null | every | unindexed | noArguments | noMore =>
    trivial
  | item first rest ihfirst ihrest =>
    simp only [yield_item, allLexed_append] at hlexed
    exact ⟨ihfirst hbounded.1 hlexed.1, ihrest hbounded.2.1 hlexed.2⟩
  | function name params body ih =>
    simp only [yield_function, allLexed_append, allLexed_cons, lexed_identifier] at hlexed
    obtain ⟨⟨⟨⟨⟨-, hname, -⟩, hparams⟩, -⟩, hbody⟩, -⟩ := hlexed
    exact ⟨hname, isName_of_nameList hparams, ih hbounded hbody, length_value_body hbounded⟩
  | var name init ih =>
    simp only [yield_var, allLexed_append, allLexed_cons, lexed_identifier] at hlexed
    exact ⟨hlexed.1.2.1, ih hbounded hlexed.2⟩
  | expr target value ihtarget ihvalue =>
    simp only [yield_expr, allLexed_append] at hlexed
    exact Stmt.shaped_ofTarget (ihtarget hbounded.1 hlexed.1) (ihvalue hbounded.2 hlexed.2)
  | branch cond body rest ihcond ihbody ihrest =>
    simp only [yield_branch, allLexed_append] at hlexed
    obtain ⟨⟨⟨⟨⟨-, hcond⟩, -⟩, hbody⟩, hrest⟩, -⟩ := hlexed
    obtain ⟨⟨hbcond, hbbody⟩, hbrest⟩ := hbounded
    exact ⟨ihcond hbcond hcond, ⟨ihbody hbbody hbody, length_value_body hbbody⟩,
      ihrest hbrest hrest⟩
  | loop cond body ihcond ihbody =>
    simp only [yield_loop, allLexed_append] at hlexed
    obtain ⟨⟨⟨⟨-, hcond⟩, -⟩, hbody⟩, -⟩ := hlexed
    exact ⟨ihcond hbounded.1 hcond, ihbody hbounded.2 hbody, length_value_body hbounded.2⟩
  | count name start direction stop step body ihstart ihstop ihstep ihbody =>
    simp only [yield_count, allLexed_append, allLexed_cons, lexed_identifier] at hlexed
    obtain ⟨⟨⟨⟨⟨⟨⟨⟨-, hname, -⟩, hstart⟩, -⟩, hstop⟩, hstep⟩, -⟩, hbody⟩, -⟩ := hlexed
    obtain ⟨hbstart, hbstop, hbstep, hbbody⟩ := hbounded
    exact ⟨hname, ihstart hbstart hstart, ihstop hbstop hstop, ihstep hbstep hstep,
      ihbody hbbody hbody, length_value_body hbbody⟩
  | each name first more body ihfirst ihmore ihbody =>
    simp only [yield_each, allLexed_append, allLexed_cons, lexed_identifier] at hlexed
    obtain ⟨⟨⟨⟨⟨⟨-, hname, -⟩, hfirst⟩, hmore⟩, -⟩, hbody⟩, -⟩ := hlexed
    obtain ⟨⟨hbfirst, hbmore, hlength⟩, hbbody⟩ := hbounded
    exact ⟨hname, by simp, ⟨ihfirst hbfirst hfirst, ihmore hbmore hmore⟩,
      length_value_list hlength first.value, ihbody hbbody hbody, length_value_body hbbody⟩
  | scope body ih =>
    simp only [yield_scope, allLexed_append] at hlexed
    exact ⟨ih hbounded hlexed.1.2, length_value_body hbounded⟩
  | last body ih =>
    simp only [yield_last, allLexed_append] at hlexed
    exact ⟨ih hbounded hlexed.2, length_value_body hbounded⟩
  | elseIf cond body rest ihcond ihbody ihrest =>
    simp only [yield_elseIf, allLexed_append] at hlexed
    obtain ⟨⟨⟨⟨-, hcond⟩, -⟩, hbody⟩, hrest⟩ := hlexed
    obtain ⟨⟨hbcond, hbbody⟩, hbrest⟩ := hbounded
    exact ⟨ihcond hbcond hcond, ⟨ihbody hbbody hbody, length_value_body hbbody⟩,
      ihrest hbrest hrest⟩
  | present value ih =>
    simp only [yield_present, allLexed_append] at hlexed
    exact ih hbounded hlexed.2
  | binary first rest ihfirst ihrest =>
    simp only [yield_binary, allLexed_append] at hlexed
    exact ihrest hbounded.2 hlexed.2 _ (ihfirst hbounded.1 hlexed.1)
  | unary op operand ih =>
    simp only [yield_unary, allLexed_append] at hlexed
    exact ih hbounded hlexed.2
  | plain primary ih => exact ih hbounded hlexed
  | finished | ended => exact fun e he => he
  | operation sign right rest ihright ihrest =>
    simp only [yield_operation, allLexed_append] at hlexed
    have hright := ihright hbounded.1 hlexed.1.2
    exact fun left hleft => ihrest hbounded.2 hlexed.2 _ ⟨hleft, hright⟩
  | group value ih =>
    simp only [yield_group, allLexed_append] at hlexed
    exact ih hbounded hlexed.1.2
  | number text | string text =>
    exact hlexed _ List.mem_cons_self rfl
  | named name index suffixes ihindex ihsuffixes =>
    simp only [yield_named, allLexed_append, allLexed_cons, lexed_identifier] at hlexed
    obtain ⟨⟨⟨hname, -⟩, hindex⟩, hsuffixes⟩ := hlexed
    exact ihsuffixes hbounded.2 hsuffixes _
      (Expr.shaped_ofName hname (ihindex hbounded.1 hindex))
  | grouped value suffixes ihvalue ihsuffixes =>
    simp only [yield_grouped, allLexed_append] at hlexed
    exact ihsuffixes hbounded.2 hlexed.2 _ (ihvalue hbounded.1 hlexed.1)
  | link first rest ihfirst ihrest =>
    simp only [yield_link, allLexed_append] at hlexed
    exact fun base hbase => ihrest hbounded.2.1 hlexed.2 _ (ihfirst hbounded.1 hlexed.1 _ hbase)
  | call args index ihargs ihindex =>
    simp only [yield_call, allLexed_append] at hlexed
    obtain ⟨⟨⟨-, hargs⟩, -⟩, hindex⟩ := hlexed
    intro base hbase
    exact Expr.shaped_indexed
      ⟨rfl, hbase, ihargs hbounded.1 hargs, length_value_arguments hbounded.1⟩ rfl
      (ihindex hbounded.2 hindex)
  | method name args index ihargs ihindex =>
    simp only [yield_method, allLexed_append, allLexed_cons, lexed_identifier] at hlexed
    obtain ⟨⟨⟨⟨-, hname, -⟩, hargs⟩, -⟩, hindex⟩ := hlexed
    intro base hbase
    exact Expr.shaped_indexed
      ⟨hbase, rfl, ⟨name, _, rfl, hname⟩, ihargs hbounded.1 hargs,
        length_value_arguments hbounded.1⟩ rfl (ihindex hbounded.2 hindex)
  | member name index ih =>
    simp only [yield_member, allLexed_append, allLexed_cons, lexed_identifier] at hlexed
    exact fun base hbase => ⟨hbase, ih hbounded hlexed.2, hlexed.1.2.1⟩
  | descendant name index ih =>
    simp only [yield_descendant, allLexed_append, allLexed_cons, lexed_identifier] at hlexed
    exact fun base hbase => ⟨hbase, hlexed.1.2.1, ih hbounded hlexed.2⟩
  | hash name index ih =>
    simp only [yield_hash, allLexed_append, allLexed_cons, lexed_identifier] at hlexed
    exact fun base hbase => ⟨hbase, ih hbounded hlexed.2, hlexed.1.2.1⟩
  | star => exact fun base hbase => ⟨hbase, trivial, rfl⟩
  | entry mode value ih =>
    simp only [yield_entry, allLexed_append] at hlexed
    exact ih hbounded hlexed.1.2
  | indexed index ih => exact ih hbounded hlexed
  | someArguments first more ihfirst ihmore =>
    simp only [yield_someArguments, allLexed_append] at hlexed
    exact ⟨ihfirst hbounded.1 hlexed.1, ihmore hbounded.2.1 hlexed.2⟩
  | oneMore first more ihfirst ihmore =>
    simp only [yield_oneMore, allLexed_append] at hlexed
    exact ⟨ihfirst hbounded.1 hlexed.1.2, ihmore hbounded.2 hlexed.2⟩

/-! ### Scripts -/

theorem Lexes.allLexed {text : String} {tokens : List Token} {mark : Token}
    (h : Lexes text tokens mark) : AllLexed (tokens.map Token.terminal) := by
  intro t ht hvaries
  obtain ⟨token, htoken, rfl⟩ := List.mem_map.mp ht
  have hmem : .ok token ∈ (Lexer.ofText text).pulls := by
    rw [h.pulls]
    exact List.mem_append_left _ (List.mem_map_of_mem htoken)
  have hlexeme := Lexer.isLexeme_of_mem_pulls hmem (Lexer.kind_of_pulls h.pulls htoken)
  have htext : token.terminal.text = token.text := if_pos hvaries
  rwa [← htext] at hlexeme

/-- **Every parsed tree has its shape**, whatever the text and the bound on the depth are. -/
theorem parse_shaped {maxDepth : Nat} {text : String} {program : Program}
    (h : Program.parse maxDepth text = .ok program) : program.Shaped := by
  obtain ⟨tokens, mark, hlexes⟩ := exists_lexes_of_parse h
  obtain ⟨-, d, hd, hvalue⟩ := derives_of_parse hlexes h
  have hlimit : ¬LimitReached maxDepth text := by
    rintro ⟨fault, herror, -⟩
    rw [h] at herror
    cases herror
  rw [hd.limitReached_iff hlexes, Classical.not_not] at hlimit
  have hlexed : AllLexed d.yield := by
    rw [hd.yield]
    exact hlexes.allLexed
  have hshaped := d.shaped hlimit.1 hlexed
  have hbare : program.bare.Shaped := by
    rw [hvalue]
    exact ⟨hshaped, Derivation.length_value_body hlimit.1⟩
  exact Program.shaped_of_bare hbare

/-- A loop over what a method gives, with an assignment to one of its members inside. -/
theorem parse_shaped_foreach : ∃ program,
    Program.parse 40 "foreach x in (a.b(1)[*], \"s\") do x.c[-1] = d(x) endfor" = .ok program ∧
      program.Shaped := by
  cases hparse : Program.parse 40 "foreach x in (a.b(1)[*], \"s\") do x.c[-1] = d(x) endfor" with
  | error fault =>
    have hok : (Program.parse 40
        "foreach x in (a.b(1)[*], \"s\") do x.c[-1] = d(x) endfor").isOk = true := by
      decide +kernel
    rw [hparse] at hok
    cases hok
  | ok program => exact ⟨program, rfl, parse_shaped hparse⟩

end FormCalc
