import FormCalc.Proofs.Host.Builtin
import FormCalc.Proofs.Output.Scanned
import FormCalc.Proofs.Output.Words
import FormCalc.Proofs.Tree.Loops

/-!
# The hidden variables of loops

A loop over collections keeps its state in two variables of fixed names.  Where no name of a script
starts like these, only such loops can write them.

* `Expr.free_markup`: expressions are free of the hidden names.
* `Stmt.ended_outer`: so are statements, apart from the functions and loops in them.
* `Stmt.inside_of_loops`: every loop is written around its body, and it declares both variables.

So the functions of a script write them exactly where they have a loop over collections
(`Block.writes_outer_iff`).
-/

namespace FormCalc

open Host Markup Text

/-! ### Fixed texts -/

/-- The fixed texts that stand in the place of a word. -/
def fixedWords : List String :=
  ["", "null", "0", "0, 0", "1", "2", "3", "if", "else if", "\"*\"", "\"\""]

/-- The fixed texts behind which a word may start. -/
def openings : List String :=
  ["", "\"", "\"#", "eval.call(this, ", "\n(\nfunction ()\n\x7b\ntry\n\x7b\nreturn ",
   "(function() \x7b\n  return pfm_method_runner(", "if (", "else\n\x7b\n", "else ", "while (",
   "var ", "\x7b\n", "\x7b\nvar ", "pfm_ret = ", "pfm_ret = 0;\n", "pfm_ret = 0;\nbreak;\n",
   "pfm_ret = 0;\ncontinue;\n", "\"\";\n"]

/-- The fixed texts that keep words apart. -/
def fencings : List String :=
  ["(", ")", ", ", ", \"", "\", ", "\"", " (", ")\n", ")\n\x7b\n", "; ", ";\n", ";\n\x7d\n",
   "\x7d\n", " = ", " <= ", " += ", " >= ", " -= ", " = null;\nfor (",
   ", function(obj) \x7b\n    return obj.", ";\n  \x7d);\n\x7d).call(this)",
   ";\n\x7d\ncatch(accessExceptions)\n\x7b\nreturn 0;\n\x7d\n\x7d\n).call(this)\n)"]

theorem isFree_of_mem {s : String} (h : s ∈ fixedWords) : isFree s = true := by
  have hall : fixedWords.all isFree = true := by decide +kernel
  exact List.all_eq_true.mp hall s h

theorem opens_of_mem {s : String} (h : s ∈ openings) : opens s = true := by
  have hall : openings.all opens = true := by decide +kernel
  exact List.all_eq_true.mp hall s h

theorem fences_of_mem {s : String} (h : s ∈ fencings) : fences s = true := by
  have hall : fencings.all fences = true := by decide +kernel
  exact List.all_eq_true.mp hall s h

theorem free_fixed {s : String} (h : s ∈ fixedWords) : (code s).Free := free_code (isFree_of_mem h)

theorem ended_fixed {s : String} (h : s ∈ openings) : (code s).Ended := ended_code (opens_of_mem h)

theorem ended_empty : (code "").Ended := ended_fixed (by simp [openings])

theorem fences_comma : fences ", " = true := fences_of_mem (by simp [fencings])

theorem fences_open : fences "(" = true := fences_of_mem (by simp [fencings])

theorem fences_close : fences ")" = true := fences_of_mem (by simp [fencings])

/-! ### Pieces of expressions -/

section Pieces

variable {m base name index receiver call target value : Markup} {args : List Markup}

/-- Whether a name of the host is a word other than the hidden ones. -/
def isMemberName (name : String) : Bool :=
  name.toList.all isIdentifierPart && name ∉ hiddenNames

theorem ended_memberText {name : String} (h : isMemberName name = true) :
    (code (memberText name ++ "(")).Ended := by
  obtain ⟨hword, hname⟩ := Bool.and_eq_true_iff.mp h
  have hobject : opens (objectName ++ ".") = true := by decide +kernel
  have hfree := free_word (List.all_eq_true.mp hword) (of_decide_eq_true hname)
  exact ended_code_append (((ended_code hobject).word hfree).fence fences_open)

theorem Host.Helper.isMemberName_name (helper : Helper) : isMemberName helper.name = true := by
  have hhelpers : Helper.all.all (isMemberName ·.name) = true := by decide +kernel
  exact List.all_eq_true.mp hhelpers helper helper.mem_all

theorem isMemberName_builtin {spelling : String} (h : spelling ∈ builtins) :
    isMemberName spelling = true := by
  have hbuiltins : builtins.toList.all isMemberName = true := by decide +kernel
  exact List.all_eq_true.mp hbuiltins spelling (Array.mem_toList_iff.mpr h)

theorem Host.Helper.ended_callMarkup (helper : Helper) (h : m.Free) :
    (helper.callMarkup m).Ended :=
  ((ended_memberText helper.isMemberName_name).word h).fence fences_close

theorem free_commaSeparated (h : ∀ arg ∈ args, arg.Free) : (Markup.commaSeparated args).Free := by
  induction args with
  | nil => exact ended_empty.free
  | cons first rest ih =>
    cases rest with
    | nil => exact h first (List.mem_singleton_self first)
    | cons second rest =>
      obtain ⟨hfirst, hrest⟩ := List.forall_mem_cons.mp h
      exact (hfirst.fence fences_comma).word (ih hrest)

theorem ended_methodCallMarkup (hname : m.Free) (hargs : ∀ arg ∈ args, arg.Free) :
    (methodCallMarkup m args).Ended := by
  have hread : ∀ arg ∈ args.mapIdx (methodArgumentMarkup (objectMask m.text)), arg.Free := by
    intro arg harg
    obtain ⟨i, hi, rfl⟩ := List.mem_mapIdx.mp harg
    have harg := hargs _ (List.getElem_mem hi)
    exact (Helper.ended_callMarkup _ harg).free
  exact ((hname.fence fences_open).word (free_commaSeparated hread)).fence fences_close

theorem ended_builtinMarkup {spelling : String} (h : spelling ∈ builtins)
    (hargs : ∀ arg ∈ args, arg.Free) : (builtinMarkup spelling args).Ended := by
  have hspelling := ended_memberText (isMemberName_builtin h)
  have hlist := free_commaSeparated hargs
  unfold builtinMarkup
  split
  · have hfront : opens "eval.call(this, " = true := opens_of_mem (by simp [openings])
    exact ((ended_code hfront).append (Helper.translate.ended_callMarkup hlist)).free.fence
      fences_close
  · split
    · have hfirst : (args.headD (code "0")).Free := by
        cases args with
        | nil => exact free_fixed (by simp [fixedWords])
        | cons first rest => exact hargs first List.mem_cons_self
      exact ((hspelling.append (ended_fixed (by simp [openings]))).word hfirst).fence
        (fences_of_mem (by simp [fencings]))
    · exact (hspelling.word hlist).fence fences_close

/-- What no function names has no text. -/
theorem ended_callMarkup (h : ∀ arg ∈ args, arg.Free) :
    (callMarkup false m args).Ended := by
  unfold callMarkup
  rw [if_neg Bool.false_ne_true]
  cases hname : builtin? m.text with
  | none => exact ended_empty
  | some spelling => exact ended_builtinMarkup (builtin_spec hname).1 h

theorem ended_accessorMarkup (helper : Helper) {member : String} (hbase : base.Free)
    (hname : name.Free) (hmember : (code member).Free) (hindex : index.Free) :
    (accessorMarkup helper base name member index).Ended := by
  have hquote : fences ", \"" = true := fences_of_mem (by simp [fencings])
  have hbetween : fences "\", " = true := fences_of_mem (by simp [fencings])
  exact helper.ended_callMarkup (((((((hbase.fence hquote).word hname).fence hbetween).word
    hmember).fence fences_comma).word hindex))

theorem ended_methodMarkup (hreceiver : receiver.Free) (hcall : call.Free) :
    (methodMarkup receiver call).Ended := by
  have hfront : opens "(function() \x7b\n  return pfm_method_runner(" = true :=
    opens_of_mem (by simp [openings])
  have hbetween : fences ", function(obj) \x7b\n    return obj." = true :=
    fences_of_mem (by simp [fencings])
  have hback : fences ";\n  \x7d);\n\x7d).call(this)" = true := fences_of_mem (by simp [fencings])
  exact ((((ended_code hfront).word hreceiver).fence hbetween).word hcall).fence hback

end Pieces

/-- Whether names are none that JavaScript keeps for itself. -/
def NoneReserved (names : List String) : Prop := ∀ name ∈ names, ¬IsReserved name

@[simp] theorem noneReserved_cons {name : String} {names : List String} :
    NoneReserved (name :: names) ↔ ¬IsReserved name ∧ NoneReserved names := List.forall_mem_cons

@[simp] theorem noneReserved_append {names names' : List String} :
    NoneReserved (names ++ names') ↔ NoneReserved names ∧ NoneReserved names' :=
  List.forall_mem_append

/-- A name in quotes. -/
theorem free_quotedName {mark name : String} (hmark : opens mark = true) (h : IsName name)
    (hname : ¬IsReserved name) : (code (mark ++ name ++ "\"")).Free := by
  obtain ⟨c, cs, htext, hstart, hparts⟩ := h.exists_start
  by_cases hc : c = '!'
  · have hsplit : mark ++ name ++ "\"" = mark ++ ("!" ++ String.ofList cs ++ "\"") := by
      have hname : name = "!" ++ String.ofList cs := by
        rw [← String.toList_inj, htext, hc]
        simp
      rw [hname, String.append_assoc, String.append_assoc]
    have hrest : (code ("!" ++ String.ofList cs ++ "\"")).Free :=
      free_exclamation (by rwa [String.toList_ofList])
    rw [hsplit]
    exact free_code_append ((ended_code hmark).word hrest)
  · have hquote : fences "\"" = true := fences_of_mem (by simp [fencings])
    have hword : (code name).Free := by
      refine free_word ?_ (not_mem_hiddenNames hname)
      rw [htext]
      exact List.forall_mem_cons.mpr ⟨isIdentifierPart_of_start hstart hc, hparts⟩
    exact (((ended_code hmark).word hword).fence hquote).free

theorem Member.free_quoted {base : Expr} {i : Index} {member : Member}
    (h : member.Selects base i) (hnames : NoneReserved member.names) :
    (code member.quoted).Free := by
  cases member with
  | named name | hash name =>
    have hname := hnames name (List.mem_singleton_self name)
    exact free_quotedName (opens_of_mem (by simp [openings])) h hname
  | star | callResult => exact free_fixed (by simp [fixedWords, Member.quoted])

/-- The name of a base, which stands there only if the base is a bare one. -/
theorem Expr.free_baseMarkup {base : Expr} (h : base.markup.Free) :
    (if base.identifier?.isSome then base.markup else code "").Free := by
  split
  · exact h
  · exact ended_empty.free

/-! ### Expressions -/

mutual

theorem Expr.free_markup : (e : Expr) → e.Shaped → NoneReserved e.names → e.markup.Free
  | .null _, _, _ => free_fixed (s := "null") (by simp [fixedWords])
  | .number raw _, h, _ => @free_number raw h
  | .string raw _, _, _ => free_fixed (s := "") (by simp [fixedWords])
  | .identifier name _, h, hnames =>
    free_referencedName h (hnames name (List.mem_singleton_self name))
  | .unary op operand _, h, hnames =>
    (op.helper.ended_callMarkup (operand.free_markup h hnames)).free
  | .binary op left right _, h, hnames => by
    obtain ⟨hleft, hright⟩ := noneReserved_append.mp hnames
    have hleft := left.free_markup h.1 hleft
    have hright := right.free_markup h.2 hright
    exact (op.helper.ended_callMarkup ((hleft.fence fences_comma).word hright)).free
  | .call callee args isMethod _, h, hnames => by
    obtain ⟨rfl, -, hargs, -⟩ := h
    have hargs := free_argumentMarkups args hargs (noneReserved_append.mp hnames).2
    exact (ended_callMarkup hargs).free
  | .dot base member index _, h, hnames => by
    obtain ⟨hbase, hindex, hselects⟩ := h
    simp only [Expr.names, noneReserved_append] at hnames
    obtain ⟨⟨hbaseNames, hmemberNames⟩, hindexNames⟩ := hnames
    have hbase := base.free_markup hbase hbaseNames
    exact (ended_accessorMarkup .dotAcc hbase (Expr.free_baseMarkup hbase)
      (Member.free_quoted hselects hmemberNames) (index.free_markup hindex hindexNames)).free
  | .element member index _, h, hnames => by
    obtain ⟨⟨name, rfl, hname⟩, hindex, -⟩ := h
    obtain ⟨hmember, hindexNames⟩ := noneReserved_append.mp hnames
    have hnull : (code "null").Free := free_fixed (by simp [fixedWords])
    have hnothing : (code "").Free := free_fixed (by simp [fixedWords])
    have hselects : (Member.named name).Selects (.null .origin) index := hname
    exact (ended_accessorMarkup .dotAcc hnull hnothing (Member.free_quoted hselects hmember)
      (index.free_markup hindex hindexNames)).free
  | .descendant base name index _, h, hnames => by
    obtain ⟨hbase, hname, hindex⟩ := h
    simp only [Expr.names, noneReserved_append] at hnames
    obtain ⟨⟨hbaseNames, hmemberNames⟩, hindexNames⟩ := hnames
    have hbase := base.free_markup hbase hbaseNames
    have hselects : (Member.named name).Selects base index := hname
    exact (ended_accessorMarkup .dotdotAcc hbase (Expr.free_baseMarkup hbase)
      (Member.free_quoted hselects hmemberNames) (index.free_markup hindex hindexNames)).free
  | .method receiver call _, h, hnames => by
    obtain ⟨hreceiver, hcall⟩ := noneReserved_append.mp hnames
    exact (ended_methodMarkup (receiver.free_markup h.1 hreceiver)
      (call.free_methodMarkup h.2 hcall)).free

theorem Expr.free_methodMarkup :
    (e : Expr) → e.ShapedMethod → NoneReserved e.names → e.markup.Free
  | .call callee args isMethod _, h, hnames => by
    obtain ⟨rfl, ⟨name, span, rfl, hname⟩, hargs, -⟩ := h
    obtain ⟨hcallee, hargNames⟩ := noneReserved_append.mp hnames
    have hargs := free_argumentMarkups args hargs hargNames
    have hname := free_referencedName hname (hcallee name (List.mem_singleton_self name))
    exact (ended_methodCallMarkup (m := (Expr.identifier name span).markup) hname hargs).free

theorem Index.free_markup : (index : Index) → index.Shaped → NoneReserved index.names →
    index.markup.Free
  | .none, _, _ => free_fixed (s := "0, 0") (by simp [fixedWords])
  | .star, _, _ => free_fixed (s := "1") (by simp [fixedWords])
  | .entry mode expr, h, hnames => by
    have hdigit : (code mode.digit).Free := by
      cases mode <;> exact free_fixed (by simp [fixedWords, IndexMode.digit])
    exact (hdigit.fence fences_comma).word (expr.free_markup h hnames)

theorem free_argumentMarkups : (args : List Expr) → ShapedArguments args →
    NoneReserved (argumentNames args) → ∀ arg ∈ argumentMarkups args, arg.Free
  | [], _, _ => nofun
  | arg :: rest, h, hnames => by
    obtain ⟨harg, hrest⟩ := noneReserved_append.mp hnames
    exact List.forall_mem_cons.mpr
      ⟨arg.free_markup h.1 harg, free_argumentMarkups rest h.2 hrest⟩

end

/-! ### Pieces of statements -/

section Pieces

variable {target value start stop step body cond : Markup} {keep : Bool}

theorem ended_keptMarkup (keep : Bool) : (keptMarkup keep).Ended := by
  cases keep <;> exact ended_fixed (by simp [openings, keptText])

theorem ended_resetMarkup (keep : Bool) : (resetMarkup keep).Ended := by
  cases keep <;> exact ended_fixed (by simp [openings, resetText])

theorem ended_assignedMarkup (htarget : target.Free) (hvalue : value.Free) :
    (assignedMarkup target value).Ended :=
  Helper.asgnValOp.ended_callMarkup ((htarget.fence fences_comma).word hvalue)

theorem fences_endStatement : fences ";\n\x7d\n" = true := fences_of_mem (by simp [fencings])

theorem ended_assignmentMarkup (keep isVariable : Bool) (htarget : target.Free)
    (hvalue : value.Free) : (assignmentMarkup keep isVariable target value).Ended := by
  have hif : opens "if (" = true := opens_of_mem (by simp [openings])
  have hopen : fences ")\n\x7b\n" = true := fences_of_mem (by simp [fencings])
  have helse : opens "else\n\x7b\n" = true := opens_of_mem (by simp [openings])
  have hequal : fences " = " = true := fences_of_mem (by simp [fencings])
  have hkept := ended_keptMarkup keep
  have hassigned := ended_assignedMarkup htarget hvalue
  have htest := ((ended_code hif).append (Helper.isObj.ended_callMarkup htarget)).free.fence hopen
  have hobject := ((htest.append hkept).append hassigned).free.fence fences_endStatement
  refine hobject.append ?_
  split
  · have hvariable := (((ended_code helse).append hkept).word htarget).fence hequal
    exact (hvariable.append hassigned).free.fence fences_endStatement
  · exact ended_empty

theorem ended_varMarkup (keep : Bool) {name : String} (hname : (code name).Free)
    {init : Option Markup} (hinit : ∀ value ∈ init, value.Free) :
    (varMarkup keep name init).Ended := by
  have hvar : opens "var " = true := opens_of_mem (by simp [openings])
  have hequal : fences " = " = true := fences_of_mem (by simp [fencings])
  have hend : fences ";\n" = true := fences_of_mem (by simp [fencings])
  have hfront := ((ended_code hvar).word hname).fence hequal
  refine (hfront.append ?_).append ?_
  · cases init with
    | none => exact ended_fixed (s := "\"\";\n") (by simp [openings])
    | some value =>
      have hvalue := (((hinit value rfl).fence hend).word hname).fence hequal
      exact (hvalue.append (Helper.varFilter.ended_callMarkup hname)).free.fence hend
  · split
    · have hkept : opens "pfm_ret = " = true := opens_of_mem (by simp [openings])
      exact ((ended_code hkept).word hname).fence hend
    · exact ended_empty

theorem ended_countMarkup {var : String} (hvar : (code var).Free) (hstart : start.Free)
    (hstop : stop.Free) (direction : Direction) (hstep : step.Free) (hbody : body.Ended) :
    (countMarkup var start stop direction step body).Ended := by
  have hopen : opens "\x7b\nvar " = true := opens_of_mem (by simp [openings])
  have hfor : fences " = null;\nfor (" = true := fences_of_mem (by simp [fencings])
  have hequal : fences " = " = true := fences_of_mem (by simp [fencings])
  have hsemicolon : fences "; " = true := fences_of_mem (by simp [fencings])
  have hsigns : fences direction.signs.1 = true ∧ fences direction.signs.2 = true := by
    cases direction <;>
      exact ⟨fences_of_mem (by simp [fencings, Direction.signs]),
        fences_of_mem (by simp [fencings, Direction.signs])⟩
  have hclose : fences ")\n" = true := fences_of_mem (by simp [fencings])
  have hend : fences "\x7d\n" = true := fences_of_mem (by simp [fencings])
  have hdeclared := (((ended_code hopen).word hvar).fence hfor).word hvar
  have hinit := ((hdeclared.fence hequal).word hstart).fence hsemicolon
  have htest := ((hinit.word hvar).fence hsigns.1).word hstop
  have hmove := (((htest.fence hsemicolon).word hvar).fence hsigns.2).word hstep
  exact ((hmove.fence hclose).append hbody).free.fence hend

end Pieces

theorem Expr.ended_valueMarkup {e : Expr} (h : e.markup.Free) : e.valueMarkup.Ended :=
  Helper.getVal.ended_callMarkup h

theorem Expr.ended_conditionMarkup (keyword : String) (hkeyword : isFree keyword = true)
    {cond : Expr} (h : cond.markup.Free) : (cond.conditionMarkup keyword).Ended := by
  have hopen : fences " (" = true := fences_of_mem (by simp [fencings])
  have hclose : fences ")\n" = true := fences_of_mem (by simp [fencings])
  have hfront := (free_code hkeyword).fence hopen
  exact (hfront.append (Expr.ended_valueMarkup h)).free.fence hclose

/-- An expression that is no assignment, in the place of a statement. -/
theorem ended_keptExpression (keep : Bool) {e : Expr} (h : e.markup.Free) :
    (keptMarkup keep ++ (if keep && e.isAccessor then e.valueMarkup else e.markup) ++
      code ";\n").Ended := by
  have hend : fences ";\n" = true := fences_of_mem (by simp [fencings])
  refine ((ended_keptMarkup keep).word ?_).fence hend
  split
  · exact (Expr.ended_valueMarkup h).free
  · exact h

theorem Expr.ended_statementMarkup (keep : Bool) (e : Expr) (h : e.ShapedStatement)
    (hnames : NoneReserved e.names) : (e.statementMarkup keep).Ended := by
  cases e with
  | assign target value span =>
    obtain ⟨htarget, hvalue⟩ := noneReserved_append.mp hnames
    exact (ended_assignmentMarkup keep _ (target.free_markup h.1 htarget)
      (value.free_markup h.2 hvalue)).part
  | null | number | string | identifier | unary | binary | call | dot | element | descendant
  | method => exact ended_keptExpression keep (Expr.free_markup _ h hnames)

theorem free_optionalMarkup (part : Option Expr) (h : ShapedOptional part)
    (hnames : NoneReserved (optionalNames part)) : ∀ m ∈ part.map Expr.markup, m.Free := by
  cases part with
  | none => exact nofun
  | some e =>
    rintro m ⟨⟩
    exact e.free_markup h hnames

theorem free_stepMarkup (step : Option Expr) (h : ShapedOptional step)
    (hnames : NoneReserved (optionalNames step)) :
    ((step.map Expr.valueMarkup).getD (code "1")).Free := by
  cases step with
  | none => exact free_fixed (s := "1") (by simp [fixedWords])
  | some e => exact (Expr.ended_valueMarkup (e.free_markup h hnames)).free

theorem ended_blockMarkup {body : Markup} (h : body.Ended) :
    (code "\x7b\n" ++ body ++ code "\x7d\n").Ended := by
  have hopen : opens "\x7b\n" = true := opens_of_mem (by simp [openings])
  have hclose : fences "\x7d\n" = true := fences_of_mem (by simp [fencings])
  exact ((ended_code hopen).append h).free.fence hclose

/-! ### Statements without loops -/

mutual

/-- Without a loop over collections of its own, what a function runs is free. -/
theorem Stmt.ended_outer : (stmt : Stmt) → (keep : Bool) → stmt.Shaped → NoneReserved stmt.names →
    stmt.outer.loops keep = [] → (stmt.outer.markup keep).Ended
  | .function .., _, _, _, _ => (ended_blockMarkup ended_empty).part
  | .var name init _, keep, h, hnames, _ => by
    obtain ⟨hname, hinit⟩ := noneReserved_cons.mp hnames
    exact (ended_varMarkup keep (free_declaredName h.1 hname)
      (free_optionalMarkup init h.2 hinit)).part
  | .expr expr _, keep, h, hnames, _ => (expr.ended_statementMarkup keep h hnames).part
  | .scope body _, keep, h, hnames, hloops => (body.ended_outer keep h hnames hloops).part
  | .branch cond body otherwise _, keep, h, hnames, hloops => by
    obtain ⟨hcond, hbody, hrest⟩ := h
    simp only [Stmt.names, noneReserved_append] at hnames
    obtain ⟨⟨hcondNames, hbodyNames⟩, hrestNames⟩ := hnames
    obtain ⟨hbodyLoops, hrestLoops⟩ := List.append_eq_nil_iff.mp hloops
    have hif := Expr.ended_conditionMarkup "if" (isFree_of_mem (by simp [fixedWords]))
      (cond.free_markup hcond hcondNames)
    have hbody := body.ended_outer keep hbody hbodyNames hbodyLoops
    have hrest := otherwise.ended_outer keep hrest hrestNames hrestLoops
    exact ((((ended_resetMarkup keep).append hif).append hbody).append hrest).part
  | .loop cond body _, keep, h, hnames, hloops => by
    obtain ⟨hcondNames, hbodyNames⟩ := noneReserved_append.mp hnames
    have hwhile : opens "while (" = true := opens_of_mem (by simp [openings])
    have hclose : fences ")\n" = true := fences_of_mem (by simp [fencings])
    have hcond := ((ended_resetMarkup keep).append (ended_code hwhile)).word
      (cond.free_markup h.1 hcondNames)
    exact ((hcond.fence hclose).append (body.ended_outer keep h.2 hbodyNames hloops)).part
  | .count var start stop direction step body _, keep, h, hnames, hloops => by
    obtain ⟨hvar, hstart, hstop, hstep, hbody⟩ := h
    simp only [Stmt.names, noneReserved_append, noneReserved_cons] at hnames
    obtain ⟨⟨⟨⟨hvarName, hstartNames⟩, hstopNames⟩, hstepNames⟩, hbodyNames⟩ := hnames
    have hstart := Expr.ended_valueMarkup (start.free_markup hstart hstartNames)
    have hstop := Expr.ended_valueMarkup (stop.free_markup hstop hstopNames)
    have hstep := free_stepMarkup step hstep hstepNames
    have hbody := body.ended_outer keep hbody hbodyNames hloops
    have hcount := ended_countMarkup (free_declaredName hvar hvarName) hstart.free hstop.free
      direction hstep hbody
    exact ((ended_resetMarkup keep).append hcount).part
  | .each .., _, _, _, hloops => nomatch hloops
  | .leave _, _, _, _, _ =>
    (ended_fixed (s := "pfm_ret = 0;\nbreak;\n") (by simp [openings])).part
  | .skip _, _, _, _, _ =>
    (ended_fixed (s := "pfm_ret = 0;\ncontinue;\n") (by simp [openings])).part

theorem Block.ended_outer : (body : Block) → (keep : Bool) → body.Shaped →
    NoneReserved body.names → body.outer.loops keep = [] → (body.outer.markup keep).Ended
  | .mk stmts _, keep, h, hnames, hloops =>
    ended_blockMarkup (ended_outerStmts stmts keep h.1 hnames hloops)

theorem Otherwise.ended_outer : (rest : Otherwise) → (keep : Bool) → rest.Shaped →
    NoneReserved rest.names → rest.outer.loops keep = [] → (rest.outer.markup keep).Ended
  | .nothing, _, _, _, _ => ended_empty
  | .last body, keep, h, hnames, hloops => by
    have helse : opens "else " = true := opens_of_mem (by simp [openings])
    exact (ended_code helse).append (body.ended_outer keep h hnames hloops)
  | .elseIf cond body rest, keep, h, hnames, hloops => by
    obtain ⟨hcond, hbody, hrest⟩ := h
    simp only [Otherwise.names, noneReserved_append] at hnames
    obtain ⟨⟨hcondNames, hbodyNames⟩, hrestNames⟩ := hnames
    obtain ⟨hbodyLoops, hrestLoops⟩ := List.append_eq_nil_iff.mp hloops
    have hif := Expr.ended_conditionMarkup "else if" (isFree_of_mem (by simp [fixedWords]))
      (cond.free_markup hcond hcondNames)
    exact (hif.append (body.ended_outer keep hbody hbodyNames hbodyLoops)).append
      (rest.ended_outer keep hrest hrestNames hrestLoops)

theorem ended_outerStmts : (stmts : List Stmt) → (keep : Bool) → ShapedStmts stmts →
    NoneReserved (stmtsNames stmts) → stmtsLoops keep (outerStmts stmts) = [] →
      (stmtsMarkup keep (outerStmts stmts)).Ended
  | [], _, _, _, _ => ended_empty
  | stmt :: rest, keep, h, hnames, hloops => by
    obtain ⟨hstmtNames, hrestNames⟩ := noneReserved_append.mp hnames
    obtain ⟨hstmtLoops, hrestLoops⟩ := List.append_eq_nil_iff.mp hloops
    exact (stmt.ended_outer _ h.1 hstmtNames hstmtLoops).append
      (ended_outerStmts rest keep h.2 hrestNames hrestLoops)

end

/-! ### Where loops are written -/

namespace Markup

/-- Whether a text is one that another was put together from. -/
inductive Inside (inner : Markup) : Markup → Prop
  | refl : Inside inner inner
  | first {first second : Markup} : Inside inner first → Inside inner (first ++ second)
  | second {first second : Markup} : Inside inner second → Inside inner (first ++ second)
  | part {body : Markup} : Inside inner body → Inside inner (part body)

variable {inner m : Markup}

/-- Where texts are put together, those of their parts are. -/
theorem Inside.exists_append {f : Markup → String}
    (happend : ∀ first second, f (first ++ second) = f first ++ f second)
    (hpart : ∀ body, f (Markup.part body) = f body) (h : Inside inner m) :
    ∃ front back, f m = front ++ f inner ++ back := by
  induction h with
  | refl => exact ⟨"", "", by rw [String.empty_append, String.append_empty]⟩
  | @first first second _ ih =>
    obtain ⟨front, back, hfirst⟩ := ih
    refine ⟨front, back ++ f second, ?_⟩
    rw [happend, hfirst, String.append_assoc]
  | @second first second _ ih =>
    obtain ⟨front, back, hsecond⟩ := ih
    refine ⟨f first ++ front, back, ?_⟩
    rw [happend, hsecond, String.append_assoc, String.append_assoc, String.append_assoc]
  | part _ ih =>
    rw [hpart]
    exact ih

/-- The code of a loop declares the hidden array. -/
theorem Inside.writes {var : String} {collections : List Markup} {body : Markup}
    (h : Inside (eachMarkup var collections body) m) :
    Writes (codeTokens m.codeText) "pfm_ary" := by
  have hdeclaration : Inside (code " = null;\nvar pfm_ary = ") (eachMarkup var collections body) :=
    Inside.refl.second.first.first.first.first.first.first
  obtain ⟨front, back, hm⟩ := h.exists_append (f := codeText) (fun _ _ => rfl) fun _ => rfl
  obtain ⟨front', back', heach⟩ :=
    hdeclaration.exists_append (f := codeText) (fun _ _ => rfl) fun _ => rfl
  have hapart : keepsApart " = null;\nvar pfm_ary = " = true := by decide +kernel
  have htokens : codeTokens " = null;\nvar pfm_ary = " =
      ["=", "null", ";"] ++ ["var", "pfm_ary"] ++ ["="] := by decide +kernel
  have hsplit : m.codeText =
      (front ++ front') ++ " = null;\nvar pfm_ary = " ++ (back' ++ back) := by
    rw [hm, heach, codeText]
    simp only [String.append_assoc]
  refine .inl ⟨["var"], List.mem_cons_self, ?_⟩
  rw [hsplit, codeTokens_between hapart, htokens]
  refine ⟨codeTokens (front ++ front') ++ ["=", "null", ";"],
    ["="] ++ codeTokens (back' ++ back), ?_⟩
  simp only [List.append_assoc, List.cons_append, List.nil_append]

end Markup

mutual

/-- Every loop is written around its body. -/
theorem Stmt.inside_of_loops : (stmt : Stmt) → (keep : Bool) → ∀ loop ∈ stmt.loops keep,
    ∃ var collections, Inside (eachMarkup var (argumentMarkups collections) (loop.2.markup loop.1))
      (stmt.markup keep)
  | .function name params body _, _ => by
    intro loop hloop
    obtain ⟨var, collections, hinside⟩ := inside_of_stmtsLoops body true loop hloop
    exact ⟨var, collections, hinside.second.first.part⟩
  | .scope body _, keep => by
    intro loop hloop
    obtain ⟨var, collections, hinside⟩ := body.inside_of_loops keep loop hloop
    exact ⟨var, collections, hinside.part⟩
  | .branch cond body otherwise _, keep => by
    refine List.forall_mem_append.mpr ⟨fun loop hloop => ?_, fun loop hloop => ?_⟩
    · obtain ⟨var, collections, hinside⟩ := body.inside_of_loops keep loop hloop
      exact ⟨var, collections, hinside.second.first.part⟩
    · obtain ⟨var, collections, hinside⟩ := otherwise.inside_of_loops keep loop hloop
      exact ⟨var, collections, hinside.second.part⟩
  | .loop cond body _, keep => by
    intro loop hloop
    obtain ⟨var, collections, hinside⟩ := body.inside_of_loops keep loop hloop
    exact ⟨var, collections, hinside.second.part⟩
  | .count _ _ _ _ _ body _, keep => by
    intro loop hloop
    obtain ⟨var, collections, hinside⟩ := body.inside_of_loops keep loop hloop
    exact ⟨var, collections, hinside.second.first.second.part⟩
  | .each var collections body _, keep => by
    refine List.forall_mem_cons.mpr ⟨⟨declaredName var, collections,
      Inside.refl.second.part⟩, fun loop hloop => ?_⟩
    obtain ⟨var, collections, hinside⟩ := body.inside_of_loops keep loop hloop
    exact ⟨var, collections, hinside.second.first.second.part⟩
  | .var .., _ | .expr .., _ | .leave _, _ | .skip _, _ => nofun

theorem Block.inside_of_loops : (body : Block) → (keep : Bool) → ∀ loop ∈ body.loops keep,
    ∃ var collections, Inside (eachMarkup var (argumentMarkups collections) (loop.2.markup loop.1))
      (body.markup keep)
  | .mk stmts _, keep => by
    intro loop hloop
    obtain ⟨var, collections, hinside⟩ := inside_of_stmtsLoops stmts keep loop hloop
    exact ⟨var, collections, hinside.second.first⟩

theorem Otherwise.inside_of_loops : (rest : Otherwise) → (keep : Bool) → ∀ loop ∈ rest.loops keep,
    ∃ var collections, Inside (eachMarkup var (argumentMarkups collections) (loop.2.markup loop.1))
      (rest.markup keep)
  | .nothing, _ => nofun
  | .last body, keep => by
    intro loop hloop
    obtain ⟨var, collections, hinside⟩ := body.inside_of_loops keep loop hloop
    exact ⟨var, collections, hinside.second⟩
  | .elseIf cond body rest, keep => by
    refine List.forall_mem_append.mpr ⟨fun loop hloop => ?_, fun loop hloop => ?_⟩
    · obtain ⟨var, collections, hinside⟩ := body.inside_of_loops keep loop hloop
      exact ⟨var, collections, hinside.second.first⟩
    · obtain ⟨var, collections, hinside⟩ := rest.inside_of_loops keep loop hloop
      exact ⟨var, collections, hinside.second⟩

theorem inside_of_stmtsLoops : (stmts : List Stmt) → (keep : Bool) →
    ∀ loop ∈ stmtsLoops keep stmts, ∃ var collections,
      Inside (eachMarkup var (argumentMarkups collections) (loop.2.markup loop.1))
        (stmtsMarkup keep stmts)
  | [], _ => nofun
  | stmt :: rest, keep => by
    refine List.forall_mem_append.mpr ⟨fun loop hloop => ?_, fun loop hloop => ?_⟩
    · obtain ⟨var, collections, hinside⟩ := stmt.inside_of_loops _ loop hloop
      exact ⟨var, collections, hinside.first⟩
    · obtain ⟨var, collections, hinside⟩ := inside_of_stmtsLoops rest keep loop hloop
      exact ⟨var, collections, hinside.second⟩

end

theorem Program.inside_of_loops (program : Program) : ∀ loop ∈ program.loops,
    ∃ var collections, Inside (eachMarkup var (argumentMarkups collections) (loop.2.markup loop.1))
      program.markup := by
  intro loop hloop
  have hempty : ¬program.isEmpty = true := by
    intro hempty
    rw [Program.loops, List.isEmpty_iff.mp hempty] at hloop
    cases hloop
  obtain ⟨var, collections, hinside⟩ := inside_of_stmtsLoops program.stmts true loop hloop
  refine ⟨var, collections, ?_⟩
  rw [Program.markup, if_neg hempty]
  exact hinside.second.first

/-- **What a function runs writes the hidden variables exactly if it has a loop over collections of
its own.** -/
theorem Block.writes_outer_iff {body : Block} (keep : Bool) (h : body.Shaped)
    (hnames : NoneReserved body.names) :
    (∃ name ∈ hiddenNames, Writes (codeTokens (body.outer.markup keep).codeText) name) ↔
      body.outer.loops keep ≠ [] := by
  constructor
  · rintro ⟨name, hname, hwrites⟩ hloops
    exact (body.ended_outer keep h hnames hloops).free.not_writes hname hwrites
  · intro hloops
    obtain ⟨loop, hloop⟩ := List.exists_mem_of_ne_nil _ hloops
    obtain ⟨var, collections, hinside⟩ := body.outer.inside_of_loops keep loop hloop
    exact ⟨"pfm_ary", List.mem_cons_self, hinside.writes⟩

end FormCalc
