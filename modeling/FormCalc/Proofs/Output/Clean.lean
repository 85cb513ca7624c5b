import FormCalc.Proofs.Output.Scanned
import FormCalc.Proofs.Token.Allowed

/-!
# The characters of JavaScript

What a parsed script becomes holds only characters that may stand in a script, and no carriage
return.  The fixed parts of it are checked once and for all, and so are the names that the host
gives; names, numbers and strings of the script are lexemes.

* `Clean`: whether a text is such a one.
* `clean_referencedName`, `clean_number`, `clean_quotedText`: what comes from the script.
* `Expr.clean_text`, `Stmt.clean_text`: what is put together.
-/

namespace FormCalc

open Host Text

/-- Whether a character may stand in a script and is no carriage return. -/
def isClean (c : Char) : Bool := isAllowed c && c != '\r'

/-- Whether a text holds only characters that may stand in a script, and no carriage return. -/
def Clean (s : String) : Prop := s.toList.all isClean = true

theorem clean_iff {s : String} : Clean s ↔ ∀ c ∈ s.toList, isAllowed c = true ∧ c ≠ '\r' := by
  simp only [Clean, isClean, List.all_eq_true, Bool.and_eq_true, bne_iff_ne]

theorem Clean.append {s t : String} (hs : Clean s) (ht : Clean t) : Clean (s ++ t) := by
  rw [Clean, String.toList_append, List.all_append, Bool.and_eq_true]
  exact ⟨hs, ht⟩

/-- Fixed text, character by character. -/
theorem Clean.fixed {cs : List Char} (h : cs.all isClean = true) : Clean (String.ofList cs) := by
  rwa [Clean, String.toList_ofList]

theorem clean_ite {c : Prop} [Decidable c] {s t : String} (hs : Clean s) (ht : Clean t) :
    Clean (if c then s else t) := by
  split
  · exact hs
  · exact ht

theorem clean_commaSeparated {args : List String} (h : ∀ arg ∈ args, Clean arg) :
    Clean (commaSeparated args) := by
  induction args with
  | nil => exact .fixed rfl
  | cons first rest ih =>
    obtain ⟨hfirst, hrest⟩ := List.forall_mem_cons.mp h
    cases rest with
    | nil => simpa [commaSeparated] using hfirst
    | cons second rest =>
      have hcomma : Clean ", " := .fixed rfl
      have hmore := hfirst.append (hcomma.append (ih hrest))
      simpa [commaSeparated, String.append_assoc] using hmore

/-! ### Names, numbers and strings -/

theorem clean_lexeme {kind : Kind} {text : String} (h : IsLexeme kind text)
    (hreturn : '\r' ∉ text.toList) : Clean text := by
  refine clean_iff.mpr fun c hc => ⟨h.allowed c hc, ?_⟩
  rintro rfl
  exact hreturn hc

theorem clean_number {raw : String} (h : IsLexeme .number raw) : Clean raw := by
  refine clean_lexeme h fun hc => ?_
  have hnumber := h.isNumberChar _ hc
  revert hnumber
  decide

theorem clean_name {name : String} (h : IsName name) : Clean name := by
  refine clean_lexeme h fun hc => ?_
  have hname := h.isIdentifierChar _ hc
  revert hname
  decide

theorem clean_declaredName {name : String} (h : IsName name) : Clean (declaredName name) := by
  have hname := clean_name h
  unfold declaredName
  split
  · rename_i rest hrest
    rw [Clean, hrest, List.all_cons, Bool.and_eq_true] at hname
    exact Clean.append (.fixed rfl) (.fixed hname.2)
  · exact hname

theorem clean_referencedName {name : String} (h : IsName name) : Clean (referencedName name) := by
  unfold referencedName
  cases hlookup : objectNames.lookup name with
  | none => exact clean_declaredName h
  | some object =>
    have hobjects : ∀ entry ∈ objectNames, entry.2.toList.all isClean = true := by decide +kernel
    exact hobjects _ (mem_of_lookup hlookup)

/-- The value of a string has no carriage return, and its other characters stand in the string. -/
theorem Interior.isClean_value {cs : List Char} (h : Interior cs) :
    ∀ c ∈ interiorValue cs, isClean c = true := by
  induction h with
  | nil => exact nofun
  | pair rest ih =>
    rw [interiorValue]
    exact List.forall_mem_cons.mpr ⟨rfl, ih⟩
  | @char d cs hquote hallowed rest ih =>
    rw [interiorValue_char hquote]
    split
    · exact ih
    · rename_i hreturn
      refine List.forall_mem_cons.mpr ⟨?_, ih⟩
      rw [isClean, hallowed, Bool.true_and, bne_iff_ne]
      exact hreturn

theorem all_spell {c : Char} (h : isClean c = true) : (Literal.spell c).all isClean = true := by
  by_cases hquote : c = '"'
  · rw [hquote]
    rfl
  by_cases hnewline : c = '\n'
  · rw [hnewline]
    rfl
  · rw [Literal.spell_char hquote hnewline, List.all_cons, h]
    rfl

theorem clean_quotedText {raw : String} (h : IsLexeme .string raw) : Clean (quotedText raw) := by
  obtain ⟨c, cs, htext, hread⟩ := h
  have hverdict : (Lexeme.read c cs).verdict = .ok .string := by rw [hread]
  obtain ⟨interior, hinterior, hpairs⟩ := Lexeme.exists_interior_read hverdict
  rw [hread, ← htext] at hinterior
  have hvalue : ((interiorValue interior).flatMap Literal.spell).all isClean = true := by
    rw [List.all_flatMap]
    exact List.all_eq_true.mpr fun c hc => all_spell (hpairs.isClean_value c hc)
  rw [Clean, toList_quotedText hinterior hpairs, List.all_cons, List.all_append, hvalue]
  rfl

/-! ### Expressions -/

section Expressions

variable {target value base name member index receiver call : String} {args : List String}

theorem clean_memberText {name : String} (h : Clean name) : Clean (memberText name) :=
  ((Clean.fixed rfl).append (.fixed rfl)).append h

theorem clean_callText (helper : Helper) (h : Clean name) : Clean (helper.callText name) := by
  have hhelper : Clean helper.name := by cases helper <;> exact .fixed rfl
  exact (((clean_memberText hhelper).append (.fixed rfl)).append h).append (.fixed rfl)

theorem clean_keptText (keep : Bool) : Clean (keptText keep) := clean_ite (.fixed rfl) (.fixed rfl)

theorem clean_assignmentText (keep isVariable : Bool) (htarget : Clean target)
    (hvalue : Clean value) : Clean (assignmentText keep isVariable target value) := by
  have hkept := clean_keptText keep
  have hassigned : Clean (Helper.asgnValOp.callText (commaSeparated [target, value])) := by
    refine clean_callText _ (clean_commaSeparated ?_)
    exact List.forall_mem_cons.mpr ⟨htarget, List.forall_mem_singleton.mpr hvalue⟩
  have hobject : Clean ("if (" ++ Helper.isObj.callText target) :=
    .append (.fixed rfl) (clean_callText .isObj htarget)
  refine Clean.append ((((hobject.append (.fixed rfl)).append hkept).append hassigned).append
    (.fixed rfl)) (clean_ite ?_ (.fixed rfl))
  exact ((((Clean.append (.fixed rfl) hkept).append htarget).append (.fixed rfl)).append
    hassigned).append (.fixed rfl)

theorem clean_methodCallText (hname : Clean name) (h : ∀ arg ∈ args, Clean arg) :
    Clean (methodCallText name args) := by
  refine ((hname.append (.fixed rfl)).append (clean_commaSeparated ?_)).append (.fixed rfl)
  intro arg harg
  obtain ⟨i, hi, rfl⟩ := List.mem_mapIdx.mp harg
  exact clean_callText _ (h _ (List.getElem_mem hi))

theorem clean_builtin {spelling : String} (h : spelling ∈ builtins) : Clean spelling := by
  have hall : builtins.toList.all (fun spelling => spelling.toList.all isClean) = true := by
    decide +kernel
  exact List.all_eq_true.mp hall spelling (Array.mem_toList_iff.mpr h)

theorem clean_builtinText {spelling : String} (hspelling : spelling ∈ builtins)
    (h : ∀ arg ∈ args, Clean arg) : Clean (builtinText spelling args) := by
  have hargs := clean_commaSeparated h
  have hmember := clean_memberText (clean_builtin hspelling)
  unfold builtinText
  refine clean_ite ?_ (clean_ite ?_ ?_)
  · exact (Clean.append (.fixed rfl) (clean_callText _ hargs)).append (.fixed rfl)
  · have hfirst : Clean (args.headD "0") := by
      cases args with
      | nil => exact .fixed rfl
      | cons first rest => exact (List.forall_mem_cons.mp h).1
    exact ((((hmember.append (.fixed rfl)).append (.fixed rfl)).append hfirst).append
      (.fixed rfl)).append (.fixed rfl)
  · exact ((hmember.append (.fixed rfl)).append hargs).append (.fixed rfl)

theorem clean_callText_callee (isMethod : Bool) (hname : isMethod = true → Clean name)
    (h : ∀ arg ∈ args, Clean arg) : Clean (callText isMethod name args) := by
  cases isMethod with
  | true => exact clean_methodCallText (hname rfl) h
  | false =>
    unfold callText
    rw [if_neg Bool.false_ne_true]
    cases hbuiltin : builtin? name with
    | none => exact .fixed rfl
    | some spelling => exact clean_builtinText (builtin_spec hbuiltin).1 h

theorem clean_accessorText (helper : Helper) (hbase : Clean base) (hname : Clean name)
    (hmember : Clean member) (hindex : Clean index) :
    Clean (accessorText helper base name member index) := by
  have hquoted : Clean (base ++ ", \"" ++ name ++ "\", ") :=
    ((hbase.append (.fixed rfl)).append hname).append (.fixed rfl)
  exact clean_callText helper (((hquoted.append hmember).append (.fixed rfl)).append hindex)

theorem clean_methodText (hreceiver : Clean receiver) (hcall : Clean call) :
    Clean (methodText receiver call) :=
  (((Clean.append (.fixed rfl) hreceiver).append (.fixed rfl)).append hcall).append (.fixed rfl)

theorem clean_inQuotes (h : IsName name) : Clean ("\"" ++ name ++ "\"") :=
  (Clean.append (.fixed rfl) (clean_name h)).append (.fixed rfl)

theorem Member.clean_quoted {base : Expr} {index : Index} {member : Member}
    (h : member.Selects base index) : Clean member.quoted := by
  cases member with
  | named name => exact clean_inQuotes h
  | hash name => exact (Clean.append (.fixed rfl) (clean_name h)).append (.fixed rfl)
  | star => exact .fixed rfl
  | callResult => exact .fixed rfl

end Expressions

mutual

theorem Expr.clean_text : (e : Expr) → e.Shaped → Clean e.text
  | .null _, _ => .fixed rfl
  | .number .., h => clean_number h
  | .string .., h => clean_quotedText h
  | .identifier .., h => clean_referencedName h
  | .unary _ operand _, h => clean_callText _ (operand.clean_text h)
  | .binary _ left right _, h =>
    clean_callText _ (((left.clean_text h.1).append (.fixed rfl)).append (right.clean_text h.2))
  | .assign .., h => h.elim
  | .call callee args _ _, h =>
    clean_callText_callee _ (fun _ => callee.clean_text h.2.1) (clean_argumentTexts args h.2.2.1)
  | .dot base _ index _, h =>
    clean_accessorText _ (base.clean_text h.1) (clean_ite (base.clean_text h.1) (.fixed rfl))
      (Member.clean_quoted h.2.2) (index.clean_text h.2.1)
  | .element _ index _, h => by
    obtain ⟨⟨name, rfl, hname⟩, hindex, -⟩ := h
    exact clean_accessorText _ (.fixed rfl) (.fixed rfl) (clean_inQuotes hname)
      (index.clean_text hindex)
  | .descendant base _ index _, h =>
    clean_accessorText _ (base.clean_text h.1) (clean_ite (base.clean_text h.1) (.fixed rfl))
      (clean_inQuotes h.2.1) (index.clean_text h.2.2)
  | .method receiver call _, h =>
    clean_methodText (receiver.clean_text h.1) (call.clean_text_of_shapedMethod h.2)

theorem Expr.clean_text_of_shapedMethod : (e : Expr) → e.ShapedMethod → Clean e.text
  | .call callee args isMethod _, h => by
    obtain ⟨rfl, ⟨name, span, rfl, hname⟩, hargs, -⟩ := h
    exact clean_methodCallText (clean_referencedName hname) (clean_argumentTexts args hargs)
  | .null _, h | .number .., h | .string .., h | .identifier .., h | .unary .., h
  | .binary .., h | .assign .., h | .dot .., h | .element .., h | .descendant .., h
  | .method .., h => h.elim

theorem Index.clean_text : (index : Index) → index.Shaped → Clean index.text
  | .none, _ | .star, _ => .fixed rfl
  | .entry mode expr, h => by
    have hmode : Clean mode.digit := by cases mode <;> exact .fixed rfl
    exact (hmode.append (.fixed rfl)).append (expr.clean_text h)

theorem clean_argumentTexts : (args : List Expr) → ShapedArguments args →
    ∀ arg ∈ argumentTexts args, Clean arg
  | [], _ => nofun
  | arg :: rest, h => List.forall_mem_cons.mpr ⟨arg.clean_text h.1, clean_argumentTexts rest h.2⟩

end

/-! ### Statements -/

section Statements

variable {name start stop step body : String}

theorem Expr.clean_valueText {e : Expr} (h : e.Shaped) : Clean e.valueText :=
  clean_callText _ (e.clean_text h)

theorem clean_resetText (keep : Bool) : Clean (resetText keep) :=
  clean_ite (.fixed rfl) (.fixed rfl)

theorem Expr.clean_conditionText {keyword : String} (hkeyword : Clean keyword) {cond : Expr}
    (h : cond.Shaped) : Clean (cond.conditionText keyword) :=
  ((hkeyword.append (.fixed rfl)).append (Expr.clean_valueText h)).append (.fixed rfl)

theorem clean_varText (keep : Bool) (hname : Clean name) {init : Option String}
    (hinit : ∀ value ∈ init, Clean value) : Clean (varText keep name init) := by
  have hvar : Clean ("var " ++ name ++ " = ") :=
    (Clean.append (.fixed rfl) hname).append (.fixed rfl)
  refine (hvar.append ?_).append (clean_ite ?_ (.fixed rfl))
  · cases init with
    | none => exact .fixed rfl
    | some value =>
      exact (((((hinit value rfl).append (.fixed rfl)).append hname).append (.fixed rfl)).append
        (clean_callText _ hname)).append (.fixed rfl)
  · exact (Clean.append (.fixed rfl) hname).append (.fixed rfl)

theorem Expr.clean_statementText (keep : Bool) {e : Expr} (h : e.ShapedStatement) :
    Clean (e.statementText keep) := by
  -- an assignment is written in its own way, and all others alike
  have hplain : ∀ e : Expr, e.Shaped → Clean (keptText keep ++
      (if keep && e.isAccessor then e.valueText else e.text) ++ ";\n") := by
    intro e he
    have htext := clean_ite (c := (keep && e.isAccessor) = true) (Expr.clean_valueText he)
      (e.clean_text he)
    exact ((clean_keptText keep).append htext).append (.fixed rfl)
  cases e with
  | assign target value span =>
    exact clean_assignmentText keep _ (target.clean_text h.1) (value.clean_text h.2)
  | null | number | string | identifier | unary | binary | call | dot | element | descendant
  | method => exact hplain _ h

theorem clean_functionText (hname : Clean name) {params : List String}
    (hparams : ∀ param ∈ params, Clean param) (hbody : Clean body) :
    Clean (functionText name params body) := by
  have hhead : Clean ("function " ++ name ++ "(" ++ commaSeparated params) :=
    ((Clean.append (.fixed rfl) hname).append (.fixed rfl)).append (clean_commaSeparated hparams)
  exact ((hhead.append (.fixed rfl)).append hbody).append (.fixed rfl)

theorem clean_countText (hname : Clean name) (hstart : Clean start) (hstop : Clean stop)
    (direction : Direction) (hstep : Clean step) (hbody : Clean body) :
    Clean (countText name start stop direction step body) := by
  have hcompare : Clean direction.signs.1 := by cases direction <;> exact .fixed rfl
  have hmove : Clean direction.signs.2 := by cases direction <;> exact .fixed rfl
  have hinit : Clean ("\x7b\nvar " ++ name ++ " = null;\nfor (" ++ name ++ " = " ++ start) :=
    ((((Clean.append (.fixed rfl) hname).append (.fixed rfl)).append hname).append
      (.fixed rfl)).append hstart
  have htest := (((hinit.append (t := "; ") (.fixed rfl)).append hname).append hcompare).append
    hstop
  have hnext := (((htest.append (t := "; ") (.fixed rfl)).append hname).append hmove).append hstep
  exact ((hnext.append (.fixed rfl)).append hbody).append (.fixed rfl)

theorem clean_eachText (hname : Clean name) {collections : List String}
    (hcollections : ∀ collection ∈ collections, Clean collection) (hbody : Clean body) :
    Clean (eachText name collections body) := by
  have hlist := clean_callText .concatObj (clean_commaSeparated hcollections)
  have hvar : Clean ("\x7b\nvar " ++ name ++ " = null;\nvar pfm_ary = ") :=
    (Clean.append (.fixed rfl) hname).append (.fixed rfl)
  exact (((((hvar.append hlist).append (.fixed rfl)).append hname).append (.fixed rfl)).append
    hbody).append (.fixed rfl)

theorem clean_stepText {part : Option Expr} (h : ShapedOptional part) :
    Clean ((part.map Expr.valueText).getD "1") := by
  cases part with
  | none => exact .fixed rfl
  | some e => exact Expr.clean_valueText h

theorem clean_optionalText {part : Option Expr} (h : ShapedOptional part) :
    ∀ value ∈ part.map Expr.text, Clean value := by
  cases part with
  | none => exact nofun
  | some e =>
    intro value hvalue
    obtain rfl := Option.some.inj hvalue
    exact e.clean_text h

end Statements

mutual

theorem Stmt.clean_text (keep : Bool) : (stmt : Stmt) → stmt.Shaped → Clean (stmt.text keep)
  | .function name params body _, h => by
    obtain ⟨hname, hparams, hbody, -⟩ := h
    have hparams' : ∀ param ∈ params.map declaredName, Clean param :=
      List.forall_mem_map.mpr fun param hparam => clean_declaredName (hparams param hparam)
    exact clean_functionText (clean_declaredName hname) hparams' (clean_stmtsText true body hbody)
  | .var _ _ _, h => clean_varText keep (clean_declaredName h.1) (clean_optionalText h.2)
  | .expr _ _, h => Expr.clean_statementText keep h
  | .scope body _, h => body.clean_text keep h
  | .branch _ body otherwise _, h =>
    (((clean_resetText keep).append (Expr.clean_conditionText (.fixed rfl) h.1)).append
      (body.clean_text keep h.2.1)).append (otherwise.clean_text keep h.2.2)
  | .loop cond body _, h =>
    ((((clean_resetText keep).append (.fixed rfl)).append (cond.clean_text h.1)).append
      (.fixed rfl)).append (body.clean_text keep h.2)
  | .count _ _ _ direction _ body _, h => by
    obtain ⟨hvar, hstart, hstop, hstep, hbody⟩ := h
    exact (clean_resetText keep).append (clean_countText (clean_declaredName hvar)
      (Expr.clean_valueText hstart) (Expr.clean_valueText hstop) direction (clean_stepText hstep)
      (body.clean_text keep hbody))
  | .each _ collections body _, h => by
    obtain ⟨hvar, -, hcollections, -, hbody⟩ := h
    exact (clean_resetText keep).append (clean_eachText (clean_declaredName hvar)
      (clean_argumentTexts collections hcollections) (body.clean_text keep hbody))
  | .leave _, _ | .skip _, _ => .fixed rfl

theorem Block.clean_text (keep : Bool) : (body : Block) → body.Shaped → Clean (body.text keep)
  | .mk stmts _, h =>
    (Clean.append (.fixed rfl) (clean_stmtsText keep stmts h.1)).append (.fixed rfl)

theorem Otherwise.clean_text (keep : Bool) :
    (rest : Otherwise) → rest.Shaped → Clean (rest.text keep)
  | .nothing, _ => .fixed rfl
  | .last body, h => Clean.append (.fixed rfl) (body.clean_text keep h)
  | .elseIf _ body rest, h =>
    ((Expr.clean_conditionText (.fixed rfl) h.1).append (body.clean_text keep h.2.1)).append
      (rest.clean_text keep h.2.2)

theorem clean_stmtsText (keep : Bool) :
    (stmts : List Stmt) → ShapedStmts stmts → Clean (stmtsText keep stmts)
  | [], _ => .fixed rfl
  | stmt :: rest, h => (stmt.clean_text _ h.1).append (clean_stmtsText keep rest h.2)

end

/-! ### Scripts -/

theorem clean_prologue : Clean prologue := by
  unfold prologue
  -- line by line, for a long text is slow to evaluate
  iterate 11 refine Clean.append ?_ (.fixed rfl)
  exact .fixed rfl

/-- **What is written is clean**, for every script with the shape of a parsed one. -/
theorem Program.clean_of_write {program : Program} (h : ShapedStmts program.stmts)
    {limits : OutputLimits} {js : String} (hwrite : program.write limits = .ok js) : Clean js := by
  by_cases hempty : program.isEmpty = true
  · rw [Program.write, if_pos hempty] at hwrite
    obtain rfl := Except.ok.inj hwrite
    exact .fixed rfl
  · have hstmts : program.stmts ≠ [] := by
      intro hnil
      exact hempty (List.isEmpty_iff.mpr hnil)
    rw [(Program.text_of_write hstmts hwrite).1]
    exact (clean_prologue.append (clean_stmtsText true program.stmts h)).append (.fixed rfl)

end FormCalc
