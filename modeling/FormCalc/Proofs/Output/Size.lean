import FormCalc.Proofs.Grammar.Weight
import FormCalc.Proofs.Host.Builtin
import FormCalc.Proofs.Output.Rendering
import FormCalc.Proofs.Tree.Shape

/-!
# How much longer a text gets

The text of a tree may repeat the text of a part: the target of an assignment stands in it up to
four times, its value twice, and a base that is a name twice.  None of this adds up.  An assignment
is no part of an expression, and what stands there more than twice is a name.  So the text of a
tree is bounded by its weight.

* `utf8ByteSize_helperCall_le`, `utf8ByteSize_commaSeparated_le`, …: what the templates add to their
  parts.
* `Expr.size_text_le`: an expression takes at most 50 bytes for each unit of its weight.  22 of them
  are left over, for the comma behind it and the call around it where it is an argument.
* `Stmt.size_text_le`: a statement takes at most 100 bytes for each unit of its weight.
-/

namespace FormCalc

open Host

/-! ### Names and strings -/

theorem utf8ByteSize_declaredName_le (name : String) :
    (declaredName name).utf8ByteSize ≤ name.utf8ByteSize + 10 := by
  unfold declaredName
  split
  · rename_i rest hname
    have hsize : name.utf8ByteSize = 1 + (String.ofList rest).utf8ByteSize := by
      rw [← utf8Length_toList, hname, utf8Length_cons, ← utf8Length_toList, String.toList_ofList]
      rfl
    have hprefix : exclamationText.utf8ByteSize = 11 := rfl
    rw [String.utf8ByteSize_append]
    omega
  · omega

theorem utf8ByteSize_referencedName_le (name : String) :
    (referencedName name).utf8ByteSize ≤ name.utf8ByteSize + 12 := by
  have hobjects : ∀ entry ∈ objectNames, entry.2.utf8ByteSize ≤ entry.1.utf8ByteSize + 12 := by
    decide
  have hdeclared := utf8ByteSize_declaredName_le name
  unfold referencedName
  cases hlookup : objectNames.lookup name with
  | none =>
    rw [Option.getD_none]
    omega
  | some object => exact hobjects _ (mem_of_lookup hlookup)

/-- An escape is twice as long as what it stands for. -/
theorem utf8Length_escaped_le (cs : List Char) : utf8Length (escaped cs) ≤ 2 * utf8Length cs := by
  have hbackslash : '\\'.utf8Size = 1 := rfl
  have hquote : '"'.utf8Size = 1 := rfl
  have hfeed : '\n'.utf8Size = 1 := rfl
  fun_induction escaped cs with
  | case1 => exact Nat.le_refl 0
  | case2 => decide
  | case3 | case4 | case5 | case6 =>
    simp only [utf8Length_cons, hbackslash, hquote, hfeed] at *
    have hletter : 'n'.utf8Size = 1 := rfl
    omega

theorem utf8Length_le_of_sublist {cs ds : List Char} (h : cs.Sublist ds) :
    utf8Length cs ≤ utf8Length ds := by
  induction h with
  | slnil => exact Nat.le_refl 0
  | cons d _ ih =>
    rw [utf8Length_cons]
    omega
  | cons_cons d _ ih =>
    rw [utf8Length_cons, utf8Length_cons]
    omega

theorem utf8ByteSize_quotedText_le (raw : String) :
    (quotedText raw).utf8ByteSize ≤ 2 * raw.utf8ByteSize + 2 := by
  unfold quotedText
  split
  · omega
  · have hescaped := utf8Length_escaped_le (raw.toList.drop 1).dropLast
    have hinside : utf8Length (raw.toList.drop 1).dropLast ≤ utf8Length raw.toList :=
      utf8Length_le_of_sublist ((List.dropLast_sublist _).trans (List.drop_sublist 1 _))
    have hquote : "\"".utf8ByteSize = 1 := rfl
    rw [utf8Length_toList] at hinside
    rw [String.utf8ByteSize_append, String.utf8ByteSize_append, hquote,
      ← utf8Length_toList (String.ofList _), String.toList_ofList]
    omega

/-! ### Templates -/

section Templates

variable (helper : Helper) (base name member index receiver call target value text : String)
  (args : List String)

theorem utf8ByteSize_helperCall_le :
    (helper.callText text).utf8ByteSize ≤ text.utf8ByteSize + 20 := by
  have hname : helper.name.utf8ByteSize ≤ 11 := by cases helper <;> decide
  have hsize : (helper.callText text).utf8ByteSize =
      6 + 1 + helper.name.utf8ByteSize + 1 + text.utf8ByteSize + 1 := by
    simp only [Helper.callText, memberText, String.utf8ByteSize_append]
    rfl
  omega

theorem utf8ByteSize_commaSeparated_le :
    (commaSeparated args).utf8ByteSize ≤ (args.map fun arg => arg.utf8ByteSize + 2).sum := by
  induction args with
  | nil => exact Nat.le_refl 0
  | cons first rest ih =>
    cases rest with
    | nil => simp [commaSeparated]
    | cons second rest =>
      have hcomma : ", ".utf8ByteSize = 2 := rfl
      rw [commaSeparated, String.intercalate_cons_cons, String.utf8ByteSize_append,
        String.utf8ByteSize_append, hcomma, List.map_cons, List.sum_cons]
      exact Nat.add_le_add_left ih _

/-- What arguments take, each with a call around it and a comma behind it. -/
def argumentsSize (args : List String) : Nat := (args.map fun arg => arg.utf8ByteSize + 22).sum

theorem utf8ByteSize_arguments_le :
    (commaSeparated args).utf8ByteSize ≤ argumentsSize args := by
  refine Nat.le_trans (utf8ByteSize_commaSeparated_le args) (List.sum_le_sum fun arg _ => ?_)
  omega

theorem utf8ByteSize_calledArguments_le (helpers : Nat → Helper) :
    (commaSeparated (args.mapIdx fun i arg => (helpers i).callText arg)).utf8ByteSize ≤
      argumentsSize args := by
  refine Nat.le_trans (utf8ByteSize_commaSeparated_le _) ?_
  induction args generalizing helpers with
  | nil => exact Nat.le_refl 0
  | cons arg rest ih =>
    have hcall := utf8ByteSize_helperCall_le (helpers 0) arg
    have hrest := ih fun i => helpers (i + 1)
    rw [List.mapIdx_cons, List.map_cons, List.sum_cons, argumentsSize, List.map_cons,
      List.sum_cons]
    rw [argumentsSize] at hrest
    omega

theorem utf8ByteSize_methodCallText_le :
    (methodCallText name args).utf8ByteSize ≤ name.utf8ByteSize + argumentsSize args + 2 := by
  have hargs := utf8ByteSize_calledArguments_le args fun i =>
    if takesObject (objectMask name) i then Helper.getJsobj else Helper.getVal
  have hsize : (methodCallText name args).utf8ByteSize = name.utf8ByteSize + 1 +
      (commaSeparated (args.mapIdx fun i arg =>
        (if takesObject (objectMask name) i then Helper.getJsobj else Helper.getVal).callText
          arg)).utf8ByteSize + 1 := by
    simp only [methodCallText, String.utf8ByteSize_append]
    rfl
  omega

theorem headD_le_argumentsSize : (args.headD "0").utf8ByteSize ≤ argumentsSize args + 1 := by
  cases args with
  | nil => decide
  | cons first rest =>
    rw [List.headD_cons, argumentsSize, List.map_cons, List.sum_cons]
    omega

/-- The longest template is that of a test for existence. -/
theorem utf8ByteSize_builtinText_le (hname : name.utf8ByteSize ≤ 12) :
    (builtinText name args).utf8ByteSize ≤ argumentsSize args + 110 := by
  have hargs := utf8ByteSize_arguments_le args
  have hfirst := headD_le_argumentsSize args
  unfold builtinText
  split
  · have hcall := utf8ByteSize_helperCall_le .translate (commaSeparated args)
    have hfront : "eval.call(this, ".utf8ByteSize = 16 := rfl
    have hback : ")".utf8ByteSize = 1 := rfl
    rw [String.utf8ByteSize_append, String.utf8ByteSize_append]
    omega
  · split
    · have hsize : (memberText name ++ "(\n(\nfunction ()\n\x7b\ntry\n\x7b\n" ++
          "return " ++ args.headD "0" ++ ";\n\x7d\n" ++
          "catch(accessExceptions)\n\x7b\nreturn 0;\n\x7d\n\x7d\n).call(this)\n)").utf8ByteSize =
          6 + 1 + name.utf8ByteSize + 24 + 7 + (args.headD "0").utf8ByteSize + 4 + 54 := by
        simp only [memberText, String.utf8ByteSize_append]
        rfl
      omega
    · have hsize : (memberText name ++ "(" ++ commaSeparated args ++ ")").utf8ByteSize =
          6 + 1 + name.utf8ByteSize + 1 + (commaSeparated args).utf8ByteSize + 1 := by
        simp only [memberText, String.utf8ByteSize_append]
        rfl
      omega

theorem utf8ByteSize_accessorText_le :
    (accessorText helper base name member index).utf8ByteSize ≤ base.utf8ByteSize +
      name.utf8ByteSize + member.utf8ByteSize + index.utf8ByteSize + 28 := by
  have hcall := utf8ByteSize_helperCall_le helper
    (base ++ ", \"" ++ name ++ "\", " ++ member ++ ", " ++ index)
  have hsize : (base ++ ", \"" ++ name ++ "\", " ++ member ++ ", " ++ index).utf8ByteSize =
      base.utf8ByteSize + 3 + name.utf8ByteSize + 3 + member.utf8ByteSize + 2 +
        index.utf8ByteSize := by
    simp only [String.utf8ByteSize_append]
    rfl
  rw [accessorText]
  omega

theorem utf8ByteSize_methodText :
    (methodText receiver call).utf8ByteSize = receiver.utf8ByteSize + call.utf8ByteSize + 95 := by
  have hsize : (methodText receiver call).utf8ByteSize =
      41 + receiver.utf8ByteSize + 33 + call.utf8ByteSize + 21 := by
    unfold methodText
    simp only [String.utf8ByteSize_append]
    rfl
  omega

end Templates

/-! ### Expressions -/

theorem size_identifier_le (name : String) (span : Span) :
    (Expr.identifier name span).text.utf8ByteSize ≤ (Expr.identifier name span).weight + 12 := by
  have hname := utf8ByteSize_referencedName_le name
  have hweight := utf8ByteSize_le_textWeight name
  rw [Expr.text, Expr.weight]
  omega

/-- A base and its name, if it is a bare one, take no more than the base may take. -/
theorem Expr.size_base_le {base : Expr} (h : base.text.utf8ByteSize + 22 ≤ 50 * base.weight) :
    base.text.utf8ByteSize + (if base.identifier?.isSome then base.text else "").utf8ByteSize + 22 ≤
      50 * base.weight := by
  cases base with
  | identifier name span =>
    have hname := size_identifier_le name span
    have hone : 1 ≤ (Expr.identifier name span).weight := one_le_textWeight name
    simp only [Expr.identifier?, Option.isSome_some, if_true]
    omega
  | null | number | string | unary | binary | assign | call | dot | element | descendant
  | method => exact h

theorem utf8ByteSize_callText_le (callee : String) (args : List String) :
    (callText false callee args).utf8ByteSize ≤ argumentsSize args + 110 := by
  have hbuiltins : ∀ name ∈ builtins.toList, name.utf8ByteSize ≤ 12 := by decide +kernel
  unfold callText
  rw [if_neg Bool.false_ne_true]
  cases hname : builtin? callee with
  | none => exact Nat.zero_le _
  | some name =>
    have hmem := Array.mem_toList_iff.mpr (builtin_spec hname).1
    exact utf8ByteSize_builtinText_le name args (hbuiltins name hmem)

theorem Member.size_quoted_le (member : Member) :
    member.quoted.utf8ByteSize ≤ member.weight + 3 := by
  cases member with
  | named name | hash name =>
    have hname := utf8ByteSize_le_textWeight name
    have hquote : "\"".utf8ByteSize = 1 := rfl
    have hhash : "\"#".utf8ByteSize = 2 := rfl
    simp only [Member.quoted, Member.weight, String.utf8ByteSize_append]
    omega
  | star | callResult => decide

mutual

theorem Expr.size_text_le : (e : Expr) → e.Shaped → e.text.utf8ByteSize + 22 ≤ 50 * e.weight
  | .null _, _ => by
    rw [Expr.text, Expr.weight]
    decide
  | .number raw _, _ => by
    have hsize := utf8ByteSize_le_textWeight raw
    have hone := one_le_textWeight raw
    rw [Expr.text, Expr.weight]
    omega
  | .string raw _, _ => by
    have hquoted := utf8ByteSize_quotedText_le raw
    have hsize := utf8ByteSize_le_textWeight raw
    have hone := one_le_textWeight raw
    rw [Expr.text, Expr.weight]
    omega
  | .identifier name span, _ => by
    have hname := size_identifier_le name span
    have hone : 1 ≤ (Expr.identifier name span).weight := one_le_textWeight name
    omega
  | .unary op operand _, h => by
    have hoperand := operand.size_text_le h
    have hcall := utf8ByteSize_helperCall_le op.helper operand.text
    rw [Expr.text, Expr.weight]
    omega
  | .binary op left right _, h => by
    have hleft := left.size_text_le h.1
    have hright := right.size_text_le h.2
    have hcall := utf8ByteSize_helperCall_le op.helper (left.text ++ ", " ++ right.text)
    have hcomma : ", ".utf8ByteSize = 2 := rfl
    rw [String.utf8ByteSize_append, String.utf8ByteSize_append] at hcall
    rw [Expr.text, Expr.weight]
    omega
  | .call callee args isMethod _, h => by
    obtain ⟨rfl, hcallee, hargs, -⟩ := h
    have hcall := utf8ByteSize_callText_le callee.text (argumentTexts args)
    have hcallee := callee.size_text_le hcallee
    have hargs := size_argumentTexts_le args hargs
    rw [Expr.text, Expr.weight]
    omega
  | .dot base member index _, h => by
    obtain ⟨hbase, hindex, hselects⟩ := h
    have hbase := Expr.size_base_le (base.size_text_le hbase)
    obtain ⟨hindex, hsome⟩ := index.size_text_le hindex
    have hmember := member.size_quoted_le
    have haccessor := utf8ByteSize_accessorText_le .dotAcc base.text
      (if base.identifier?.isSome then base.text else "") member.quoted index.text
    -- without a name there is at least an index
    have hmore : 0 < member.weight ∨ index.text.utf8ByteSize + 80 ≤ 50 * index.weight := by
      cases member with
      | named name | hash name => exact .inl (one_le_textWeight name)
      | star => exact .inl Nat.one_pos
      | callResult => exact .inr (hsome hselects.2)
    rw [Expr.text, Expr.weight]
    omega
  | .element member index _, h => by
    obtain ⟨-, hindex, hnone⟩ := h
    have hindex := (index.size_text_le hindex).2 hnone
    have hmember := member.size_quoted_le
    have haccessor := utf8ByteSize_accessorText_le .dotAcc "null" "" member.quoted index.text
    have hnull : "null".utf8ByteSize = 4 := rfl
    have hempty : "".utf8ByteSize = 0 := rfl
    rw [Expr.text, Expr.weight]
    omega
  | .descendant base name index _, h => by
    obtain ⟨hbase, -, hindex⟩ := h
    have hbase := Expr.size_base_le (base.size_text_le hbase)
    have hindex := (index.size_text_le hindex).1
    have hmember := (Member.named name).size_quoted_le
    have hone := one_le_textWeight name
    have haccessor := utf8ByteSize_accessorText_le .dotdotAcc base.text
      (if base.identifier?.isSome then base.text else "") (Member.named name).quoted index.text
    rw [Member.weight] at hmember
    rw [Member.quoted] at hmember haccessor
    rw [Expr.text, Expr.weight]
    omega
  | .method receiver call _, h => by
    have hreceiver := receiver.size_text_le h.1
    have hcall := call.size_method_le h.2
    rw [Expr.text, Expr.weight, utf8ByteSize_methodText]
    omega

/-- A call of a method leaves room for what is put around it. -/
theorem Expr.size_method_le :
    (e : Expr) → e.ShapedMethod → e.text.utf8ByteSize + 120 ≤ 50 * e.weight
  | .call callee args isMethod _, h => by
    obtain ⟨rfl, ⟨name, span, rfl, -⟩, hargs, -⟩ := h
    have hname := size_identifier_le name span
    have hone : 1 ≤ (Expr.identifier name span).weight := one_le_textWeight name
    have hargs := size_argumentTexts_le args hargs
    have hcall :=
      utf8ByteSize_methodCallText_le (Expr.identifier name span).text (argumentTexts args)
    rw [Expr.text, Expr.weight, callText, if_pos rfl]
    omega

/-- An index leaves room for the accessor around it. -/
theorem Index.size_text_le : (index : Index) → index.Shaped →
    index.text.utf8ByteSize ≤ 50 * index.weight + 4 ∧
      (index.isNone = false → index.text.utf8ByteSize + 80 ≤ 50 * index.weight)
  | .none, _ => by decide
  | .star, _ => by decide
  | .entry mode expr, h => by
    have hexpr := expr.size_text_le h
    have hdigit : mode.digit.utf8ByteSize = 1 := by cases mode <;> rfl
    have hcomma : ", ".utf8ByteSize = 2 := rfl
    rw [Index.text, Index.weight, String.utf8ByteSize_append, String.utf8ByteSize_append]
    omega

theorem size_argumentTexts_le : (args : List Expr) → ShapedArguments args →
    argumentsSize (argumentTexts args) ≤ 50 * argumentsWeight args
  | [], _ => Nat.le_refl 0
  | arg :: rest, h => by
    have harg := arg.size_text_le h.1
    have hrest := size_argumentTexts_le rest h.2
    rw [argumentTexts, argumentsWeight, argumentsSize, List.map_cons, List.sum_cons]
    rw [argumentsSize] at hrest
    omega

end

/-! ### Statements -/

theorem Expr.size_valueText_le (e : Expr) : e.valueText.utf8ByteSize ≤ e.text.utf8ByteSize + 20 :=
  utf8ByteSize_helperCall_le .getVal e.text

theorem utf8ByteSize_keptText_le (keep : Bool) : (keptText keep).utf8ByteSize ≤ 10 := by
  cases keep <;> decide

theorem utf8ByteSize_resetText_le (keep : Bool) : (resetText keep).utf8ByteSize ≤ 13 := by
  cases keep <;> decide

section Templates

variable (keep : Bool) (target value name var start stop step body : String) (args : List String)

/-- What is assigned to is repeated four times only where it is a variable. -/
theorem utf8ByteSize_assignmentText_le (isVariable : Bool) :
    (assignmentText keep isVariable target value).utf8ByteSize ≤
      if isVariable then 4 * target.utf8ByteSize + 2 * value.utf8ByteSize + 110
      else 2 * target.utf8ByteSize + value.utf8ByteSize + 64 := by
  have hkept := utf8ByteSize_keptText_le keep
  have htest := utf8ByteSize_helperCall_le .isObj target
  have hassign := utf8ByteSize_helperCall_le .asgnValOp (commaSeparated [target, value])
  have hargs : (commaSeparated [target, value]).utf8ByteSize =
      target.utf8ByteSize + 2 + value.utf8ByteSize := by
    simp only [commaSeparated, String.intercalate_cons_cons, String.intercalate_singleton,
      String.utf8ByteSize_append]
    rfl
  have hfront : ("if (" ++ Helper.isObj.callText target ++ ")\n\x7b\n" ++ keptText keep ++
      Helper.asgnValOp.callText (commaSeparated [target, value]) ++ ";\n\x7d\n").utf8ByteSize =
      4 + (Helper.isObj.callText target).utf8ByteSize + 4 + (keptText keep).utf8ByteSize +
        (Helper.asgnValOp.callText (commaSeparated [target, value])).utf8ByteSize + 4 := by
    simp only [String.utf8ByteSize_append]
    rfl
  have helse : ("else\n\x7b\n" ++ keptText keep ++ target ++ " = " ++
      Helper.asgnValOp.callText (commaSeparated [target, value]) ++ ";\n\x7d\n").utf8ByteSize =
      7 + (keptText keep).utf8ByteSize + target.utf8ByteSize + 3 +
        (Helper.asgnValOp.callText (commaSeparated [target, value])).utf8ByteSize + 4 := by
    simp only [String.utf8ByteSize_append]
    rfl
  have hempty : "".utf8ByteSize = 0 := rfl
  unfold assignmentText
  rw [String.utf8ByteSize_append, hfront]
  cases isVariable with
  | false =>
    rw [Bool.false_and, if_neg Bool.false_ne_true, if_neg Bool.false_ne_true]
    omega
  | true =>
    rw [Bool.true_and, if_pos rfl]
    split <;> omega

theorem utf8ByteSize_varText_le (init : Option String) :
    (varText keep name init).utf8ByteSize ≤
      4 * name.utf8ByteSize + (init.getD "").utf8ByteSize + 60 := by
  have hfilter := utf8ByteSize_helperCall_le .varFilter name
  have hfront : ("var " ++ name ++ " = ").utf8ByteSize = 4 + name.utf8ByteSize + 3 := by
    simp only [String.utf8ByteSize_append]
    rfl
  have hback : (if keep then "pfm_ret = " ++ name ++ ";\n" else "").utf8ByteSize ≤
      10 + name.utf8ByteSize + 2 := by
    cases keep with
    | false => exact Nat.zero_le _
    | true =>
      simp only [if_true, String.utf8ByteSize_append]
      exact Nat.le_refl _
  unfold varText
  rw [String.utf8ByteSize_append, String.utf8ByteSize_append, hfront]
  cases init with
  | none =>
    have hempty : "\"\";\n".utf8ByteSize = 4 := rfl
    dsimp only
    omega
  | some value =>
    have hvalue : (value ++ ";\n" ++ name ++ " = " ++ Helper.varFilter.callText name ++
        ";\n").utf8ByteSize = value.utf8ByteSize + 2 + name.utf8ByteSize + 3 +
          (Helper.varFilter.callText name).utf8ByteSize + 2 := by
      simp only [String.utf8ByteSize_append]
      rfl
    dsimp only
    rw [Option.getD_some]
    omega

theorem utf8ByteSize_functionText_le :
    (functionText name args body).utf8ByteSize ≤
      name.utf8ByteSize + argumentsSize args + body.utf8ByteSize + 60 := by
  have hargs := utf8ByteSize_arguments_le args
  have hsize : (functionText name args body).utf8ByteSize = 9 + name.utf8ByteSize + 1 +
      (commaSeparated args).utf8ByteSize + 24 + body.utf8ByteSize + 18 := by
    unfold functionText
    simp only [String.utf8ByteSize_append]
    rfl
  omega

theorem utf8ByteSize_countText_le (direction : Direction) :
    (countText var start stop direction step body).utf8ByteSize ≤ 4 * var.utf8ByteSize +
      start.utf8ByteSize + stop.utf8ByteSize + step.utf8ByteSize + body.utf8ByteSize + 60 := by
  have hsigns : direction.signs.1.utf8ByteSize = 4 ∧ direction.signs.2.utf8ByteSize = 4 := by
    cases direction <;> decide
  have hsize : (countText var start stop direction step body).utf8ByteSize =
      6 + var.utf8ByteSize + 14 + var.utf8ByteSize + 3 + start.utf8ByteSize + 2 +
        var.utf8ByteSize + direction.signs.1.utf8ByteSize + stop.utf8ByteSize + 2 +
        var.utf8ByteSize + direction.signs.2.utf8ByteSize + step.utf8ByteSize + 2 +
        body.utf8ByteSize + 2 := by
    unfold countText
    simp only [String.utf8ByteSize_append]
    rfl
  omega

theorem utf8ByteSize_eachText_le :
    (eachText var args body).utf8ByteSize ≤
      2 * var.utf8ByteSize + argumentsSize args + body.utf8ByteSize + 160 := by
  have hargs := utf8ByteSize_arguments_le args
  have hcall := utf8ByteSize_helperCall_le .concatObj (commaSeparated args)
  have hsize : (eachText var args body).utf8ByteSize = 6 + var.utf8ByteSize + 23 +
      (Helper.concatObj.callText (commaSeparated args)).utf8ByteSize + 61 + var.utf8ByteSize + 27 +
      body.utf8ByteSize + 4 := by
    unfold eachText
    simp only [String.utf8ByteSize_append]
    rfl
  omega

end Templates

/-- Names of parameters, with what stands around them. -/
theorem size_declaredNames_le (params : List String) :
    argumentsSize (params.map declaredName) ≤ 100 * (params.map textWeight).sum := by
  induction params with
  | nil => exact Nat.le_refl 0
  | cons param params ih =>
    have hparam := utf8ByteSize_declaredName_le param
    have hweight := utf8ByteSize_le_textWeight param
    have hone := one_le_textWeight param
    rw [argumentsSize] at *
    simp only [List.map_cons, List.sum_cons]
    omega

theorem size_optionalText_le (part : Option Expr) (h : ShapedOptional part) :
    ((part.map Expr.text).getD "").utf8ByteSize ≤ 50 * optionalWeight part := by
  cases part with
  | none => exact Nat.le_refl 0
  | some e =>
    have hexpr := e.size_text_le h
    rw [Option.map_some, Option.getD_some, optionalWeight]
    omega

theorem size_stepText_le (step : Option Expr) (h : ShapedOptional step) :
    ((step.map Expr.valueText).getD "1").utf8ByteSize ≤ 50 * optionalWeight step + 1 := by
  cases step with
  | none => exact Nat.le_refl 1
  | some e =>
    have hexpr := e.size_text_le h
    have hvalue := e.size_valueText_le
    rw [Option.map_some, Option.getD_some, optionalWeight]
    omega

theorem Expr.size_conditionText_le (keyword : String) (cond : Expr) :
    (cond.conditionText keyword).utf8ByteSize ≤
      keyword.utf8ByteSize + cond.text.utf8ByteSize + 24 := by
  have hvalue := cond.size_valueText_le
  have hsize : (cond.conditionText keyword).utf8ByteSize =
      keyword.utf8ByteSize + 2 + cond.valueText.utf8ByteSize + 2 := by
    unfold Expr.conditionText
    simp only [String.utf8ByteSize_append]
    rfl
  omega

/-- **An assignment doubles at most what is not a name.** -/
theorem size_assignment_le (keep : Bool) {target value : Expr} (htarget : target.Shaped)
    (hvalue : value.Shaped) :
    (assignmentText keep target.identifier?.isSome target.text value.text).utf8ByteSize ≤
      100 * (target.weight + 1 + value.weight) := by
  have hsize := utf8ByteSize_assignmentText_le keep target.text value.text target.identifier?.isSome
  have htarget := target.size_text_le htarget
  have hvalue := value.size_text_le hvalue
  cases hname : target.identifier?.isSome with
  | false =>
    rw [hname, if_neg Bool.false_ne_true] at hsize
    omega
  | true =>
    rw [hname, if_pos rfl] at hsize
    have hidentifier : target.text.utf8ByteSize ≤ target.weight + 12 := by
      cases target with
      | identifier name span => exact size_identifier_le name span
      | null | number | string | unary | binary | assign | call | dot | element | descendant
      | method => cases hname
    omega

/-- An expression that is no assignment, in the place of a statement. -/
theorem size_keptText_le (keep : Bool) {e : Expr} (h : e.Shaped) :
    (keptText keep ++ (if keep && e.isAccessor then e.valueText else e.text) ++
      ";\n").utf8ByteSize ≤ 100 * e.weight := by
  have hexpr := e.size_text_le h
  have hvalue := e.size_valueText_le
  have hkept := utf8ByteSize_keptText_le keep
  have hend : ";\n".utf8ByteSize = 2 := rfl
  rw [String.utf8ByteSize_append, String.utf8ByteSize_append]
  split <;> omega

theorem Expr.size_statementText_le (keep : Bool) (e : Expr) (h : e.ShapedStatement) :
    (e.statementText keep).utf8ByteSize ≤ 100 * e.weight := by
  cases e with
  | assign target value span => exact size_assignment_le keep h.1 h.2
  | null | number | string | identifier | unary | binary | call | dot | element | descendant
  | method => exact size_keptText_le keep h

mutual

theorem Stmt.size_text_le : (stmt : Stmt) → stmt.Shaped → (keep : Bool) →
    (stmt.text keep).utf8ByteSize ≤ 100 * stmt.weight
  | .function name params body _, h, _ => by
    obtain ⟨-, -, hbody, -⟩ := h
    have hname := utf8ByteSize_declaredName_le name
    have hweight := utf8ByteSize_le_textWeight name
    have hparams := size_declaredNames_le params
    have hbody := size_stmtsText_le body hbody true
    have hsize := utf8ByteSize_functionText_le (declaredName name) (stmtsText true body)
      (params.map declaredName)
    rw [Stmt.text, Stmt.weight]
    omega
  | .var name init _, h, keep => by
    have hname := utf8ByteSize_declaredName_le name
    have hweight := utf8ByteSize_le_textWeight name
    have hinit := size_optionalText_le init h.2
    have hsize := utf8ByteSize_varText_le keep (declaredName name) (init.map Expr.text)
    rw [Stmt.text, Stmt.weight]
    omega
  | .expr expr _, h, keep => expr.size_statementText_le keep h
  | .scope body _, h, keep => by
    have hbody := body.size_text_le h keep
    rw [Stmt.text, Stmt.weight]
    omega
  | .branch cond body otherwise _, h, keep => by
    obtain ⟨hcond, hbody, hrest⟩ := h
    have hcond := cond.size_text_le hcond
    have hvalue := cond.size_conditionText_le "if"
    have hbody := body.size_text_le hbody keep
    have hrest := otherwise.size_text_le hrest keep
    have hreset := utf8ByteSize_resetText_le keep
    have hif : "if".utf8ByteSize = 2 := rfl
    rw [Stmt.text, Stmt.weight, String.utf8ByteSize_append, String.utf8ByteSize_append,
      String.utf8ByteSize_append]
    omega
  | .loop cond body _, h, keep => by
    have hcond := cond.size_text_le h.1
    have hbody := body.size_text_le h.2 keep
    have hreset := utf8ByteSize_resetText_le keep
    have hsize : (resetText keep ++ "while (" ++ cond.text ++ ")\n" ++
        body.text keep).utf8ByteSize = (resetText keep).utf8ByteSize + 7 +
          cond.text.utf8ByteSize + 2 + (body.text keep).utf8ByteSize := by
      simp only [String.utf8ByteSize_append]
      rfl
    rw [Stmt.text, Stmt.weight]
    omega
  | .count var start stop direction step body _, h, keep => by
    obtain ⟨-, hstart, hstop, hstep, hbody⟩ := h
    have hvar := utf8ByteSize_declaredName_le var
    have hweight := utf8ByteSize_le_textWeight var
    have hstart := start.size_text_le hstart
    have hstop := stop.size_text_le hstop
    have hstep := size_stepText_le step hstep
    have hbody := body.size_text_le hbody keep
    have hvalues := And.intro start.size_valueText_le stop.size_valueText_le
    have hreset := utf8ByteSize_resetText_le keep
    have hsize := utf8ByteSize_countText_le (declaredName var) start.valueText stop.valueText
      ((step.map Expr.valueText).getD "1") (body.text keep) direction
    rw [Stmt.text, Stmt.weight, String.utf8ByteSize_append]
    omega
  | .each var collections body _, h, keep => by
    obtain ⟨-, -, hcollections, -, hbody⟩ := h
    have hvar := utf8ByteSize_declaredName_le var
    have hweight := utf8ByteSize_le_textWeight var
    have hcollections := size_argumentTexts_le collections hcollections
    have hbody := body.size_text_le hbody keep
    have hreset := utf8ByteSize_resetText_le keep
    have hsize := utf8ByteSize_eachText_le (declaredName var) (body.text keep)
      (argumentTexts collections)
    rw [Stmt.text, Stmt.weight, String.utf8ByteSize_append]
    omega
  | .leave _, _, _ | .skip _, _, _ => by
    rw [Stmt.text, Stmt.weight]
    decide

theorem Block.size_text_le : (body : Block) → body.Shaped → (keep : Bool) →
    (body.text keep).utf8ByteSize ≤ 100 * body.weight + 4
  | .mk stmts _, h, keep => by
    have hstmts := size_stmtsText_le stmts h.1 keep
    have hsize : ("\x7b\n" ++ stmtsText keep stmts ++ "\x7d\n").utf8ByteSize =
        2 + (stmtsText keep stmts).utf8ByteSize + 2 := by
      simp only [String.utf8ByteSize_append]
      rfl
    rw [Block.text, Block.weight]
    omega

theorem Otherwise.size_text_le : (rest : Otherwise) → rest.Shaped → (keep : Bool) →
    (rest.text keep).utf8ByteSize ≤ 100 * rest.weight
  | .nothing, _, _ => Nat.le_refl 0
  | .last body, h, keep => by
    have hbody := body.size_text_le h keep
    have helse : "else ".utf8ByteSize = 5 := rfl
    rw [Otherwise.text, Otherwise.weight, String.utf8ByteSize_append]
    omega
  | .elseIf cond body rest, h, keep => by
    obtain ⟨hcond, hbody, hrest⟩ := h
    have hcond := cond.size_text_le hcond
    have hvalue := cond.size_conditionText_le "else if"
    have hbody := body.size_text_le hbody keep
    have hrest := rest.size_text_le hrest keep
    have hif : "else if".utf8ByteSize = 7 := rfl
    rw [Otherwise.text, Otherwise.weight, String.utf8ByteSize_append, String.utf8ByteSize_append]
    omega

theorem size_stmtsText_le : (stmts : List Stmt) → ShapedStmts stmts → (keep : Bool) →
    (stmtsText keep stmts).utf8ByteSize ≤ 100 * stmtsWeight stmts
  | [], _, _ => Nat.le_refl 0
  | stmt :: rest, h, keep => by
    have hstmt := stmt.size_text_le h.1 (keep && rest.isEmpty)
    have hrest := size_stmtsText_le rest h.2 keep
    rw [stmtsText, stmtsWeight, String.utf8ByteSize_append]
    omega

end

end FormCalc
