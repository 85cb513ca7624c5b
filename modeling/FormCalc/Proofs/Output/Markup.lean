import FormCalc.Proofs.Output.Rendering

/-!
# The text of a script with its parts marked

What a script becomes, once more, with two things kept that the plain text forgets: which
stretches of it are the text of a string literal, and which are the text of a single statement or
of a single expression.

* `Markup.text`, `Markup.codeText`: the text, and the text without that of string literals.
* `Markup.parts`: the marked text of each statement and of each expression.
* `Markup.LiteralAt`, `Markup.InLiteral`: where the text of a string literal stands, and what lies
  inside it.
* `Expr.markup`, `Stmt.markup`, `Program.markup`: the marked text of a script.

The marks change nothing: `Program.eq_text_markup` says that what is written is this text.
-/

namespace FormCalc

open Host

/-! ### Marked text -/

/-- Text with marks. -/
inductive Markup where
  | code (s : String)
  /-- The text of a string literal. -/
  | literal (s : String)
  | append (first second : Markup)
  /-- The text of one statement or of one expression. -/
  | part (body : Markup)

namespace Markup

instance : Append Markup := ⟨append⟩

/-- The text without its marks. -/
def text : Markup → String
  | code s | literal s => s
  | append first second => first.text ++ second.text
  | part body => body.text

/-- The text with that of string literals deleted. -/
def codeText : Markup → String
  | code s => s
  | literal _ => ""
  | append first second => first.codeText ++ second.codeText
  | part body => body.codeText

/-- The statements and expressions in a text, at any depth. -/
def parts : Markup → List Markup
  | code _ | literal _ => []
  | append first second => first.parts ++ second.parts
  | part body => body :: body.parts

/-- `LiteralAt m before s after`: the text of `m` is `before`, `s` and `after`, and `s` is the text
of a string literal. -/
inductive LiteralAt : Markup → (before s after : List Char) → Prop
  | literal (s : String) : LiteralAt (literal s) [] s.toList []
  | first {first before s after} (second : Markup) :
      LiteralAt first before s after →
        LiteralAt (append first second) before s (after ++ second.text.toList)
  | second {second before s after} (first : Markup) :
      LiteralAt second before s after →
        LiteralAt (append first second) (first.text.toList ++ before) s after
  | part {body before s after} : LiteralAt body before s after →
      LiteralAt (part body) before s after

theorem LiteralAt.toList_text {m : Markup} {before s after : List Char}
    (h : m.LiteralAt before s after) : m.text.toList = before ++ s ++ after := by
  induction h with
  | literal s => rw [text, List.nil_append, List.append_nil]
  | first second _ ih =>
    rw [text, String.toList_append, ih, List.append_assoc _ _ second.text.toList]
  | second first _ ih => rw [text, String.toList_append, ih, List.append_assoc, List.append_assoc,
      List.append_assoc]
  | part _ ih => exact ih

/-- Whether an occurrence of a text, between `front` and `back`, lies inside the text of one string
literal. -/
def InLiteral (m : Markup) (front occurrence back : List Char) : Prop :=
  ∃ before u v after, m.LiteralAt before (u ++ occurrence ++ v) after ∧ front = before ++ u ∧
    back = v ++ after

section Pieces

variable (first second body : Markup) (s : String)

@[simp] theorem text_code : (code s).text = s := rfl

@[simp] theorem text_append : (first ++ second).text = first.text ++ second.text := rfl

@[simp] theorem text_part : (part body).text = body.text := rfl

@[simp] theorem text_ite (c : Prop) [Decidable c] :
    (if c then first else second).text = if c then first.text else second.text := by
  split <;> rfl

end Pieces

/-- Marked texts with commas between them. -/
def commaSeparated : List Markup → Markup
  | [] => code ""
  | [only] => only
  | first :: second :: rest => first ++ code ", " ++ commaSeparated (second :: rest)

@[simp] theorem text_commaSeparated (args : List Markup) :
    (commaSeparated args).text = FormCalc.commaSeparated (args.map text) := by
  induction args with
  | nil => rfl
  | cons first rest ih =>
    cases rest with
    | nil => simp [commaSeparated, FormCalc.commaSeparated]
    | cons second rest =>
      rw [commaSeparated, text_append, text_append, text_code, ih]
      simp [FormCalc.commaSeparated, String.append_assoc]

end Markup

open Markup

/-! ### Expressions -/

/-- A call of a helper. -/
def Host.Helper.callMarkup (helper : Helper) (args : Markup) : Markup :=
  code (memberText helper.name ++ "(") ++ args ++ code ")"

/-- What stands in front of a value that is the result. -/
def keptMarkup (keep : Bool) : Markup := code (keptText keep)

/-- An assignment of one text to another. -/
def assignedMarkup (target value : Markup) : Markup :=
  Helper.asgnValOp.callMarkup (Markup.commaSeparated [target, value])

/-- `target = value`. -/
def assignmentMarkup (keep isVariable : Bool) (target value : Markup) : Markup :=
  code "if (" ++ Helper.isObj.callMarkup target ++ code ")\n\x7b\n" ++
    keptMarkup keep ++ assignedMarkup target value ++ code ";\n\x7d\n" ++
    if isVariable && target.text != "this" then
      code "else\n\x7b\n" ++ keptMarkup keep ++ target ++ code " = " ++
        assignedMarkup target value ++ code ";\n\x7d\n"
    else code ""

/-- An argument of a method, read as a value or taken as an object. -/
def methodArgumentMarkup (mask i : Nat) (arg : Markup) : Markup :=
  (if takesObject mask i then Helper.getJsobj else Helper.getVal).callMarkup arg

/-- A call of a method. -/
def methodCallMarkup (name : Markup) (args : List Markup) : Markup :=
  name ++ code "(" ++
    Markup.commaSeparated (args.mapIdx (methodArgumentMarkup (objectMask name.text))) ++ code ")"

/-- A call of the built-in function of this spelling. -/
def builtinMarkup (name : String) (args : List Markup) : Markup :=
  if name = "Eval" then
    code "eval.call(this, " ++ Helper.translate.callMarkup (Markup.commaSeparated args) ++ code ")"
  else if name = "Exists" then
    code (memberText name ++ "(") ++ code "\n(\nfunction ()\n\x7b\ntry\n\x7b\nreturn " ++
      args.headD (code "0") ++ code
        ";\n\x7d\ncatch(accessExceptions)\n\x7b\nreturn 0;\n\x7d\n\x7d\n).call(this)\n)"
  else code (memberText name ++ "(") ++ Markup.commaSeparated args ++ code ")"

/-- A call of whatever the text of the callee names. -/
def callMarkup (isMethod : Bool) (callee : Markup) (args : List Markup) : Markup :=
  if isMethod then methodCallMarkup callee args
  else match builtin? callee.text with
    | some name => builtinMarkup name args
    | none => code ""

/-- An accessor with its base, the name of the base if it is a bare one, what it selects and
its index. -/
def accessorMarkup (helper : Helper) (base name : Markup) (member : String) (index : Markup) :
    Markup :=
  helper.callMarkup
    (base ++ code ", \"" ++ name ++ code "\", " ++ code member ++ code ", " ++ index)

/-- A method call on an object, or on each of several. -/
def methodMarkup (receiver call : Markup) : Markup :=
  code "(function() \x7b\n  return pfm_method_runner(" ++ receiver ++
    code ", function(obj) \x7b\n    return obj." ++ call ++
    code ";\n  \x7d);\n\x7d).call(this)"

mutual

/-- The marked text of an expression. -/
def Expr.markup : Expr → Markup
  | .null _ => part (code "null")
  | .number raw _ => part (code raw)
  | .string raw _ => part (literal (quotedText raw))
  | .identifier name _ => part (code (referencedName name))
  | .unary op operand _ => part (op.helper.callMarkup operand.markup)
  | .binary op left right _ =>
    part (op.helper.callMarkup (left.markup ++ code ", " ++ right.markup))
  | .assign target value _ =>
    part (assignmentMarkup false target.identifier?.isSome target.markup value.markup)
  | .call callee args isMethod _ =>
    part (callMarkup isMethod callee.markup (argumentMarkups args))
  | .dot base member index _ =>
    part (accessorMarkup .dotAcc base.markup
      (if base.identifier?.isSome then base.markup else code "") member.quoted index.markup)
  | .element member index _ =>
    part (accessorMarkup .dotAcc (code "null") (code "") member.quoted index.markup)
  | .descendant base name index _ =>
    part (accessorMarkup .dotdotAcc base.markup
      (if base.identifier?.isSome then base.markup else code "") ("\"" ++ name ++ "\"")
      index.markup)
  | .method receiver call _ => part (methodMarkup receiver.markup call.markup)

/-- The marked text of an index. -/
def Index.markup : Index → Markup
  | .none => code "0, 0"
  | .star => code "1"
  | .entry mode expr => code mode.digit ++ code ", " ++ expr.markup

/-- The marked texts of arguments. -/
def argumentMarkups : List Expr → List Markup
  | [] => []
  | arg :: rest => arg.markup :: argumentMarkups rest

end

/-! ### Statements -/

/-- An expression read as a value. -/
def Expr.valueMarkup (expr : Expr) : Markup := Helper.getVal.callMarkup expr.markup

/-- What a statement starts with that keeps a value only if something in it does. -/
def resetMarkup (keep : Bool) : Markup := code (resetText keep)

/-- A condition behind its keyword. -/
def Expr.conditionMarkup (keyword : String) (cond : Expr) : Markup :=
  code keyword ++ code " (" ++ cond.valueMarkup ++ code ")\n"

/-- The declaration of a variable. -/
def varMarkup (keep : Bool) (name : String) (init : Option Markup) : Markup :=
  code "var " ++ code name ++ code " = " ++
    (match init with
      | some value =>
        value ++ code ";\n" ++ code name ++ code " = " ++ Helper.varFilter.callMarkup (code name) ++
          code ";\n"
      | none => code "\"\";\n") ++
    if keep then code "pfm_ret = " ++ code name ++ code ";\n" else code ""

/-- An expression in the place of a statement. -/
def Expr.statementMarkup (keep : Bool) : Expr → Markup
  | .assign target value _ =>
    part (assignmentMarkup keep target.identifier?.isSome target.markup value.markup)
  | expr =>
    keptMarkup keep ++ (if keep && expr.isAccessor then expr.valueMarkup else expr.markup) ++
      code ";\n"

/-- The definition of a function. -/
def functionMarkup (name : String) (params : List String) (body : Markup) : Markup :=
  code "function " ++ code name ++ code "(" ++ Markup.commaSeparated (params.map code) ++
    code ") \x7b\nvar pfm_ret = null;\n" ++ body ++ code "return pfm_ret;\n\x7d\n"

/-- A counting loop. -/
def countMarkup (var : String) (start stop : Markup) (direction : Direction)
    (step body : Markup) : Markup :=
  code "\x7b\nvar " ++ code var ++ code " = null;\nfor (" ++ code var ++ code " = " ++ start ++
    code "; " ++ code var ++ code direction.signs.1 ++ stop ++ code "; " ++ code var ++
    code direction.signs.2 ++ step ++ code ")\n" ++ body ++ code "\x7d\n"

/-- A loop over collections. -/
def eachMarkup (var : String) (collections : List Markup) (body : Markup) : Markup :=
  code "\x7b\nvar " ++ code var ++ code " = null;\nvar pfm_ary = " ++
    Helper.concatObj.callMarkup (Markup.commaSeparated collections) ++
    code ";\nvar pfm_ary_idx = 0;\nwhile(pfm_ary_idx < pfm_ary.length)\n\x7b\n" ++ code var ++
    code " = pfm_ary[pfm_ary_idx++];\n" ++ body ++ code "\x7d\n\x7d\n"

mutual

/-- The marked text of a statement.  `keep` tells whether its value is the result. -/
def Stmt.markup (keep : Bool) : Stmt → Markup
  | .function name params body _ =>
    part (functionMarkup (declaredName name) (params.map declaredName) (stmtsMarkup true body))
  | .var name init _ => part (varMarkup keep (declaredName name) (init.map Expr.markup))
  | .expr expr _ => part (expr.statementMarkup keep)
  | .scope body _ => part (body.markup keep)
  | .branch cond body otherwise _ =>
    part (resetMarkup keep ++ cond.conditionMarkup "if" ++ body.markup keep ++
      otherwise.markup keep)
  | .loop cond body _ =>
    part (resetMarkup keep ++ code "while (" ++ cond.markup ++ code ")\n" ++ body.markup keep)
  | .count var start stop direction step body _ =>
    part (resetMarkup keep ++ countMarkup (declaredName var) start.valueMarkup stop.valueMarkup
      direction ((step.map Expr.valueMarkup).getD (code "1")) (body.markup keep))
  | .each var collections body _ =>
    part (resetMarkup keep ++ eachMarkup (declaredName var) (argumentMarkups collections)
      (body.markup keep))
  | .leave _ => part (code "pfm_ret = 0;\nbreak;\n")
  | .skip _ => part (code "pfm_ret = 0;\ncontinue;\n")

/-- The marked text of a block. -/
def Block.markup (keep : Bool) : Block → Markup
  | .mk stmts _ => code "\x7b\n" ++ stmtsMarkup keep stmts ++ code "\x7d\n"

/-- The marked text of the parts of an `if` behind its first block. -/
def Otherwise.markup (keep : Bool) : Otherwise → Markup
  | .nothing => code ""
  | .last body => code "else " ++ body.markup keep
  | .elseIf cond body rest =>
    cond.conditionMarkup "else if" ++ body.markup keep ++ rest.markup keep

/-- The marked text of statements, of which only the last may keep its value. -/
def stmtsMarkup (keep : Bool) : List Stmt → Markup
  | [] => code ""
  | stmt :: rest => stmt.markup (keep && rest.isEmpty) ++ stmtsMarkup keep rest

end

/-- The marked text of a script. -/
def Program.markup (program : Program) : Markup :=
  if program.isEmpty then code commentsOnly
  else code prologue ++ stmtsMarkup true program.stmts ++ code epilogue

/-! ### Marks change nothing -/

section Pieces

variable (first second body target value : Markup) (args : List Markup)

@[simp] theorem text_callMarkup (helper : Helper) (arg : Markup) :
    (helper.callMarkup arg).text = helper.callText arg.text := rfl

theorem text_assignmentMarkup (keep isVariable : Bool) :
    (assignmentMarkup keep isVariable target value).text =
      assignmentText keep isVariable target.text value.text := by
  simp [assignmentMarkup, assignmentText, assignedMarkup, keptMarkup, String.append_assoc]

theorem text_methodCallMarkup : (methodCallMarkup first args).text =
    methodCallText first.text (args.map Markup.text) := by
  have hargs : (args.mapIdx (methodArgumentMarkup (objectMask first.text))).map Markup.text =
      (args.map Markup.text).mapIdx fun i arg =>
        (if takesObject (objectMask first.text) i then Helper.getJsobj
          else Helper.getVal).callText arg := by
    apply List.ext_getElem?
    intro i
    rw [List.getElem?_map, List.getElem?_mapIdx, List.getElem?_mapIdx, List.getElem?_map]
    cases args[i]? with
    | none => rfl
    | some arg => rfl
  simp only [methodCallMarkup, methodCallText, text_append, text_code, text_commaSeparated, hargs]

theorem text_builtinMarkup (name : String) :
    (builtinMarkup name args).text = builtinText name (args.map Markup.text) := by
  unfold builtinMarkup builtinText
  rw [text_ite, text_ite]
  congr 1
  · simp
  · congr 1
    · have htry : "(" ++ "\n(\nfunction ()\n\x7b\ntry\n\x7b\nreturn " =
          "(\n(\nfunction ()\n\x7b\ntry\n\x7b\n" ++ "return " := rfl
      have hcatch : ";\n\x7d\ncatch(accessExceptions)\n\x7b\nreturn 0;\n\x7d\n\x7d\n).call(this)\n)" =
          ";\n\x7d\n" ++
            "catch(accessExceptions)\n\x7b\nreturn 0;\n\x7d\n\x7d\n).call(this)\n)" := rfl
      have hhead : (args.headD (code "0")).text = (args.map Markup.text).headD "0" := by
        cases args <;> rfl
      have hopen : (memberText name ++ "(") ++ "\n(\nfunction ()\n\x7b\ntry\n\x7b\nreturn " =
          memberText name ++ "(\n(\nfunction ()\n\x7b\ntry\n\x7b\n" ++ "return " := by
        rw [String.append_assoc, htry, String.append_assoc]
      rw [text_append, text_append, text_append, text_code, text_code, text_code, hopen, hhead,
        hcatch, String.append_assoc]
      simp only [String.append_assoc]
    · simp

theorem text_callMarkup_callee (isMethod : Bool) :
    (callMarkup isMethod first args).text =
      callText isMethod first.text (args.map Markup.text) := by
  cases isMethod with
  | true => exact text_methodCallMarkup first args
  | false =>
    unfold callMarkup callText
    cases builtin? first.text with
    | none => rfl
    | some name => exact text_builtinMarkup args name

theorem text_accessorMarkup (helper : Helper) (base name index : Markup) (member : String) :
    (accessorMarkup helper base name member index).text =
      accessorText helper base.text name.text member index.text := rfl

theorem text_methodMarkup (receiver call : Markup) :
    (methodMarkup receiver call).text = methodText receiver.text call.text := rfl

end Pieces

mutual

theorem Expr.text_markup : (e : Expr) → e.markup.text = e.text
  | .null _ | .number .. | .string .. | .identifier .. => rfl
  | .unary op operand _ => by
    rw [Expr.markup, Expr.text, text_part, text_callMarkup, operand.text_markup]
  | .binary op left right _ => by
    simp only [Expr.markup, Expr.text, text_part, text_callMarkup, text_append, text_code,
      left.text_markup, right.text_markup]
  | .assign target value _ => by
    rw [Expr.markup, Expr.text, text_part, text_assignmentMarkup, target.text_markup,
      value.text_markup]
  | .call callee args isMethod _ => by
    rw [Expr.markup, Expr.text, text_part, text_callMarkup_callee, callee.text_markup,
      text_argumentMarkups args]
  | .dot base member index _ => by
    rw [Expr.markup, Expr.text, text_part, text_accessorMarkup, text_ite, base.text_markup,
      index.text_markup]
    rfl
  | .element member index _ => by
    rw [Expr.markup, Expr.text, text_part, text_accessorMarkup, index.text_markup]
    rfl
  | .descendant base name index _ => by
    rw [Expr.markup, Expr.text, text_part, text_accessorMarkup, text_ite, base.text_markup,
      index.text_markup]
    rfl
  | .method receiver call _ => by
    rw [Expr.markup, Expr.text, text_part, text_methodMarkup, receiver.text_markup,
      call.text_markup]

theorem Index.text_markup : (index : Index) → index.markup.text = index.text
  | .none | .star => rfl
  | .entry mode expr => by
    rw [Index.markup, Index.text, text_append, text_append, expr.text_markup, text_code, text_code]

theorem text_argumentMarkups : (args : List Expr) →
    (argumentMarkups args).map Markup.text = argumentTexts args
  | [] => rfl
  | arg :: rest => by
    rw [argumentMarkups, List.map_cons, arg.text_markup, text_argumentMarkups rest, argumentTexts]

end

theorem Expr.text_valueMarkup (e : Expr) : e.valueMarkup.text = e.valueText := by
  rw [Expr.valueMarkup, text_callMarkup, e.text_markup, Expr.valueText]

theorem Expr.text_conditionMarkup (keyword : String) (e : Expr) :
    (e.conditionMarkup keyword).text = e.conditionText keyword := by
  rw [Expr.conditionMarkup, text_append, text_append, text_append, e.text_valueMarkup,
    Expr.conditionText]
  rfl

theorem text_varMarkup (keep : Bool) (name : String) (init : Option Expr) :
    (varMarkup keep name (init.map Expr.markup)).text = varText keep name (init.map Expr.text) := by
  unfold varMarkup varText
  cases init with
  | none => simp [String.append_assoc]
  | some value => simp [value.text_markup, String.append_assoc]

theorem Expr.text_statementMarkup (keep : Bool) (e : Expr) :
    (e.statementMarkup keep).text = e.statementText keep := by
  unfold Expr.statementMarkup Expr.statementText
  split
  · rw [text_part, text_assignmentMarkup, Expr.text_markup, Expr.text_markup]
  · simp only [text_append, text_ite, e.text_valueMarkup, e.text_markup, keptMarkup, text_code]

theorem text_functionMarkup (name : String) (params : List String) (body : Markup) :
    (functionMarkup name params body).text = functionText name params body.text := by
  have hparams : commaSeparated params = (Markup.commaSeparated (params.map code)).text := by
    rw [text_commaSeparated, List.map_map]
    exact congrArg commaSeparated (List.map_id params).symm
  unfold functionText
  rewrite [hparams]
  rfl

theorem text_countMarkup (var : String) (start stop : Markup) (direction : Direction)
    (step body : Markup) : (countMarkup var start stop direction step body).text =
      countText var start.text stop.text direction step.text body.text := rfl

theorem text_stepMarkup (step : Option Expr) :
    ((step.map Expr.valueMarkup).getD (code "1")).text = (step.map Expr.valueText).getD "1" := by
  cases step with
  | none => rfl
  | some step => exact step.text_valueMarkup

theorem text_eachMarkup (var : String) (collections : List Expr) (body : Markup) :
    (eachMarkup var (argumentMarkups collections) body).text =
      eachText var (argumentTexts collections) body.text := by
  have hcollections : commaSeparated (argumentTexts collections) =
      (Markup.commaSeparated (argumentMarkups collections)).text := by
    rw [text_commaSeparated, text_argumentMarkups]
  unfold eachText
  rewrite [hcollections]
  rfl

mutual

theorem Stmt.text_markup : (stmt : Stmt) → (keep : Bool) →
    (stmt.markup keep).text = stmt.text keep
  | .function name params body _, keep => by
    rw [Stmt.markup, Stmt.text, text_part, text_functionMarkup, text_stmtsMarkup body]
  | .var name init _, keep => by
    rw [Stmt.markup, Stmt.text, text_part, text_varMarkup]
  | .expr expr _, keep => by
    rw [Stmt.markup, Stmt.text, text_part, expr.text_statementMarkup]
  | .scope body _, keep => by
    rw [Stmt.markup, Stmt.text, text_part, body.text_markup]
  | .branch cond body otherwise _, keep => by
    simp only [Stmt.markup, Stmt.text, text_part, text_append, resetMarkup, text_code,
      cond.text_conditionMarkup, body.text_markup, otherwise.text_markup]
  | .loop cond body _, keep => by
    simp only [Stmt.markup, Stmt.text, text_part, text_append, resetMarkup, text_code,
      cond.text_markup, body.text_markup]
  | .count var start stop direction step body _, keep => by
    simp only [Stmt.markup, Stmt.text, text_part, text_append, resetMarkup, text_code,
      text_countMarkup, Expr.text_valueMarkup, text_stepMarkup, body.text_markup]
  | .each var collections body _, keep => by
    simp only [Stmt.markup, Stmt.text, text_part, text_append, resetMarkup, text_code,
      text_eachMarkup, body.text_markup]
  | .leave _, _ | .skip _, _ => rfl

theorem Block.text_markup : (body : Block) → (keep : Bool) →
    (body.markup keep).text = body.text keep
  | .mk stmts _, keep => by
    simp only [Block.markup, Block.text, text_append, text_code, text_stmtsMarkup stmts]

theorem Otherwise.text_markup : (rest : Otherwise) → (keep : Bool) →
    (rest.markup keep).text = rest.text keep
  | .nothing, _ => rfl
  | .last body, keep => by
    simp only [Otherwise.markup, Otherwise.text, text_append, text_code, body.text_markup]
  | .elseIf cond body rest, keep => by
    simp only [Otherwise.markup, Otherwise.text, text_append, cond.text_conditionMarkup,
      body.text_markup, rest.text_markup]

theorem text_stmtsMarkup : (stmts : List Stmt) → (keep : Bool) →
    (stmtsMarkup keep stmts).text = stmtsText keep stmts
  | [], _ => rfl
  | stmt :: rest, keep => by
    rw [stmtsMarkup, stmtsText, text_append, stmt.text_markup, text_stmtsMarkup rest]

end

/-- **What is written is the marked text of the script.** -/
theorem Program.eq_text_markup {program : Program} {limits : OutputLimits} {js : String}
    (h : program.write limits = .ok js) : js = program.markup.text := by
  unfold Program.markup
  by_cases hempty : program.isEmpty = true
  · rw [Program.write, if_pos hempty] at h
    rw [if_pos hempty]
    exact (Except.ok.inj h).symm
  · have hstmts : program.stmts ≠ [] := by
      intro hnil
      exact hempty (List.isEmpty_iff.mpr hnil)
    rw [if_neg hempty, (Program.text_of_write hstmts h).1, Program.text, text_append, text_append,
      text_stmtsMarkup]
    rfl

end FormCalc
