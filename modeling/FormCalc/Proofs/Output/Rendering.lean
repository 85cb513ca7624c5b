import FormCalc.Output.JavaScript
import FormCalc.Proofs.Output.Plain
import FormCalc.Proofs.Tree.Bare

/-!
# The text of a script

What a script becomes, as a function on trees: the text of each part is put together from the
texts of its parts.  There is no writer here, no level and no stack, and spans play no part.

* `Expr.text`, `Stmt.text`, `Program.text`: the text.
* `Expr.Resolved`, `Stmt.Resolved`: every call that the text shows is one of a method or of a
  built-in function.

A writer that follows the draft of a script writes this text, whatever its limits are, and it
can do so if every call is resolved (`write_refines_text`).
-/

namespace FormCalc

open Host

/-! ### Expressions -/

/-- A call of a helper. -/
def Host.Helper.callText (helper : Helper) (args : String) : String :=
  memberText helper.name ++ "(" ++ args ++ ")"

/-- Arguments with commas between them. -/
def commaSeparated (args : List String) : String := ", ".intercalate args

/-- What stands in front of a value that is the result. -/
def keptText (keep : Bool) : String := if keep then "pfm_ret = " else ""

/-- `target = value`. -/
def assignmentText (keep isVariable : Bool) (target value : String) : String :=
  let assigned := Helper.asgnValOp.callText (commaSeparated [target, value])
  "if (" ++ Helper.isObj.callText target ++ ")\n\x7b\n" ++ keptText keep ++ assigned ++
    ";\n\x7d\n" ++
    if isVariable && target != "this" then
      "else\n\x7b\n" ++ keptText keep ++ target ++ " = " ++ assigned ++ ";\n\x7d\n"
    else ""

/-- A call of the method of this name: the mask of the name tells which arguments are taken as
objects. -/
def methodCallText (name : String) (args : List String) : String :=
  let mask := objectMask name
  let read (i : Nat) (arg : String) : String :=
    (if takesObject mask i then Helper.getJsobj else Helper.getVal).callText arg
  name ++ "(" ++ commaSeparated (args.mapIdx read) ++ ")"

/-- A call of the built-in function of this spelling. -/
def builtinText (name : String) (args : List String) : String :=
  if name = "Eval" then
    "eval.call(this, " ++ Helper.translate.callText (commaSeparated args) ++ ")"
  else if name = "Exists" then
    memberText name ++ "(\n(\nfunction ()\n\x7b\ntry\n\x7b\n" ++
      "return " ++ args.headD "0" ++ ";\n\x7d\n" ++
      "catch(accessExceptions)\n\x7b\nreturn 0;\n\x7d\n\x7d\n).call(this)\n)"
  else memberText name ++ "(" ++ commaSeparated args ++ ")"

/-- A call of whatever the text of the callee names.  What is unknown has no text. -/
def callText (isMethod : Bool) (callee : String) (args : List String) : String :=
  if isMethod then methodCallText callee args
  else match builtin? callee with
    | some name => builtinText name args
    | none => ""

/-- An accessor with its base, the name of the base if it is a bare one, what it selects and
its index. -/
def accessorText (helper : Helper) (base name member index : String) : String :=
  helper.callText (base ++ ", \"" ++ name ++ "\", " ++ member ++ ", " ++ index)

/-- A method call on an object, or on each of several. -/
def methodText (receiver call : String) : String :=
  "(function() \x7b\n  return pfm_method_runner(" ++ receiver ++
    ", function(obj) \x7b\n    return obj." ++ call ++ ";\n  \x7d);\n\x7d).call(this)"

mutual

/-- The text of an expression. -/
def Expr.text : Expr → String
  | .null _ => "null"
  | .number raw _ => raw
  | .string raw _ => quotedText raw
  | .identifier name _ => referencedName name
  | .unary op operand _ => op.helper.callText operand.text
  | .binary op left right _ => op.helper.callText (left.text ++ ", " ++ right.text)
  | .assign target value _ =>
    assignmentText false target.identifier?.isSome target.text value.text
  | .call callee args isMethod _ => callText isMethod callee.text (argumentTexts args)
  | .dot base member index _ =>
    accessorText .dotAcc base.text (if base.identifier?.isSome then base.text else "")
      member.quoted index.text
  | .element member index _ => accessorText .dotAcc "null" "" member.quoted index.text
  | .descendant base name index _ =>
    accessorText .dotdotAcc base.text (if base.identifier?.isSome then base.text else "")
      ("\"" ++ name ++ "\"") index.text
  | .method receiver call _ => methodText receiver.text call.text

/-- The text of an index. -/
def Index.text : Index → String
  | .none => "0, 0"
  | .star => "1"
  | .entry mode expr => mode.digit ++ ", " ++ expr.text

/-- The texts of arguments. -/
def argumentTexts : List Expr → List String
  | [] => []
  | arg :: rest => arg.text :: argumentTexts rest

end

/-! ### Statements -/

/-- An expression read as a value. -/
def Expr.valueText (expr : Expr) : String := Helper.getVal.callText expr.text

/-- What a statement starts with that keeps a value only if something in it does. -/
def resetText (keep : Bool) : String := if keep then "pfm_ret = 0;\n" else ""

/-- A condition behind its keyword. -/
def Expr.conditionText (keyword : String) (cond : Expr) : String :=
  keyword ++ " (" ++ cond.valueText ++ ")\n"

/-- The declaration of a variable.  Only a value is filtered, not the lack of one. -/
def varText (keep : Bool) (name : String) (init : Option String) : String :=
  "var " ++ name ++ " = " ++
    (match init with
      | some value =>
        value ++ ";\n" ++ name ++ " = " ++ Helper.varFilter.callText name ++ ";\n"
      | none => "\"\";\n") ++
    if keep then "pfm_ret = " ++ name ++ ";\n" else ""

/-- An expression in the place of a statement. -/
def Expr.statementText (keep : Bool) : Expr → String
  | .assign target value _ =>
    assignmentText keep target.identifier?.isSome target.text value.text
  | expr =>
    keptText keep ++ (if keep && expr.isAccessor then expr.valueText else expr.text) ++ ";\n"

/-- The definition of a function, which returns the value of its last statement. -/
def functionText (name : String) (params : List String) (body : String) : String :=
  "function " ++ name ++ "(" ++ commaSeparated params ++ ") \x7b\nvar pfm_ret = null;\n" ++ body ++
    "return pfm_ret;\n\x7d\n"

/-- How a loop compares and moves its variable. -/
def Direction.signs : Direction → String × String
  | .upto => (" <= ", " += ")
  | .downto => (" >= ", " -= ")

/-- A counting loop. -/
def countText (var start stop : String) (direction : Direction) (step body : String) : String :=
  "\x7b\nvar " ++ var ++ " = null;\nfor (" ++ var ++ " = " ++ start ++ "; " ++
    var ++ direction.signs.1 ++ stop ++ "; " ++ var ++ direction.signs.2 ++ step ++ ")\n" ++ body ++
    "\x7d\n"

/-- A loop over collections. -/
def eachText (var : String) (collections : List String) (body : String) : String :=
  "\x7b\nvar " ++ var ++ " = null;\nvar pfm_ary = " ++
    Helper.concatObj.callText (commaSeparated collections) ++
    ";\nvar pfm_ary_idx = 0;\nwhile(pfm_ary_idx < pfm_ary.length)\n\x7b\n" ++ var ++
    " = pfm_ary[pfm_ary_idx++];\n" ++ body ++ "\x7d\n\x7d\n"

mutual

/-- The text of a statement.  `keep` tells whether its value is the result. -/
def Stmt.text (keep : Bool) : Stmt → String
  | .function name params body _ =>
    functionText (declaredName name) (params.map declaredName) (stmtsText true body)
  | .var name init _ => varText keep (declaredName name) (init.map Expr.text)
  | .expr expr _ => expr.statementText keep
  | .scope body _ => body.text keep
  | .branch cond body otherwise _ =>
    resetText keep ++ cond.conditionText "if" ++ body.text keep ++ otherwise.text keep
  | .loop cond body _ => resetText keep ++ "while (" ++ cond.text ++ ")\n" ++ body.text keep
  | .count var start stop direction step body _ =>
    resetText keep ++ countText (declaredName var) start.valueText stop.valueText direction
      ((step.map Expr.valueText).getD "1") (body.text keep)
  | .each var collections body _ =>
    resetText keep ++ eachText (declaredName var) (argumentTexts collections) (body.text keep)
  | .leave _ => "pfm_ret = 0;\nbreak;\n"
  | .skip _ => "pfm_ret = 0;\ncontinue;\n"

/-- The text of a block. -/
def Block.text (keep : Bool) : Block → String
  | .mk stmts _ => "\x7b\n" ++ stmtsText keep stmts ++ "\x7d\n"

/-- The text of the parts of an `if` behind its first block. -/
def Otherwise.text (keep : Bool) : Otherwise → String
  | .nothing => ""
  | .last body => "else " ++ body.text keep
  | .elseIf cond body rest =>
    cond.conditionText "else if" ++ body.text keep ++ rest.text keep

/-- The text of statements, of which only the last may keep its value. -/
def stmtsText (keep : Bool) : List Stmt → String
  | [] => ""
  | stmt :: rest => stmt.text (keep && rest.isEmpty) ++ stmtsText keep rest

end

/-- The text of a script with at least one statement. -/
def Program.text (program : Program) : String :=
  prologue ++ stmtsText true program.stmts ++ epilogue

/-! ### Resolved calls -/

mutual

/-- Whether every call in an expression is one of a method or of a built-in function.  Of the
arguments of a test for existence only the first appears in the text. -/
def Expr.Resolved : Expr → Prop
  | .null _ | .number .. | .string .. | .identifier .. => True
  | .unary _ operand _ => operand.Resolved
  | .binary _ left right _ => left.Resolved ∧ right.Resolved
  | .assign target value _ => target.Resolved ∧ value.Resolved
  | .call callee args isMethod _ =>
    callee.Resolved ∧
      if isMethod then ResolvedArguments true args
      else match builtin? callee.text with
        | some name => ResolvedArguments (name != "Exists") args
        | none => False
  | .dot base _ index _ => base.Resolved ∧ index.Resolved
  | .element _ index _ => index.Resolved
  | .descendant base _ index _ => base.Resolved ∧ index.Resolved
  | .method receiver call _ => receiver.Resolved ∧ call.Resolved

/-- Whether every call in an index is resolved. -/
def Index.Resolved : Index → Prop
  | .none | .star => True
  | .entry _ expr => expr.Resolved

/-- Whether every call in arguments is resolved, in all of them or in the first. -/
def ResolvedArguments (all : Bool) : List Expr → Prop
  | [] => True
  | arg :: rest => arg.Resolved ∧ (all = true → ResolvedArguments all rest)

end

mutual

/-- Whether every call in a statement is resolved. -/
def Stmt.Resolved : Stmt → Prop
  | .function _ _ body _ => ResolvedStmts body
  | .var _ init _ => ∀ value ∈ init, value.Resolved
  | .expr expr _ => expr.Resolved
  | .scope body _ => body.Resolved
  | .branch cond body otherwise _ => cond.Resolved ∧ body.Resolved ∧ otherwise.Resolved
  | .loop cond body _ => cond.Resolved ∧ body.Resolved
  | .count _ start stop _ step body _ =>
    start.Resolved ∧ stop.Resolved ∧ (∀ value ∈ step, value.Resolved) ∧ body.Resolved
  | .each _ collections body _ => ResolvedArguments true collections ∧ body.Resolved
  | .leave _ | .skip _ => True

/-- Whether every call in a block is resolved. -/
def Block.Resolved : Block → Prop
  | .mk stmts _ => ResolvedStmts stmts

/-- Whether every call in the parts of an `if` behind its first block is resolved. -/
def Otherwise.Resolved : Otherwise → Prop
  | .nothing => True
  | .last body => body.Resolved
  | .elseIf cond body rest => cond.Resolved ∧ body.Resolved ∧ rest.Resolved

/-- Whether every call in statements is resolved. -/
def ResolvedStmts : List Stmt → Prop
  | [] => True
  | stmt :: rest => stmt.Resolved ∧ ResolvedStmts rest

end

/-- Whether every call in a script is resolved. -/
def Program.Resolved (program : Program) : Prop := ResolvedStmts program.stmts

/-! ### Drafts of expressions -/

section Pieces

open Draft

variable (args : List Draft)

@[simp] theorem plain_call (helper : Helper) (arg : Draft) :
    (helper.call arg).plain = helper.callText arg.plain := rfl

@[simp] theorem writable_call (helper : Helper) (arg : Draft) :
    (helper.call arg).Writable ↔ arg.Writable := by
  simp [Helper.call]

theorem plain_assignmentDraft (keep isVariable : Bool) (target value : Draft) :
    (assignmentDraft keep isVariable target value).plain =
      assignmentText keep isVariable target.plain value.plain := by
  simp [assignmentDraft, assignmentText, assignedText, commaSeparated, keptText,
    String.append_assoc]

theorem writable_assignmentDraft (keep isVariable : Bool) (target value : Draft) :
    (assignmentDraft keep isVariable target value).Writable ↔
      target.Writable ∧ value.Writable := by
  simp [assignmentDraft, assignedText]

theorem plain_methodArguments (mask i : Nat) :
    (methodArguments mask i args).map plain = (args.map plain).mapIdx fun j arg =>
      (if takesObject mask (i + j) then Helper.getJsobj else Helper.getVal).callText arg := by
  induction args generalizing i with
  | nil => rfl
  | cons arg rest ih =>
    rw [methodArguments, List.map_cons, List.map_cons, List.mapIdx_cons, ih, plain_call]
    simp only [Nat.add_zero, Nat.add_assoc, Nat.add_comm 1]

theorem writable_methodArguments (mask i : Nat) :
    (∀ d ∈ methodArguments mask i args, d.Writable) ↔ ∀ d ∈ args, d.Writable := by
  induction args generalizing i with
  | nil => rfl
  | cons arg rest ih => simp [methodArguments, ih]

theorem plain_builtinDraft (name : String) :
    (builtinDraft name args).plain = builtinText name (args.map plain) := by
  unfold builtinDraft builtinText
  by_cases heval : name = "Eval"
  · rw [if_pos heval, if_pos heval, plain_append, plain_append, plain_call, plain_separated]
    rfl
  · rw [if_neg heval, if_neg heval]
    by_cases hexists : name = "Exists"
    · rw [if_pos hexists, if_pos hexists]
      cases args with
      | nil =>
        have hnone : "return 0;\n\x7d\n" = "return " ++ "0" ++ ";\n\x7d\n" := rfl
        rw [hnone]
        simp only [plain_append, plain_text, List.map_nil, List.headD_nil, String.append_assoc]
      | cons first rest =>
        simp only [plain_append, plain_text, List.map_cons, List.headD_cons, String.append_assoc]
    · rw [if_neg hexists, if_neg hexists, plain_append, plain_append, plain_separated]
      rfl

/-- Whether some of the arguments of a call can be written: all of them, or the first. -/
def WritableArguments (all : Bool) : Prop :=
  ∀ d ∈ if all then args else args.take 1, d.Writable

theorem writableArguments_nil (all : Bool) : WritableArguments [] all := by
  cases all <;> exact nofun

theorem writableArguments_cons (arg : Draft) (all : Bool) :
    WritableArguments (arg :: args) all ↔
      arg.Writable ∧ (all = true → WritableArguments args all) := by
  cases all <;> simp [WritableArguments]

theorem writable_builtinDraft (name : String) :
    (builtinDraft name args).Writable ↔ WritableArguments args (name != "Exists") := by
  unfold builtinDraft WritableArguments
  by_cases heval : name = "Eval"
  · have hname : (name != "Exists") = true := by rw [heval]; rfl
    simp only [if_pos heval, if_pos hname, writable_append, writable_text, writable_call,
      writable_separated, true_and, and_true]
  · by_cases hexists : name = "Exists"
    · have hname : ¬(name != "Exists") = true := by rw [hexists]; decide
      cases args <;> simp [if_neg heval, if_pos hexists]
    · have hname : (name != "Exists") = true := bne_iff_ne.mpr hexists
      simp only [if_neg heval, if_neg hexists, if_pos hname, writable_append, writable_text,
        writable_separated, true_and, and_true]

theorem plain_callDraft (isMethod : Bool) (callee : Draft) (span : Span) :
    (callDraft isMethod callee span args).plain =
      callText isMethod callee.plain (args.map plain) := by
  cases isMethod with
  | true =>
    simp [callDraft, callText, methodCallText, plain_separated, plain_methodArguments,
      commaSeparated]
  | false =>
    cases hname : builtin? callee.plain with
    | none => simp [callDraft, callText, hname]
    | some name => simp [callDraft, callText, hname, plain_builtinDraft]

theorem writable_callDraft (isMethod : Bool) (callee : Draft) (span : Span) :
    (callDraft isMethod callee span args).Writable ↔ callee.Writable ∧
      if isMethod then WritableArguments args true
      else match builtin? callee.plain with
        | some name => WritableArguments args (name != "Exists")
        | none => False := by
  cases isMethod with
  | true => simp [callDraft, writable_separated, writable_methodArguments, WritableArguments]
  | false =>
    cases hname : builtin? callee.plain with
    | none => simp [callDraft, hname]
    | some name => simp [callDraft, hname, writable_builtinDraft]

theorem plain_accessorDraft (helper : Helper) (isName : Bool) (base index : Draft)
    (member : String) :
    (accessorDraft helper isName base member index).plain =
      accessorText helper base.plain (if isName then base.plain else "") member index.plain := by
  simp [accessorDraft, accessorText, String.append_assoc]

theorem writable_accessorDraft (helper : Helper) (isName : Bool) (base index : Draft)
    (member : String) :
    (accessorDraft helper isName base member index).Writable ↔ base.Writable ∧ index.Writable := by
  cases isName <;> simp [accessorDraft]

theorem plain_methodDraft (receiver call : Draft) :
    (methodDraft receiver call).plain = methodText receiver.plain call.plain := rfl

theorem writable_methodDraft (receiver call : Draft) :
    (methodDraft receiver call).Writable ↔ receiver.Writable ∧ call.Writable := by
  simp [methodDraft]

theorem plain_measured (e : Expr) (d : Draft) : (e.measured d).plain = d.plain := by
  simp [Expr.measured]

theorem writable_measured (e : Expr) (d : Draft) : (e.measured d).Writable ↔ d.Writable := by
  simp [Expr.measured]

theorem plain_operandDraft (rights : List (Option Draft)) (span : Span) (body : Draft) :
    (operandDraft rights span body).plain = body.plain ++ (closing rights).plain := by
  rw [operandDraft, plain_append, plain_node]

theorem writable_operandDraft (rights : List (Option Draft)) (span : Span) (body : Draft) :
    (operandDraft rights span body).Writable ↔ body.Writable ∧ (closing rights).Writable := by
  rw [operandDraft, writable_append, writable_node]

end Pieces

/-! ### The walk -/

mutual

/-- The walk writes an expression and closes the operators around it. -/
theorem Expr.plain_walk : (e : Expr) → (rights : List (Option Draft)) →
    (e.walk rights).plain = e.text ++ (closing rights).plain
  | .null _, _ | .number .., _ | .string .., _ | .identifier .., _ => by
    rw [Expr.walk, plain_operandDraft, Expr.text, Draft.plain_text]
  | .unary op operand span, rights => by
    have hoperand := operand.plain_walk (none :: rights)
    simp [Expr.walk, Expr.text, opening, closing, hoperand, Helper.callText, String.append_assoc]
  | .binary op left right span, rights => by
    have hright := right.plain_walk []
    have hleft := left.plain_walk (some (right.measured (right.walk [])) :: rights)
    simp [Expr.walk, Expr.text, opening, closing, hleft, hright, plain_measured, Helper.callText,
      String.append_assoc]
  | .assign target value span, rights => by
    have htarget := target.plain_walk []
    have hvalue := value.plain_walk []
    simp [Expr.walk, Expr.text, plain_operandDraft, plain_assignmentDraft, plain_measured,
      htarget, hvalue, closing]
  | .call callee args isMethod span, rights => by
    have hcallee := callee.plain_walk []
    simp [Expr.walk, Expr.text, plain_operandDraft, plain_callDraft, plain_measured, hcallee,
      plain_argumentDrafts args, closing]
  | .dot base member index span, rights => by
    have hbase := base.plain_walk []
    simp [Expr.walk, Expr.text, plain_operandDraft, plain_accessorDraft, plain_measured, hbase,
      index.plain_draft, closing]
  | .element member index span, rights => by
    simp [Expr.walk, Expr.text, plain_operandDraft, plain_accessorDraft, index.plain_draft]
  | .descendant base name index span, rights => by
    have hbase := base.plain_walk []
    simp [Expr.walk, Expr.text, plain_operandDraft, plain_accessorDraft, plain_measured, hbase,
      index.plain_draft, closing]
  | .method receiver call span, rights => by
    have hreceiver := receiver.plain_walk []
    have hcall := call.plain_walk []
    simp [Expr.walk, Expr.text, plain_operandDraft, plain_methodDraft, plain_measured, hreceiver,
      hcall, closing]

theorem Index.plain_draft : (index : Index) → index.draft.plain = index.text
  | .none | .star => rfl
  | .entry mode expr => by
    have hexpr := expr.plain_walk []
    simp [Index.draft, Index.text, plain_measured, hexpr, closing]

theorem plain_argumentDrafts : (args : List Expr) →
    (argumentDrafts args).map Draft.plain = argumentTexts args
  | [] => rfl
  | arg :: rest => by
    have harg := arg.plain_walk []
    simp [argumentDrafts, argumentTexts, plain_measured, harg, plain_argumentDrafts rest, closing]

end

mutual

/-- The walk can be written if the calls in the expression are resolved, and if what closes the
operators around it can be written. -/
theorem Expr.writable_walk : (e : Expr) → (rights : List (Option Draft)) →
    ((e.walk rights).Writable ↔ e.Resolved ∧ (closing rights).Writable)
  | .null _, _ | .number .., _ | .string .., _ | .identifier .., _ => by
    rw [Expr.walk, writable_operandDraft, Expr.Resolved]
    rfl
  | .unary op operand span, rights => by
    have hoperand := operand.writable_walk (none :: rights)
    simp [Expr.walk, Expr.Resolved, opening, closing, hoperand]
  | .binary op left right span, rights => by
    have hright := right.writable_walk []
    have hleft := left.writable_walk (some (right.measured (right.walk [])) :: rights)
    simp [Expr.walk, Expr.Resolved, opening, closing, hleft, hright, writable_measured, and_assoc]
  | .assign target value span, rights => by
    have htarget := target.writable_walk []
    have hvalue := value.writable_walk []
    simp [Expr.walk, Expr.Resolved, writable_operandDraft, writable_assignmentDraft,
      writable_measured, htarget, hvalue, closing]
  | .call callee args isMethod span, rights => by
    have hcallee := callee.writable_walk []
    have hname := callee.plain_walk []
    simp [Expr.walk, Expr.Resolved, writable_operandDraft, writable_callDraft, writable_measured,
      plain_measured, hcallee, hname, writable_argumentDrafts _ args, closing]
  | .dot base member index span, rights => by
    have hbase := base.writable_walk []
    simp [Expr.walk, Expr.Resolved, writable_operandDraft, writable_accessorDraft,
      writable_measured, hbase, index.writable_draft, closing]
  | .element member index span, rights => by
    simp [Expr.walk, Expr.Resolved, writable_operandDraft, writable_accessorDraft,
      index.writable_draft]
  | .descendant base name index span, rights => by
    have hbase := base.writable_walk []
    simp [Expr.walk, Expr.Resolved, writable_operandDraft, writable_accessorDraft,
      writable_measured, hbase, index.writable_draft, closing]
  | .method receiver call span, rights => by
    have hreceiver := receiver.writable_walk []
    have hcall := call.writable_walk []
    simp [Expr.walk, Expr.Resolved, writable_operandDraft, writable_methodDraft,
      writable_measured, hreceiver, hcall, closing]

theorem Index.writable_draft : (index : Index) → (index.draft.Writable ↔ index.Resolved)
  | .none | .star => Iff.rfl
  | .entry mode expr => by
    have hexpr := expr.writable_walk []
    simp [Index.draft, Index.Resolved, writable_measured, hexpr, closing]

theorem writable_argumentDrafts : (all : Bool) → (args : List Expr) →
    (WritableArguments (argumentDrafts args) all ↔ ResolvedArguments all args)
  | all, [] => iff_of_true (writableArguments_nil all) trivial
  | all, arg :: rest => by
    have harg := arg.writable_walk []
    have hrest := writable_argumentDrafts all rest
    simp [argumentDrafts, ResolvedArguments, writableArguments_cons, writable_measured, harg,
      hrest, closing]

end

theorem Expr.plain_draft (e : Expr) : e.draft.plain = e.text := by
  simp [Expr.draft, plain_measured, e.plain_walk, closing]

theorem Expr.writable_draft (e : Expr) : e.draft.Writable ↔ e.Resolved := by
  simp [Expr.draft, writable_measured, e.writable_walk, closing]

/-! ### Drafts of statements -/

section Pieces

open Draft

variable (keep : Bool) (body : Draft)

theorem plain_valueDraft (e : Expr) : (valueDraft e).plain = e.valueText := by
  rw [valueDraft, plain_call, e.plain_draft, Expr.valueText]

theorem writable_valueDraft (e : Expr) : (valueDraft e).Writable ↔ e.Resolved := by
  rw [valueDraft, writable_call, e.writable_draft]

theorem plain_resetDraft : (resetDraft keep).plain = resetText keep := by
  simp [resetDraft, resetText]

theorem writable_resetDraft : (resetDraft keep).Writable := by
  simp [resetDraft]

theorem plain_conditionDraft (keyword : String) (cond : Expr) :
    (conditionDraft keyword cond).plain = cond.conditionText keyword := by
  simp [conditionDraft, Expr.conditionText, plain_valueDraft]

theorem writable_conditionDraft (keyword : String) (cond : Expr) :
    (conditionDraft keyword cond).Writable ↔ cond.Resolved := by
  simp [conditionDraft, writable_valueDraft]

theorem plain_varDraft (name : String) (init : Option Expr) :
    (varDraft keep name init).plain = varText keep (declaredName name) (init.map Expr.text) := by
  cases init with
  | none => simp [varDraft, varText, String.append_assoc]
  | some value => simp [varDraft, varText, value.plain_draft, String.append_assoc]

theorem writable_varDraft (name : String) (init : Option Expr) :
    (varDraft keep name init).Writable ↔ ∀ value ∈ init, value.Resolved := by
  cases init with
  | none => simp [varDraft]
  | some value => simp [varDraft, value.writable_draft]

theorem plain_exprDraft (expr : Expr) : (exprDraft keep expr).plain = expr.statementText keep := by
  unfold exprDraft Expr.statementText
  split
  · simp [plain_assignmentDraft, Expr.plain_draft]
  · cases keep <;> simp [keptText, plain_valueDraft, Expr.plain_draft, String.append_assoc]

theorem writable_exprDraft (expr : Expr) : (exprDraft keep expr).Writable ↔ expr.Resolved := by
  unfold exprDraft
  split
  · simp [writable_assignmentDraft, Expr.writable_draft, Expr.Resolved]
  · cases keep <;> simp [writable_valueDraft, Expr.writable_draft]

theorem plain_functionDraft (name : String) (params : List String) :
    (functionDraft name params body).plain =
      functionText (declaredName name) (params.map declaredName) body.plain := rfl

theorem plain_countDraft (var : String) (start stop : Expr) (direction : Direction)
    (step : Option Expr) (span : Span) :
    (countDraft keep var start stop direction step body span).plain =
      resetText keep ++ countText (declaredName var) start.valueText stop.valueText direction
        ((step.map Expr.valueText).getD "1") body.plain := by
  unfold countText
  cases direction <;> cases step <;>
    simp [countDraft, plain_resetDraft, plain_valueDraft, Direction.signs, String.append_assoc]

theorem plain_eachDraft (var : String) (collections : List Expr) :
    (eachDraft keep var collections body).plain =
      resetText keep ++ eachText (declaredName var) (argumentTexts collections) body.plain := by
  unfold eachText
  simp [eachDraft, plain_resetDraft, plain_separated, commaSeparated, plain_argumentDrafts,
    String.append_assoc]

theorem writable_countDraft (var : String) (start stop : Expr) (direction : Direction)
    (step : Option Expr) (span : Span) :
    (countDraft keep var start stop direction step body span).Writable ↔
      start.Resolved ∧ stop.Resolved ∧ (∀ value ∈ step, value.Resolved) ∧ body.Writable := by
  cases step <;> simp [countDraft, writable_resetDraft, writable_valueDraft, and_assoc]

theorem writable_eachDraft (var : String) (collections : List Expr) :
    (eachDraft keep var collections body).Writable ↔
      ResolvedArguments true collections ∧ body.Writable := by
  have hargs := writable_argumentDrafts true collections
  rw [WritableArguments, if_pos rfl] at hargs
  simp [eachDraft, writable_resetDraft, writable_separated, hargs]

end Pieces

mutual

theorem Stmt.plain_draft : (stmt : Stmt) → (keep : Bool) →
    (stmt.draft keep).plain = stmt.text keep
  | .function name params body span, keep => by
    simp [Stmt.draft, Stmt.text, plain_functionDraft, plain_stmtsDraft body]
  | .var name init span, keep => by
    simp [Stmt.draft, Stmt.text, plain_varDraft]
  | .expr expr span, keep => by
    simp [Stmt.draft, Stmt.text, plain_exprDraft]
  | .scope body span, keep => by
    simp [Stmt.draft, Stmt.text, body.plain_draft keep]
  | .branch cond body otherwise span, keep => by
    simp [Stmt.draft, Stmt.text, plain_resetDraft, plain_conditionDraft, body.plain_draft keep,
      otherwise.plain_draft keep]
  | .loop cond body span, keep => by
    simp [Stmt.draft, Stmt.text, loopDraft, plain_resetDraft, cond.plain_draft,
      body.plain_draft keep]
  | .count var start stop direction step body span, keep => by
    simp [Stmt.draft, Stmt.text, plain_countDraft, body.plain_draft keep]
  | .each var collections body span, keep => by
    simp [Stmt.draft, Stmt.text, plain_eachDraft, body.plain_draft keep]
  | .leave _, _ | .skip _, _ => by
    rw [Stmt.draft, Draft.plain_node, Draft.plain_text, Stmt.text]

theorem Block.plain_draft : (body : Block) → (keep : Bool) →
    (body.draft keep).plain = body.text keep
  | .mk stmts span, keep => by
    simp [Block.draft, Block.text, plain_stmtsDraft stmts]

theorem Otherwise.plain_draft : (rest : Otherwise) → (keep : Bool) →
    (rest.draft keep).plain = rest.text keep
  | .nothing, _ => rfl
  | .last body, keep => by
    simp [Otherwise.draft, Otherwise.text, body.plain_draft keep]
  | .elseIf cond body rest, keep => by
    simp [Otherwise.draft, Otherwise.text, plain_conditionDraft, body.plain_draft keep,
      rest.plain_draft keep, String.append_assoc]

theorem plain_stmtsDraft : (stmts : List Stmt) → (keep : Bool) →
    (stmtsDraft keep stmts).plain = stmtsText keep stmts
  | [], _ => rfl
  | stmt :: rest, keep => by
    rw [stmtsDraft, Draft.plain_append, stmt.plain_draft, plain_stmtsDraft rest, stmtsText]

end

mutual

theorem Stmt.writable_draft : (stmt : Stmt) → (keep : Bool) →
    ((stmt.draft keep).Writable ↔ stmt.Resolved)
  | .function name params body span, keep => by
    simp [Stmt.draft, Stmt.Resolved, functionDraft, writable_stmtsDraft body]
  | .var name init span, keep => by
    simp [Stmt.draft, Stmt.Resolved, writable_varDraft]
  | .expr expr span, keep => by
    simp [Stmt.draft, Stmt.Resolved, writable_exprDraft]
  | .scope body span, keep => by
    simp [Stmt.draft, Stmt.Resolved, body.writable_draft keep]
  | .branch cond body otherwise span, keep => by
    simp [Stmt.draft, Stmt.Resolved, writable_resetDraft, writable_conditionDraft,
      body.writable_draft keep, otherwise.writable_draft keep, and_assoc]
  | .loop cond body span, keep => by
    simp [Stmt.draft, Stmt.Resolved, loopDraft, writable_resetDraft, cond.writable_draft,
      body.writable_draft keep]
  | .count var start stop direction step body span, keep => by
    simp [Stmt.draft, Stmt.Resolved, writable_countDraft, body.writable_draft keep]
  | .each var collections body span, keep => by
    simp [Stmt.draft, Stmt.Resolved, writable_eachDraft, body.writable_draft keep]
  | .leave _, _ | .skip _, _ => by
    simp [Stmt.draft, Stmt.Resolved]

theorem Block.writable_draft : (body : Block) → (keep : Bool) →
    ((body.draft keep).Writable ↔ body.Resolved)
  | .mk stmts span, keep => by
    simp [Block.draft, Block.Resolved, writable_stmtsDraft stmts]

theorem Otherwise.writable_draft : (rest : Otherwise) → (keep : Bool) →
    ((rest.draft keep).Writable ↔ rest.Resolved)
  | .nothing, _ => Iff.rfl
  | .last body, keep => by
    simp [Otherwise.draft, Otherwise.Resolved, body.writable_draft keep]
  | .elseIf cond body rest, keep => by
    simp [Otherwise.draft, Otherwise.Resolved, writable_conditionDraft,
      body.writable_draft keep, rest.writable_draft keep, and_assoc]

theorem writable_stmtsDraft : (stmts : List Stmt) → (keep : Bool) →
    ((stmtsDraft keep stmts).Writable ↔ ResolvedStmts stmts)
  | [], _ => Iff.rfl
  | stmt :: rest, keep => by
    rw [stmtsDraft, Draft.writable_append, stmt.writable_draft, writable_stmtsDraft rest,
      ResolvedStmts]

end

/-! ### Spans -/

theorem Expr.identifier?_bare (e : Expr) : e.bare.identifier? = e.identifier? := by
  cases e <;> rfl

theorem Expr.isAccessor_bare (e : Expr) : e.bare.isAccessor = e.isAccessor := by
  cases e <;> rfl

mutual

theorem Expr.text_bare : (e : Expr) → e.bare.text = e.text
  | .null _ | .number .. | .string .. | .identifier .. => rfl
  | .unary op operand span => by
    rw [Expr.bare, Expr.text, Expr.text, operand.text_bare]
  | .binary op left right span => by
    rw [Expr.bare, Expr.text, Expr.text, left.text_bare, right.text_bare]
  | .assign target value span => by
    rw [Expr.bare, Expr.text, Expr.text, target.text_bare, value.text_bare,
      target.identifier?_bare]
  | .call callee args isMethod span => by
    rw [Expr.bare, Expr.text, Expr.text, callee.text_bare, argumentTexts_bare args]
  | .dot base member index span => by
    rw [Expr.bare, Expr.text, Expr.text, base.text_bare, index.text_bare, base.identifier?_bare]
  | .element member index span => by
    rw [Expr.bare, Expr.text, Expr.text, index.text_bare]
  | .descendant base name index span => by
    rw [Expr.bare, Expr.text, Expr.text, base.text_bare, index.text_bare, base.identifier?_bare]
  | .method receiver call span => by
    rw [Expr.bare, Expr.text, Expr.text, receiver.text_bare, call.text_bare]

theorem Index.text_bare : (index : Index) → index.bare.text = index.text
  | .none | .star => rfl
  | .entry mode expr => by
    rw [Index.bare, Index.text, Index.text, expr.text_bare]

theorem argumentTexts_bare : (args : List Expr) →
    argumentTexts (bareArguments args) = argumentTexts args
  | [] => rfl
  | arg :: rest => by
    rw [bareArguments, argumentTexts, argumentTexts, arg.text_bare, argumentTexts_bare rest]

end

theorem Expr.valueText_bare (e : Expr) : e.bare.valueText = e.valueText := by
  rw [Expr.valueText, e.text_bare, Expr.valueText]

theorem Expr.conditionText_bare (keyword : String) (e : Expr) :
    e.bare.conditionText keyword = e.conditionText keyword := by
  rw [Expr.conditionText, e.valueText_bare, Expr.conditionText]

theorem Expr.statementText_bare (keep : Bool) (e : Expr) :
    e.bare.statementText keep = e.statementText keep := by
  have hplain : keptText keep ++ (if keep && e.bare.isAccessor then e.bare.valueText
      else e.bare.text) ++ ";\n" = keptText keep ++ (if keep && e.isAccessor then e.valueText
      else e.text) ++ ";\n" := by
    rw [e.text_bare, e.valueText_bare, e.isAccessor_bare]
  cases e with
  | assign target value span =>
    rw [Expr.bare, Expr.statementText, Expr.statementText, target.text_bare, value.text_bare,
      target.identifier?_bare]
  | _ => exact hplain

theorem map_text_bare (part : Option Expr) :
    (part.map Expr.bare).map Expr.text = part.map Expr.text := by
  cases part with
  | none => rfl
  | some e => exact congrArg some e.text_bare

theorem map_valueText_bare (part : Option Expr) :
    (part.map Expr.bare).map Expr.valueText = part.map Expr.valueText := by
  cases part with
  | none => rfl
  | some e => exact congrArg some e.valueText_bare

theorem isEmpty_bareStmts (stmts : List Stmt) : (bareStmts stmts).isEmpty = stmts.isEmpty := by
  cases stmts <;> rfl

mutual

theorem Stmt.text_bare : (stmt : Stmt) → (keep : Bool) → stmt.bare.text keep = stmt.text keep
  | .function name params body span, keep => by
    rw [Stmt.bare, Stmt.text, Stmt.text, stmtsText_bare body]
  | .var name init span, keep => by
    rw [Stmt.bare, Stmt.text, Stmt.text, map_text_bare]
  | .expr expr span, keep => by
    rw [Stmt.bare, Stmt.text, Stmt.text, expr.statementText_bare]
  | .scope body span, keep => by
    rw [Stmt.bare, Stmt.text, Stmt.text, body.text_bare]
  | .branch cond body otherwise span, keep => by
    rw [Stmt.bare, Stmt.text, Stmt.text, cond.conditionText_bare, body.text_bare,
      otherwise.text_bare]
  | .loop cond body span, keep => by
    rw [Stmt.bare, Stmt.text, Stmt.text, cond.text_bare, body.text_bare]
  | .count var start stop direction step body span, keep => by
    rw [Stmt.bare, Stmt.text, Stmt.text, start.valueText_bare, stop.valueText_bare,
      map_valueText_bare, body.text_bare]
  | .each var collections body span, keep => by
    rw [Stmt.bare, Stmt.text, Stmt.text, argumentTexts_bare, body.text_bare]
  | .leave _, _ | .skip _, _ => rfl

theorem Block.text_bare : (body : Block) → (keep : Bool) → body.bare.text keep = body.text keep
  | .mk stmts span, keep => by
    rw [Block.bare, Block.text, Block.text, stmtsText_bare stmts]

theorem Otherwise.text_bare : (rest : Otherwise) → (keep : Bool) →
    rest.bare.text keep = rest.text keep
  | .nothing, _ => rfl
  | .last body, keep => by
    rw [Otherwise.bare, Otherwise.text, Otherwise.text, body.text_bare]
  | .elseIf cond body rest, keep => by
    rw [Otherwise.bare, Otherwise.text, Otherwise.text, cond.conditionText_bare, body.text_bare,
      rest.text_bare]

theorem stmtsText_bare : (stmts : List Stmt) → (keep : Bool) →
    stmtsText keep (bareStmts stmts) = stmtsText keep stmts
  | [], _ => rfl
  | stmt :: rest, keep => by
    rw [bareStmts, stmtsText, stmtsText, isEmpty_bareStmts, stmt.text_bare, stmtsText_bare rest]

end

/-! ### Scripts -/

theorem Program.plain_draft (program : Program) : program.draft.plain = program.text := by
  simp [Program.draft, Program.text, plain_stmtsDraft]

theorem Program.writable_draft (program : Program) :
    program.draft.Writable ↔ program.Resolved := by
  simp [Program.draft, Program.Resolved, writable_stmtsDraft]

theorem Program.write_eq_ok {program : Program} (h : program.stmts ≠ []) {limits : OutputLimits}
    {js : String} : program.write limits = .ok js ↔
      ∃ writer, program.draft.write limits {} = .ok writer ∧ writer.written = js := by
  have hnonempty : program.isEmpty = false := by
    rw [Program.isEmpty, List.isEmpty_eq_false_iff]
    exact h
  rw [Program.write, hnonempty]
  cases program.draft.write limits {} with
  | error fault => exact ⟨nofun, nofun⟩
  | ok writer =>
    constructor
    · intro hjs
      exact ⟨writer, rfl, Except.ok.inj hjs⟩
    · rintro ⟨_, heq, hjs⟩
      obtain rfl := Except.ok.inj heq
      exact congrArg Except.ok hjs

theorem Program.text_of_write {program : Program} (h : program.stmts ≠ []) {limits : OutputLimits}
    {js : String} (hjs : program.write limits = .ok js) : js = program.text ∧ program.Resolved := by
  obtain ⟨writer, hwriter, rfl⟩ := (Program.write_eq_ok h).mp hjs
  obtain ⟨hwritable, rfl⟩ := Draft.write_eq hwriter
  refine ⟨?_, program.writable_draft.mp hwritable⟩
  rw [← program.plain_draft]
  exact String.empty_append

theorem Program.exists_limits {program : Program} (h : program.stmts ≠ [])
    (hresolved : program.Resolved) : ∃ limits, program.write limits = .ok program.text := by
  obtain ⟨room, hroom⟩ := Draft.exists_room (program.writable_draft.mpr hresolved) {}
  refine ⟨⟨room, room⟩, (Program.write_eq_ok h).mpr ⟨_, hroom _ ?_ ?_, ?_⟩⟩
  · exact Nat.le_refl room
  · exact Nat.le_refl room
  · rw [← program.plain_draft]
    exact String.empty_append

/-- **Writing refines the plain rendering.**  Whatever the limits are, what is written for a
script with at least one statement is the text of its statements between prologue and
epilogue.  It is written under some limits exactly if every call is resolved, and two scripts
that differ in their spans alone become the same text. -/
theorem write_refines_text {program : Program} (h : program.stmts ≠ []) :
    (∀ limits js, program.write limits = .ok js →
      js = prologue ++ stmtsText true program.stmts ++ epilogue) ∧
    ((∃ limits js, program.write limits = .ok js) ↔ program.Resolved) ∧
    ∀ other : Program, other.bare = program.bare → ∀ limits limits' js js',
      program.write limits = .ok js → other.write limits' = .ok js' → js' = js := by
  refine ⟨fun limits js hjs => (Program.text_of_write h hjs).1, ⟨?_, ?_⟩, ?_⟩
  · rintro ⟨limits, js, hjs⟩
    exact (Program.text_of_write h hjs).2
  · intro hresolved
    obtain ⟨limits, hjs⟩ := Program.exists_limits h hresolved
    exact ⟨limits, _, hjs⟩
  · intro other hbare limits limits' js js' hjs hjs'
    have hstmts : bareStmts other.stmts = bareStmts program.stmts := congrArg Program.stmts hbare
    have hother : other.stmts ≠ [] := by
      intro hnil
      rw [hnil] at hstmts
      exact h (List.isEmpty_iff.mp (by rw [← isEmpty_bareStmts, ← hstmts]; rfl))
    rw [(Program.text_of_write h hjs).1, (Program.text_of_write hother hjs').1, Program.text,
      Program.text, ← stmtsText_bare other.stmts, hstmts, stmtsText_bare]

/-- `-(a - b) * c - d`: operators of both forms on the way to `a`. -/
def mixedChain : Program where
  stmts := [.expr (.binary .sub (.binary .mul (.unary .minus
    (.binary .sub (.identifier "a" .origin) (.identifier "b" .origin) .origin) .origin)
    (.identifier "c" .origin) .origin) (.identifier "d" .origin) .origin) .origin]
  span := .origin

theorem write_refines_text_mixedChain :
    mixedChain.stmts ≠ [] ∧
    (∀ limits js, mixedChain.write limits = .ok js → js = prologue ++
      "pfm_ret = pfm_rt.minus_op(pfm_rt.mul_op(pfm_rt.neg_op(pfm_rt.minus_op(a, b)), c), d);\n" ++
      epilogue) ∧
    ∃ limits js, mixedChain.write limits = .ok js := by
  have hnonempty : mixedChain.stmts ≠ [] := nofun
  have htext : stmtsText true mixedChain.stmts =
      "pfm_ret = pfm_rt.minus_op(pfm_rt.mul_op(pfm_rt.neg_op(pfm_rt.minus_op(a, b)), c), d);\n" := by
    decide +kernel
  obtain ⟨htexts, hlimits, -⟩ := write_refines_text hnonempty
  rw [htext] at htexts
  exact ⟨hnonempty, htexts, hlimits.mpr ⟨⟨⟨⟨trivial, trivial⟩, trivial⟩, trivial⟩, trivial⟩⟩

end FormCalc
