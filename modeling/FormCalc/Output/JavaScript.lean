import FormCalc.Host.Builtin
import FormCalc.Host.Method
import FormCalc.Output.Draft
import FormCalc.Output.Name
import FormCalc.Tree.Basic

/-!
# JavaScript

What a script becomes.  Operators, accessors and calls become calls of the host's object.
The result of a script or function is carried in the variable `pfm_ret`: the last
statement keeps its value there, and so does the last statement of each block that is
itself in last place.

* `Expr.walk`: an expression.  Operators nest to the left, so they are walked along and not
  nested in the draft.
* `Stmt.draft`: a statement, with its value kept or dropped.
* `Program.write`: a whole script.
-/

namespace FormCalc

open Draft Host

/-! ### Calls of the host -/

/-- A member of the host's object. -/
def memberText (name : String) : String := objectName ++ "." ++ name

/-- A call of a helper. -/
def Host.Helper.call (helper : Helper) (args : Draft) : Draft :=
  text (memberText helper.name ++ "(") ++ args ++ text ")"

/-- The helper that carries out an operator in front of its operand. -/
def UnaryOp.helper : UnaryOp → Helper
  | .plus => .posOp
  | .minus => .negOp
  | .not => .logNotOp

/-- The helper that carries out an operator between its operands. -/
def BinaryOp.helper : BinaryOp → Helper
  | .or => .logOrOp
  | .and => .logAndOp
  | .eq => .eqOp
  | .ne => .neqOp
  | .lt => .ltOp
  | .gt => .gtOp
  | .le => .leOp
  | .ge => .geOp
  | .add => .plusOp
  | .sub => .minusOp
  | .mul => .mulOp
  | .div => .divOp

/-! ### Expressions -/

/-- Whether an expression is an operator with its operands. -/
def Expr.isOperator : Expr → Bool
  | .unary .. | .binary .. => true
  | _ => false

/-- What stands behind the innermost operand of a chain of operators.  There is an entry for
each operator, with its right operand if it has one; the last operator that was opened is the
first to be closed. -/
def closing : List (Option Draft) → Draft
  | [] => empty
  | right :: rest =>
    (match right with
      | some right => text ", " ++ right
      | none => empty) ++ text ")" ++ ascend ++ closing rest

/-- An operator up to its first operand. -/
def opening (helper : Helper) (span : Span) : Draft :=
  descend span ++ text (memberText helper.name ++ "(")

/-- The innermost operand of a chain, and what closes the chain. -/
def operandDraft (rights : List (Option Draft)) (span : Span) (body : Draft) : Draft :=
  node span body ++ closing rights

/-- A chain of operators counts as one piece of text: each operator opens a level, but the
length is checked again only behind all of them. -/
def Expr.measured (e : Expr) (draft : Draft) : Draft :=
  if e.isOperator then draft ++ measure e.span else draft

/-- An assignment of one text to another. -/
def assignedText (target value : String) : Draft :=
  Helper.asgnValOp.call (text (target ++ ", " ++ value))

/-- `target = value`.  The host assigns to an object; a variable that holds none takes the
value itself, which `this` cannot. -/
def assignmentDraft (keep isVariable : Bool) (target value : Draft) : Draft :=
  let kept : Draft := if keep then text "pfm_ret = " else empty
  scratch target fun target => scratch value fun value =>
    text "if (" ++ Helper.isObj.call (text target) ++ text ")\n\x7b\n" ++
      kept ++ assignedText target value ++ text ";\n\x7d\n" ++
      if isVariable && target != "this" then
        text "else\n\x7b\n" ++ kept ++ text (target ++ " = ") ++ assignedText target value ++
          text ";\n\x7d\n"
      else empty

/-- The arguments of a method, each read as a value or taken as an object.  The first of
them is argument `i`. -/
def methodArguments (mask : Nat) (i : Nat) : List Draft → List Draft
  | [] => []
  | arg :: rest =>
    (if takesObject mask i then Helper.getJsobj else Helper.getVal).call arg ::
      methodArguments mask (i + 1) rest

/-- A call of the built-in function of this spelling.  A test for existence must not fail
where there is nothing to access, so it runs in a function of its own; it has only one
argument. -/
def builtinDraft (name : String) (args : List Draft) : Draft :=
  if name = "Eval" then
    text "eval.call(this, " ++ Helper.translate.call (separated ", " args) ++ text ")"
  else if name = "Exists" then
    text (memberText name ++ "(\n(\nfunction ()\n\x7b\ntry\n\x7b\n") ++
      (match args with
        | [] => text "return 0;\n\x7d\n"
        | first :: _ => text "return " ++ first ++ text ";\n\x7d\n") ++
      text "catch(accessExceptions)\n\x7b\nreturn 0;\n\x7d\n\x7d\n).call(this)\n)"
  else text (memberText name ++ "(") ++ separated ", " args ++ text ")"

/-- A call of whatever the text of the callee names. -/
def callDraft (isMethod : Bool) (callee : Draft) (calleeSpan : Span) (args : List Draft) :
    Draft :=
  scratch callee fun name =>
    if isMethod then
      text (name ++ "(") ++ separated ", " (methodArguments (objectMask name) 0 args) ++ text ")"
    else match builtin? name with
      | some name => builtinDraft name args
      | none => unknown name calleeSpan

/-- A method call, on one object or on each of several. -/
def methodDraft (receiver call : Draft) : Draft :=
  text "(function() \x7b\n  return pfm_method_runner(" ++ receiver ++
    text ", function(obj) \x7b\n    return obj." ++ call ++
    text ";\n  \x7d);\n\x7d).call(this)"

/-- What an accessor selects, as a name in quotes. -/
def Member.quoted : Member → String
  | .named name => "\"" ++ name ++ "\""
  | .hash name => "\"#" ++ name ++ "\""
  | .star => "\"*\""
  | .callResult => "\"\""

/-- An accessor with its base, what it selects, and its index.  A base that is a bare
name is passed a second time, in quotes. -/
def accessorDraft (helper : Helper) (isName : Bool) (base : Draft) (member : String)
    (index : Draft) : Draft :=
  helper.call (base ++ text ", \"" ++ (if isName then base else empty) ++
    text ("\", " ++ member ++ ", ") ++ index)

/-- The number that stands for the way an index counts. -/
def IndexMode.digit : IndexMode → String
  | .absolute => "1"
  | .forward => "2"
  | .backward => "3"

mutual

/-- An expression, and what closes the operators in front of it.  Of an operator only the part
in front of its first operand is written at once: its right operand is put on the stack
`rights`, and the walk goes on with the first. -/
def Expr.walk (rights : List (Option Draft)) : Expr → Draft
  | .null span => operandDraft rights span (text "null")
  | .number raw span => operandDraft rights span (text raw)
  | .string raw span => operandDraft rights span (text (quotedText raw))
  | .identifier name span => operandDraft rights span (text (referencedName name))
  | .unary op operand span => opening op.helper span ++ operand.walk (none :: rights)
  | .binary op left right span =>
    opening op.helper span ++ left.walk (some (right.measured (right.walk [])) :: rights)
  | .assign target value span =>
    operandDraft rights span
      (assignmentDraft false target.identifier?.isSome (target.measured (target.walk []))
        (value.measured (value.walk [])))
  | .call callee args isMethod span =>
    operandDraft rights span
      (callDraft isMethod (callee.measured (callee.walk [])) callee.span (argumentDrafts args))
  | .dot base member index span =>
    operandDraft rights span
      (accessorDraft .dotAcc base.identifier?.isSome (base.measured (base.walk []))
        member.quoted (node span index.draft))
  | .element member index span =>
    operandDraft rights span
      (accessorDraft .dotAcc false (text "null") member.quoted (node span index.draft))
  | .descendant base name index span =>
    operandDraft rights span
      (accessorDraft .dotdotAcc base.identifier?.isSome (base.measured (base.walk []))
        ("\"" ++ name ++ "\"") (node span index.draft))
  | .method receiver call span =>
    operandDraft rights span
      (methodDraft (receiver.measured (receiver.walk [])) (call.measured (call.walk [])))

/-- The last arguments of an accessor: how the index counts, and its expression. -/
def Index.draft : Index → Draft
  | .none => text "0, 0"
  | .star => text "1"
  | .entry mode expr => text (mode.digit ++ ", ") ++ expr.measured (expr.walk [])

/-- The drafts of arguments. -/
def argumentDrafts : List Expr → List Draft
  | [] => []
  | arg :: rest => arg.measured (arg.walk []) :: argumentDrafts rest

end

/-- An expression. -/
def Expr.draft (e : Expr) : Draft := e.measured (e.walk [])

/-! ### Statements -/

/-- An expression read as a value. -/
def valueDraft (expr : Expr) : Draft := Helper.getVal.call expr.draft

/-- What a statement starts with that keeps a value only if something in it does. -/
def resetDraft (keep : Bool) : Draft := if keep then text "pfm_ret = 0;\n" else empty

/-- The definition of a function, which returns the value of its last statement. -/
def functionDraft (name : String) (params : List String) (body : Draft) : Draft :=
  text ("function " ++ declaredName name ++ "(") ++
    text (", ".intercalate (params.map declaredName)) ++
    text ") \x7b\nvar pfm_ret = null;\n" ++ body ++ text "return pfm_ret;\n\x7d\n"

/-- The declaration of a variable. -/
def varDraft (keep : Bool) (name : String) (init : Option Expr) : Draft :=
  let name := declaredName name
  text ("var " ++ name ++ " = ") ++
    (match init with
      | some value =>
        value.draft ++ text (";\n" ++ name ++ " = ") ++ Helper.varFilter.call (text name) ++
          text ";\n"
      | none => text "\"\";\n") ++
    if keep then text ("pfm_ret = " ++ name ++ ";\n") else empty

/-- An expression in the place of a statement.  A reference that is kept is read first. -/
def exprDraft (keep : Bool) (expr : Expr) : Draft :=
  match expr with
  | .assign target value span =>
    node span
      (assignmentDraft keep target.identifier?.isSome target.draft value.draft)
  | _ =>
    if keep then
      text "pfm_ret = " ++ (if expr.isAccessor then valueDraft expr else expr.draft) ++
        text ";\n"
    else expr.draft ++ text ";\n"

/-- A condition behind its keyword. -/
def conditionDraft (keyword : String) (cond : Expr) : Draft :=
  text (keyword ++ " (") ++ valueDraft cond ++ text ")\n" ++ measure cond.span

/-- A loop under a condition. -/
def loopDraft (keep : Bool) (cond : Expr) (body : Draft) (span : Span) : Draft :=
  resetDraft keep ++ text "while (" ++ cond.draft ++ text ")\n" ++ measure span ++ body

/-- A counting loop. -/
def countDraft (keep : Bool) (var : String) (start stop : Expr) (direction : Direction)
    (step : Option Expr) (body : Draft) (bodySpan : Span) : Draft :=
  let var := declaredName var
  let (compare, move) := match direction with
    | .upto => (" <= ", " += ")
    | .downto => (" >= ", " -= ")
  resetDraft keep ++
    text ("\x7b\nvar " ++ var ++ " = null;\nfor (" ++ var ++ " = ") ++ valueDraft start ++
    text ("; " ++ var ++ compare) ++ valueDraft stop ++
    text ("; " ++ var ++ move) ++
    (match step with
      | some step => valueDraft step
      | none => text "1") ++
    text ")\n" ++ measure bodySpan ++ body ++ text "\x7d\n"

/-- A loop over collections. -/
def eachDraft (keep : Bool) (var : String) (collections : List Expr) (body : Draft) : Draft :=
  let var := declaredName var
  resetDraft keep ++
    text ("\x7b\nvar " ++ var ++ " = null;\nvar pfm_ary = ") ++
    Helper.concatObj.call (separated ", " (argumentDrafts collections)) ++
    text (";\nvar pfm_ary_idx = 0;\nwhile(pfm_ary_idx < pfm_ary.length)\n\x7b\n" ++ var ++
      " = pfm_ary[pfm_ary_idx++];\n") ++
    body ++ text "\x7d\n\x7d\n"

mutual

/-- A statement.  `keep` tells whether its value is the result. -/
def Stmt.draft (keep : Bool) : Stmt → Draft
  | .function name params body span => node span (functionDraft name params (stmtsDraft true body))
  | .var name init span => node span (varDraft keep name init)
  | .expr expr span => node span (exprDraft keep expr)
  | .scope body span => node span (body.draft keep)
  | .branch cond body otherwise span =>
    node span (resetDraft keep ++ conditionDraft "if" cond ++ body.draft keep ++
      otherwise.draft keep)
  | .loop cond body span => node span (loopDraft keep cond (body.draft keep) span)
  | .count var start stop direction step body span =>
    node span (countDraft keep var start stop direction step (body.draft keep) body.span)
  | .each var collections body span => node span (eachDraft keep var collections (body.draft keep))
  | .leave span => node span (text "pfm_ret = 0;\nbreak;\n")
  | .skip span => node span (text "pfm_ret = 0;\ncontinue;\n")

/-- A block in braces. -/
def Block.draft (keep : Bool) : Block → Draft
  | .mk stmts span => node span (text "\x7b\n" ++ stmtsDraft keep stmts ++ text "\x7d\n")

/-- The arms of an `if` behind its first block. -/
def Otherwise.draft (keep : Bool) : Otherwise → Draft
  | .nothing => empty
  | .last body => text "else " ++ body.draft keep
  | .elseIf cond body rest =>
    node (cond.span.cover body.span) (conditionDraft "else if" cond ++ body.draft keep) ++
      rest.draft keep

/-- Statements, of which only the last may keep its value. -/
def stmtsDraft (keep : Bool) : List Stmt → Draft
  | [] => empty
  | stmt :: rest => stmt.draft (keep && rest.isEmpty) ++ stmtsDraft keep rest

end

/-! ### Scripts -/

/-- What a script without a statement becomes. -/
def commentsOnly : String := "// comments only"

/-- What stands in front of the statements of a script. -/
def prologue : String :=
  "(function() \x7b\n" ++
  "let pfm_method_runner = function(obj, cb) \x7b\n" ++
  "  if (pfm_rt.is_ary(obj)) \x7b\n" ++
  "    let pfm_method_return = null;\n" ++
  "    for (var idx = obj.length -1; idx > 1; idx--) \x7b\n" ++
  "      pfm_method_return = cb(obj[idx]);\n" ++
  "    \x7d\n" ++
  "    return pfm_method_return;\n" ++
  "  \x7d\n" ++
  "  return cb(obj);\n" ++
  "\x7d;\n" ++
  "var pfm_ret = null;\n"

/-- What stands behind the statements of a script. -/
def epilogue : String := "return pfm_rt.get_val(pfm_ret);\n\x7d).call(this);"

/-- A script with at least one statement. -/
def Program.draft (program : Program) : Draft :=
  text prologue ++ stmtsDraft true program.stmts ++ text epilogue ++ measure program.span

/-- The JavaScript of a script, or the first limit that it breaks.  No limit applies to a
script without a statement. -/
def Program.write (limits : OutputLimits) (program : Program) :
    Except (Fault OutputCause) String := do
  if program.isEmpty then return commentsOnly
  let writer ← program.draft.write limits {}
  return writer.written

end FormCalc
