import FormCalc.Proofs.Output.Loops
import FormCalc.Proofs.Output.Unknown
import FormCalc.Proofs.Tree.References

/-!
# Functions around references

An expression is written with functions in it that the script does not have: one around each method
call, one more around the call itself, which is called back for each object, and one around each
test for existence.  A reference of the script that stands inside must mean there what it means
outside.

* `Wrapper`: such a function, with the names that it gives a meaning of its own
  (`Wrapper.Captures`).
* `Scoped`: text that marks the functions and the references in it, and `Scoped.places`, where the
  references stand.
* `Expr.scoped`: the marked text of an expression.  The marks change nothing (`Expr.text_scoped`),
  and there is no function in the text but the marked ones (`Expr.plain_scoped`).

Each reference of an expression is written in one place.  It is captured there exactly if it stands
in an argument of a method call and has one of the captured names (`Expr.places_scoped`).
-/

namespace FormCalc

open Host Text

/-! ### Functions -/

/-- A function without a name, by the text in front of its body and the text behind it. -/
structure Wrapper where
  opening : String
  closing : String
  deriving DecidableEq

namespace Wrapper

/-- The parameters: the words in the brackets behind `function`. -/
def params (w : Wrapper) : List String :=
  ((((codeTokens w.opening).dropWhile (· != "function")).drop 2).takeWhile (· != ")")).filter
    (· != ",")

/-- Whether the function is called at once, with the `this` of what is around it. -/
def keepsThis (w : Wrapper) : Bool :=
  codeTokens w.closing == ["\x7d", ")", ".", "call", "(", "this", ")"]

/-- Whether a name has another meaning inside the function than outside. -/
def Captures (w : Wrapper) (name : String) : Prop :=
  name ∈ w.params ∨ name = "this" ∧ w.keepsThis = false

instance (w : Wrapper) (name : String) : Decidable (w.Captures name) :=
  inferInstanceAs (Decidable (_ ∨ _))

/-- Whether the function is open between two texts. -/
def Around (w : Wrapper) (before after : String) : Prop :=
  (∃ front back, before = front ++ w.opening ++ back) ∧
    ∃ front back, after = front ++ w.closing ++ back

/-- More text in front or behind changes nothing. -/
theorem Around.grow {w : Wrapper} {before after : String} (h : w.Around before after)
    (front back : String) : w.Around (before ++ front) (back ++ after) := by
  obtain ⟨⟨a, b, rfl⟩, c, d, rfl⟩ := h
  refine ⟨⟨a, b ++ front, ?_⟩, back ++ c, d, ?_⟩
  · simp only [String.append_assoc]
  · simp only [String.append_assoc]

/-- The function around a method call. -/
def method : Wrapper := ⟨"(function() \x7b", "\x7d).call(this)"⟩

/-- The function that is called back for each object of a method call. -/
def callback : Wrapper := ⟨"function(obj) \x7b", "\x7d"⟩

/-- The function around a test for existence. -/
def existence : Wrapper := ⟨"(\nfunction ()\n\x7b", "\x7d\n).call(this)"⟩

end Wrapper

/-- The names that have another meaning where a method is called back. -/
def capturedNames : List String := ["obj", "this"]

namespace Wrapper

variable {name : String}

theorem not_captures_method : ¬method.Captures name := by
  have hparams : method.params = [] := by decide +kernel
  have hthis : method.keepsThis = true := by decide +kernel
  simp [Captures, hparams, hthis]

theorem not_captures_existence : ¬existence.Captures name := by
  have hparams : existence.params = [] := by decide +kernel
  have hthis : existence.keepsThis = true := by decide +kernel
  simp [Captures, hparams, hthis]

/-- The function that is called back is the one that does not keep `this`. -/
theorem captures_callback : callback.Captures name ↔ name ∈ capturedNames := by
  have hparams : callback.params = ["obj"] := by decide +kernel
  have hthis : callback.keepsThis = false := by decide +kernel
  simp [Captures, hparams, hthis, capturedNames]

end Wrapper

/-- Whether the names that some functions capture are those that the arguments of a method call
lose, or none. -/
def CapturesIn (wrappers : List Wrapper) (inMethod : Bool) : Prop :=
  ∀ name, (∃ w ∈ wrappers, w.Captures name) ↔ inMethod = true ∧ name ∈ capturedNames

namespace CapturesIn

variable {wrappers : List Wrapper} {inMethod : Bool}

theorem nil : CapturesIn [] false := by
  intro name
  simp

theorem cons_of_not {w : Wrapper} (hw : ∀ name, ¬w.Captures name)
    (h : CapturesIn wrappers inMethod) : CapturesIn (w :: wrappers) inMethod := by
  intro name
  rw [← h name]
  simp [hw name]

theorem method (h : CapturesIn wrappers inMethod) :
    CapturesIn (Wrapper.method :: wrappers) inMethod :=
  h.cons_of_not fun _ => Wrapper.not_captures_method

theorem existence (h : CapturesIn wrappers inMethod) :
    CapturesIn (Wrapper.existence :: wrappers) inMethod :=
  h.cons_of_not fun _ => Wrapper.not_captures_existence

/-- Inside the function that is called back, what is captured does not depend on what is around
it. -/
theorem callback (h : CapturesIn wrappers inMethod) :
    CapturesIn (Wrapper.callback :: wrappers) true := by
  intro name
  constructor
  · rintro ⟨w, hw, hcaptures⟩
    refine ⟨rfl, ?_⟩
    rcases List.mem_cons.mp hw with rfl | hw
    · exact Wrapper.captures_callback.mp hcaptures
    · exact ((h name).mp ⟨w, hw, hcaptures⟩).2
  · rintro ⟨-, hname⟩
    exact ⟨Wrapper.callback, List.mem_cons_self, Wrapper.captures_callback.mpr hname⟩

end CapturesIn

/-! ### Marked text -/

/-- Text with marks. -/
inductive Scoped where
  /-- Fixed text. -/
  | code (s : String)
  /-- Text of the script that is no reference. -/
  | given (s : String)
  | reference (name : String) (span : Span)
  | append (first second : Scoped)
  | wrapped (w : Wrapper) (body : Scoped)

/-- The place of a reference in a text, with the functions around it, the innermost first. -/
structure Place where
  before : String
  wrappers : List Wrapper
  name : String
  span : Span
  after : String

namespace Scoped

instance : Append Scoped := ⟨append⟩

/-- The text without its marks. -/
def text : Scoped → String
  | code s | given s => s
  | reference name _ => referencedName name
  | append first second => first.text ++ second.text
  | wrapped w body => w.opening ++ body.text ++ w.closing

/-- The places of the references, in a text that stands between two others and inside some
functions. -/
def places (before : String) (wrappers : List Wrapper) (after : String) : Scoped → List Place
  | code _ | given _ => []
  | reference name span => [⟨before, wrappers, name, span, after⟩]
  | append first second =>
    first.places before wrappers (second.text ++ after) ++
      second.places (before ++ first.text) wrappers after
  | wrapped w body => body.places (before ++ w.opening) (w :: wrappers) (w.closing ++ after)

/-- Whether no fixed text has a function in it. -/
def Plain : Scoped → Prop
  | code s => "function" ∉ codeTokens s
  | given _ | reference .. => True
  | append first second => first.Plain ∧ second.Plain
  | wrapped _ body => body.Plain

section Pieces

variable (first second : Scoped) (s : String)

@[simp] theorem text_code : (code s).text = s := rfl

@[simp] theorem text_given : (given s).text = s := rfl

@[simp] theorem text_append : (first ++ second).text = first.text ++ second.text := rfl

@[simp] theorem text_wrapped (w : Wrapper) :
    (wrapped w first).text = w.opening ++ first.text ++ w.closing := rfl

@[simp] theorem text_ite (c : Prop) [Decidable c] :
    (if c then first else second).text = if c then first.text else second.text := by
  split <;> rfl

end Pieces

variable {m : Scoped} {wrappers : List Wrapper} {before after : String} {place : Place}

/-- The text goes on with the name of the reference at its place. -/
theorem eq_of_mem_places (h : place ∈ m.places before wrappers after) :
    before ++ m.text ++ after =
      place.before ++ referencedName place.name ++ place.after := by
  induction m generalizing before wrappers after with
  | code | given => exact nomatch h
  | reference name span =>
    rw [List.mem_singleton.mp h]
    rfl
  | append first second ihFirst ihSecond =>
    rcases List.mem_append.mp h with h | h
    · rw [← ihFirst h, text]
      simp only [String.append_assoc]
    · rw [← ihSecond h, text]
      simp only [String.append_assoc]
  | wrapped w body ih =>
    rw [← ih h, text]
    simp only [String.append_assoc]

/-- The functions of a place are open there. -/
theorem around_of_mem_places (h : place ∈ m.places before wrappers after)
    (hwrappers : ∀ w ∈ wrappers, w.Around before after) :
    ∀ w ∈ place.wrappers, w.Around place.before place.after := by
  induction m generalizing before wrappers after with
  | code | given => exact nomatch h
  | reference name span =>
    rw [List.mem_singleton.mp h]
    exact hwrappers
  | append first second ihFirst ihSecond =>
    rcases List.mem_append.mp h with h | h
    · refine ihFirst h fun w hw => ?_
      have hgrown := (hwrappers w hw).grow "" second.text
      rwa [String.append_empty] at hgrown
    · refine ihSecond h fun w hw => ?_
      have hgrown := (hwrappers w hw).grow first.text ""
      rwa [String.empty_append] at hgrown
  | wrapped w body ih =>
    have hopen : w.Around (before ++ w.opening) (w.closing ++ after) :=
      ⟨⟨before, "", String.append_empty.symm⟩, "", after, by rw [String.empty_append]⟩
    exact ih h (List.forall_mem_cons.mpr
      ⟨hopen, fun w' hw' => (hwrappers w' hw').grow w.opening w.closing⟩)

/-- Marked texts with commas between them. -/
def commaSeparated : List Scoped → Scoped
  | [] => code ""
  | [only] => only
  | first :: second :: rest => first ++ code ", " ++ commaSeparated (second :: rest)

theorem text_commaSeparated (args : List Scoped) :
    (commaSeparated args).text = FormCalc.commaSeparated (args.map text) := by
  induction args with
  | nil => rfl
  | cons first rest ih =>
    cases rest with
    | nil => simp [commaSeparated, FormCalc.commaSeparated]
    | cons second rest =>
      rw [commaSeparated, text_append, text_append, text_code, ih]
      simp [FormCalc.commaSeparated, String.append_assoc]

end Scoped

open Scoped

/-! ### Expressions -/

/-- A call of a helper. -/
def Host.Helper.callScoped (helper : Helper) (args : Scoped) : Scoped :=
  code (memberText helper.name ++ "(") ++ args ++ code ")"

/-- An argument of a method, read as a value or taken as an object. -/
def methodArgumentScoped (mask i : Nat) (arg : Scoped) : Scoped :=
  (if takesObject mask i then Helper.getJsobj else Helper.getVal).callScoped arg

/-- A call of the method of this name. -/
def methodCallScoped (name : String) (args : List Scoped) : Scoped :=
  given name ++ code "(" ++
    Scoped.commaSeparated (args.mapIdx (methodArgumentScoped (objectMask name))) ++ code ")"

/-- A call of the built-in function of this spelling. -/
def builtinScoped (name : String) (args : List Scoped) : Scoped :=
  if name = "Eval" then
    code "eval.call(this, " ++ Helper.translate.callScoped (Scoped.commaSeparated args) ++ code ")"
  else if name = "Exists" then
    code (memberText name ++ "(\n") ++
      wrapped .existence (code "\ntry\n\x7b\nreturn " ++ args.headD (code "0") ++
        code ";\n\x7d\ncatch(accessExceptions)\n\x7b\nreturn 0;\n\x7d\n") ++ code "\n)"
  else code (memberText name ++ "(") ++ Scoped.commaSeparated args ++ code ")"

/-- A call of whatever the text of the callee names. -/
def callScoped (isMethod : Bool) (callee : String) (args : List Scoped) : Scoped :=
  if isMethod then methodCallScoped callee args
  else match builtin? callee with
    | some name => builtinScoped name args
    | none => code ""

/-- An accessor with its base, the name of the base if it is a bare one, what it selects and
its index.  In quotes the name is no reference. -/
def accessorScoped (helper : Helper) (base : Scoped) (name member : String) (index : Scoped) :
    Scoped :=
  helper.callScoped (base ++ given (", \"" ++ name ++ "\", " ++ member ++ ", ") ++ index)

/-- A method call on an object, or on each of several. -/
def methodScoped (receiver call : Scoped) : Scoped :=
  wrapped .method (code "\n  return pfm_method_runner(" ++ receiver ++ code ", " ++
    wrapped .callback (code "\n    return obj." ++ call ++ code ";\n  ") ++ code ");\n")

mutual

/-- The marked text of an expression.  There are no assignments inside expressions. -/
def Expr.scoped : Expr → Scoped
  | .null _ => code "null"
  | .number raw _ => given raw
  | .string raw _ => given (quotedText raw)
  | .identifier name span => reference name span
  | .unary op operand _ => op.helper.callScoped operand.scoped
  | .binary op left right _ => op.helper.callScoped (left.scoped ++ code ", " ++ right.scoped)
  | .assign target value _ =>
    given (assignmentText false target.identifier?.isSome target.text value.text)
  | .call callee args isMethod _ => callScoped isMethod callee.text (argumentScopes args)
  | .dot base member index _ =>
    accessorScoped .dotAcc base.scoped (if base.identifier?.isSome then base.text else "")
      member.quoted index.scoped
  | .element member index _ =>
    accessorScoped .dotAcc (code "null") "" member.quoted index.scoped
  | .descendant base name index _ =>
    accessorScoped .dotdotAcc base.scoped (if base.identifier?.isSome then base.text else "")
      ("\"" ++ name ++ "\"") index.scoped
  | .method receiver call _ => methodScoped receiver.scoped call.scoped

/-- The marked text of an index. -/
def Index.scoped : Index → Scoped
  | .none => code "0, 0"
  | .star => code "1"
  | .entry mode expr => code (mode.digit ++ ", ") ++ expr.scoped

/-- The marked texts of arguments. -/
def argumentScopes : List Expr → List Scoped
  | [] => []
  | arg :: rest => arg.scoped :: argumentScopes rest

end

/-! ### Marks change nothing -/

section Pieces

variable (args : List Scoped)

theorem text_callScoped (helper : Helper) (m : Scoped) :
    (helper.callScoped m).text = helper.callText m.text := rfl

theorem text_methodCallScoped (name : String) :
    (methodCallScoped name args).text = methodCallText name (args.map Scoped.text) := by
  have hargs : (args.mapIdx (methodArgumentScoped (objectMask name))).map Scoped.text =
      (args.map Scoped.text).mapIdx fun i arg =>
        (if takesObject (objectMask name) i then Helper.getJsobj
          else Helper.getVal).callText arg := by
    apply List.ext_getElem?
    intro i
    rw [List.getElem?_map, List.getElem?_mapIdx, List.getElem?_mapIdx, List.getElem?_map]
    cases args[i]? with
    | none => rfl
    | some arg => rfl
  simp only [methodCallScoped, methodCallText, text_append, text_code, text_given,
    text_commaSeparated, hargs]

theorem text_builtinScoped (name : String) :
    (builtinScoped name args).text = builtinText name (args.map Scoped.text) := by
  unfold builtinScoped builtinText
  rw [text_ite, text_ite]
  congr 1
  · simp only [text_append, text_code, text_callScoped, text_commaSeparated]
  · congr 1
    · have hhead : (args.headD (code "0")).text = (args.map Scoped.text).headD "0" := by
        cases args <;> rfl
      have hopen : "(\n" ++ (Wrapper.existence.opening ++ "\ntry\n\x7b\nreturn ") =
          "(\n(\nfunction ()\n\x7b\ntry\n\x7b\n" ++ "return " := rfl
      have hclose : ";\n\x7d\ncatch(accessExceptions)\n\x7b\nreturn 0;\n\x7d\n" ++
          (Wrapper.existence.closing ++ "\n)") = ";\n\x7d\n" ++
            "catch(accessExceptions)\n\x7b\nreturn 0;\n\x7d\n\x7d\n).call(this)\n)" := rfl
      have hwrapped : ∀ first : String, memberText name ++ "(\n" ++ (Wrapper.existence.opening ++
          ("\ntry\n\x7b\nreturn " ++ first ++
            ";\n\x7d\ncatch(accessExceptions)\n\x7b\nreturn 0;\n\x7d\n") ++
          Wrapper.existence.closing) ++ "\n)" =
          memberText name ++ ("(\n" ++ (Wrapper.existence.opening ++ "\ntry\n\x7b\nreturn ")) ++
            first ++ (";\n\x7d\ncatch(accessExceptions)\n\x7b\nreturn 0;\n\x7d\n" ++
              (Wrapper.existence.closing ++ "\n)")) := by
        intro first
        simp only [String.append_assoc]
      rw [text_append, text_append, text_wrapped, text_append, text_append, text_code, text_code,
        text_code, text_code, hhead, hwrapped, hopen, hclose]
      simp only [String.append_assoc]
    · simp only [text_append, text_code, text_commaSeparated]

theorem text_callScoped_callee (isMethod : Bool) (callee : String) :
    (callScoped isMethod callee args).text =
      callText isMethod callee (args.map Scoped.text) := by
  cases isMethod with
  | true => exact text_methodCallScoped args callee
  | false =>
    unfold callScoped callText
    cases builtin? callee with
    | none => rfl
    | some name => exact text_builtinScoped args name

theorem text_accessorScoped (helper : Helper) (base index : Scoped) (name member : String) :
    (accessorScoped helper base name member index).text =
      accessorText helper base.text name member index.text := by
  simp only [accessorScoped, accessorText, text_callScoped, text_append, text_given,
    String.append_assoc]

theorem text_methodScoped (receiver call : Scoped) :
    (methodScoped receiver call).text = methodText receiver.text call.text := by
  have hopen : Wrapper.method.opening ++ "\n  return pfm_method_runner(" =
      "(function() \x7b\n  return pfm_method_runner(" := rfl
  have hcall : ", " ++ (Wrapper.callback.opening ++ "\n    return obj.") =
      ", function(obj) \x7b\n    return obj." := rfl
  have hclose : ";\n  " ++ (Wrapper.callback.closing ++ (");\n" ++ Wrapper.method.closing)) =
      ";\n  \x7d);\n\x7d).call(this)" := rfl
  calc
    (methodScoped receiver call).text =
        (Wrapper.method.opening ++ "\n  return pfm_method_runner(") ++ receiver.text ++
          (", " ++ (Wrapper.callback.opening ++ "\n    return obj.")) ++ call.text ++
          (";\n  " ++ (Wrapper.callback.closing ++ (");\n" ++ Wrapper.method.closing))) := by
      simp only [methodScoped, text_wrapped, text_append, text_code, String.append_assoc]
    _ = methodText receiver.text call.text := by
      unfold methodText
      simp only [hopen, hcall, hclose]

end Pieces

mutual

/-- The marks change nothing. -/
theorem Expr.text_scoped : (e : Expr) → e.scoped.text = e.text
  | .null _ | .number .. | .string .. | .identifier .. | .assign .. => rfl
  | .unary op operand _ => by
    rw [Expr.scoped, Expr.text, text_callScoped, operand.text_scoped]
  | .binary op left right _ => by
    simp only [Expr.scoped, Expr.text, text_callScoped, text_append, text_code, left.text_scoped,
      right.text_scoped]
  | .call callee args isMethod _ => by
    rw [Expr.scoped, Expr.text, text_callScoped_callee, text_argumentScopes args]
  | .dot base member index _ | .descendant base name index _ => by
    rw [Expr.scoped, Expr.text, text_accessorScoped, base.text_scoped, index.text_scoped]
  | .element member index _ => by
    rw [Expr.scoped, Expr.text, text_accessorScoped, index.text_scoped, text_code]
  | .method receiver call _ => by
    rw [Expr.scoped, Expr.text, text_methodScoped, receiver.text_scoped, call.text_scoped]

theorem Index.text_scoped : (index : Index) → index.scoped.text = index.text
  | .none | .star => rfl
  | .entry mode expr => by
    rw [Index.scoped, Index.text, text_append, text_code, expr.text_scoped]

theorem text_argumentScopes : (args : List Expr) →
    (argumentScopes args).map Scoped.text = argumentTexts args
  | [] => rfl
  | arg :: rest => by
    rw [argumentScopes, List.map_cons, arg.text_scoped, text_argumentScopes rest, argumentTexts]

end

/-! ### No other functions -/

section Pieces

variable {args : List Scoped} {m base index receiver call : Scoped}

theorem Scoped.plain_code {s : String} (h : "function" ∉ codeTokens s) : (code s).Plain := h

theorem Scoped.plain_commaSeparated (h : ∀ arg ∈ args, arg.Plain) :
    (Scoped.commaSeparated args).Plain := by
  induction args with
  | nil => exact plain_code (by decide +kernel)
  | cons first rest ih =>
    cases rest with
    | nil => exact h first List.mem_cons_self
    | cons second rest =>
      obtain ⟨hfirst, hrest⟩ := List.forall_mem_cons.mp h
      have hcomma : (code ", ").Plain := plain_code (by decide +kernel)
      exact ⟨⟨hfirst, hcomma⟩, ih hrest⟩

theorem plain_close : (code ")").Plain := plain_code (by decide +kernel)

/-- The name of a member stands between signs. -/
theorem plain_memberText {name : String} (h : isMemberName name = true) (hne : name ≠ "function") :
    (code (memberText name ++ "(")).Plain := by
  have hword := List.all_eq_true.mp (Bool.and_eq_true_iff.mp h).1
  have hname : "function" ∉ codeTokens name := by
    by_cases hempty : name = ""
    · rw [hempty]
      decide +kernel
    · rw [codeTokens_word hword hempty, List.mem_singleton]
      exact hne.symm
  have hobject : "function" ∉ codeTokens (objectName ++ ".") := by decide +kernel
  have hopen : "function" ∉ codeTokens "(" := by decide +kernel
  have hpoint : (objectName ++ ".").toList.getLast? = some '.' := by decide +kernel
  have hbracket : "(".toList.head? = some '(' := by decide +kernel
  have htokens : codeTokens (memberText name ++ "(") =
      codeTokens (objectName ++ ".") ++ codeTokens name ++ codeTokens "(" := by
    rw [memberText, codeTokens_append, codeTokens_append]
    · intro a ha b _
      obtain rfl := Option.some.inj (hpoint.symm.trans ha)
      rw [show isIdentifierPart '.' = false by decide +kernel, Bool.false_and]
    · intro a _ b hb
      obtain rfl := Option.some.inj (hbracket.symm.trans hb)
      rw [show isIdentifierPart '(' = false by decide +kernel, Bool.and_false]
  refine plain_code ?_
  rw [htokens]
  simp [hobject, hname, hopen]

theorem Host.Helper.plain_callScoped (helper : Helper) (h : m.Plain) :
    (helper.callScoped m).Plain := by
  have hhelpers : Helper.all.all (·.name != "function") = true := by decide +kernel
  have hhelper := bne_iff_ne.mp (List.all_eq_true.mp hhelpers helper helper.mem_all)
  exact ⟨⟨plain_memberText helper.isMemberName_name hhelper, h⟩, plain_close⟩

theorem plain_methodCallScoped (name : String) (h : ∀ arg ∈ args, arg.Plain) :
    (methodCallScoped name args).Plain := by
  have hread : ∀ arg ∈ args.mapIdx (methodArgumentScoped (objectMask name)), arg.Plain := by
    intro arg harg
    obtain ⟨i, hi, rfl⟩ := List.mem_mapIdx.mp harg
    exact Helper.plain_callScoped _ (h _ (List.getElem_mem hi))
  have hopen : (code "(").Plain := plain_code (by decide +kernel)
  exact ⟨⟨⟨trivial, hopen⟩, Scoped.plain_commaSeparated hread⟩, plain_close⟩

theorem plain_builtinScoped {name : String} (hname : name ∈ builtins)
    (h : ∀ arg ∈ args, arg.Plain) : (builtinScoped name args).Plain := by
  have hbuiltins : builtins.toList.all (· != "function") = true := by decide +kernel
  have hmember := plain_memberText (isMemberName_builtin hname)
    (bne_iff_ne.mp (List.all_eq_true.mp hbuiltins name (Array.mem_toList_iff.mpr hname)))
  have hlist := Scoped.plain_commaSeparated h
  unfold builtinScoped
  split
  · have heval : (code "eval.call(this, ").Plain := plain_code (by decide +kernel)
    exact ⟨⟨heval, Helper.translate.plain_callScoped hlist⟩, plain_close⟩
  · split
    · rename_i hexists
      have hopen : (code (memberText name ++ "(\n")).Plain := by
        rw [hexists]
        exact plain_code (by decide +kernel)
      have hfirst : (args.headD (code "0")).Plain := by
        cases args with
        | nil => exact plain_code (by decide +kernel)
        | cons first rest => exact h first List.mem_cons_self
      have htry : (code "\ntry\n\x7b\nreturn ").Plain := plain_code (by decide +kernel)
      have hcatch : (code ";\n\x7d\ncatch(accessExceptions)\n\x7b\nreturn 0;\n\x7d\n").Plain :=
        plain_code (by decide +kernel)
      have hend : (code "\n)").Plain := plain_code (by decide +kernel)
      exact ⟨⟨hopen, ⟨htry, hfirst⟩, hcatch⟩, hend⟩
    · exact ⟨⟨hmember, hlist⟩, plain_close⟩

theorem plain_callScoped (isMethod : Bool) (callee : String) (h : ∀ arg ∈ args, arg.Plain) :
    (callScoped isMethod callee args).Plain := by
  unfold callScoped
  split
  · exact plain_methodCallScoped callee h
  · cases hname : builtin? callee with
    | none => exact plain_code (by decide +kernel)
    | some name => exact plain_builtinScoped (builtin_spec hname).1 h

theorem plain_accessorScoped (helper : Helper) (name member : String) (hbase : base.Plain)
    (hindex : index.Plain) : (accessorScoped helper base name member index).Plain :=
  helper.plain_callScoped ⟨⟨hbase, trivial⟩, hindex⟩

theorem plain_methodScoped (hreceiver : receiver.Plain) (hcall : call.Plain) :
    (methodScoped receiver call).Plain := by
  have hrun : (code "\n  return pfm_method_runner(").Plain := plain_code (by decide +kernel)
  have hcomma : (code ", ").Plain := plain_code (by decide +kernel)
  have hreturn : (code "\n    return obj.").Plain := plain_code (by decide +kernel)
  have hend : (code ";\n  ").Plain := plain_code (by decide +kernel)
  have hclose : (code ");\n").Plain := plain_code (by decide +kernel)
  exact ⟨⟨⟨⟨hrun, hreceiver⟩, hcomma⟩, ⟨hreturn, hcall⟩, hend⟩, hclose⟩

end Pieces

mutual

/-- There is no function in an expression but the marked ones. -/
theorem Expr.plain_scoped : (e : Expr) → e.scoped.Plain
  | .null _ => plain_code (by decide +kernel)
  | .number .. | .string .. | .identifier .. | .assign .. => trivial
  | .unary op operand _ => op.helper.plain_callScoped operand.plain_scoped
  | .binary op left right _ => by
    have hcomma : (code ", ").Plain := plain_code (by decide +kernel)
    exact op.helper.plain_callScoped ⟨⟨left.plain_scoped, hcomma⟩, right.plain_scoped⟩
  | .call callee args isMethod _ => plain_callScoped isMethod _ (plain_argumentScopes args)
  | .dot base _ index _ | .descendant base _ index _ =>
    plain_accessorScoped _ _ _ base.plain_scoped index.plain_scoped
  | .element _ index _ =>
    plain_accessorScoped _ _ _ (plain_code (by decide +kernel)) index.plain_scoped
  | .method receiver call _ => plain_methodScoped receiver.plain_scoped call.plain_scoped

theorem Index.plain_scoped : (index : Index) → index.scoped.Plain
  | .none | .star => plain_code (by decide +kernel)
  | .entry mode expr => by
    have hdigit : (code (mode.digit ++ ", ")).Plain := by
      cases mode <;> exact plain_code (by decide +kernel)
    exact ⟨hdigit, expr.plain_scoped⟩

theorem plain_argumentScopes : (args : List Expr) → ∀ arg ∈ argumentScopes args, arg.Plain
  | [] => nofun
  | arg :: rest => List.forall_mem_cons.mpr ⟨arg.plain_scoped, plain_argumentScopes rest⟩

end

/-! ### The places of references -/

/-- Whether a place is that of a reference, which is captured there exactly if it has one of the
captured names and stands in an argument of a method call. -/
structure Place.IsOf (place : Place) (r : Reference) : Prop where
  name : place.name = r.name
  span : place.span = r.span
  captured : (∃ w ∈ place.wrappers, w.Captures (referencedName r.name)) ↔
    r.inMethod = true ∧ referencedName r.name ∈ capturedNames

/-- Whether the places in a text are those of some references, in this order. -/
def Scoped.Shows (wrappers : List Wrapper) (m : Scoped) (references : List Reference) : Prop :=
  ∀ before after, List.Forall₂ Place.IsOf (m.places before wrappers after) references

namespace Scoped.Shows

variable {wrappers : List Wrapper} {m first second : Scoped} {rs rs' : List Reference}

theorem code (s : String) : Shows wrappers (code s) [] := fun _ _ => .nil

theorem given (s : String) : Shows wrappers (given s) [] := fun _ _ => .nil

theorem reference {inMethod : Bool} (h : CapturesIn wrappers inMethod) (name : String)
    (span : Span) : Shows wrappers (reference name span) [⟨name, span, inMethod⟩] :=
  fun _ _ => .cons ⟨rfl, rfl, h (referencedName name)⟩ .nil

theorem append (h : Shows wrappers first rs) (h' : Shows wrappers second rs') :
    Shows wrappers (first ++ second) (rs ++ rs') :=
  fun _ _ => List.rel_append (h _ _) (h' _ _)

/-- Fixed text behind. -/
theorem concat (h : Shows wrappers first rs) (s : String) :
    Shows wrappers (first ++ Scoped.code s) rs := by
  have hboth := h.append (code s)
  rwa [List.append_nil] at hboth

/-- Fixed text in front. -/
theorem behind (h : Shows wrappers second rs) (s : String) :
    Shows wrappers (Scoped.code s ++ second) rs := (code s).append h

theorem wrapped {w : Wrapper} (h : Shows (w :: wrappers) m rs) :
    Shows wrappers (wrapped w m) rs := fun _ _ => h _ _

theorem call (h : Shows wrappers m rs) (helper : Helper) :
    Shows wrappers (helper.callScoped m) rs := (h.behind _).concat _

/-- The references in texts with commas between them. -/
theorem commaSeparated {args : List Scoped} {lists : List (List Reference)}
    (h : List.Forall₂ (Shows wrappers) args lists) :
    Shows wrappers (Scoped.commaSeparated args) lists.flatten := by
  induction h with
  | nil => exact code ""
  | @cons arg rs args lists harg hargs ih =>
    rw [List.flatten_cons]
    cases hargs with
    | nil =>
      rw [List.flatten_nil, List.append_nil]
      exact harg
    | cons => exact (harg.concat ", ").append ih

theorem accessor {base index : Scoped} (hbase : Shows wrappers base rs)
    (hindex : Shows wrappers index rs') (helper : Helper) (name member : String) :
    Shows wrappers (accessorScoped helper base name member index) (rs ++ rs') := by
  have hquoted := hbase.append (given (", \"" ++ name ++ "\", " ++ member ++ ", "))
  rw [List.append_nil] at hquoted
  exact (hquoted.append hindex).call helper

theorem methodArguments {args : List Scoped} {lists : List (List Reference)}
    (h : List.Forall₂ (Shows wrappers) args lists) (f : Nat → Nat) (mask : Nat) :
    List.Forall₂ (Shows wrappers) (args.mapIdx fun i => methodArgumentScoped mask (f i)) lists := by
  induction h generalizing f with
  | nil => exact .nil
  | cons harg _ ih =>
    rw [List.mapIdx_cons]
    exact .cons (harg.call _) (ih fun i => f (i + 1))

end Scoped.Shows

open Scoped.Shows

theorem shows_builtinScoped {wrappers : List Wrapper} {name : String} {args : List Scoped}
    {lists : List (List Reference)}
    (hall : name ≠ "Exists" → List.Forall₂ (Shows wrappers) args lists)
    (hfirst : name = "Exists" →
      List.Forall₂ (Shows (.existence :: wrappers)) (args.take 1) (lists.take 1)) :
    Shows wrappers (builtinScoped name args)
      (if some name != some "Exists" then lists else lists.take 1).flatten := by
  unfold builtinScoped
  by_cases hname : name = "Exists"
  · subst hname
    have hhead : Shows (.existence :: wrappers) (args.headD (code "0")) (lists.take 1).flatten := by
      cases args with
      | nil =>
        rw [List.forall₂_nil_left_iff.mp (hfirst rfl)]
        exact Shows.code "0"
      | cons arg args => exact Shows.commaSeparated (hfirst rfl)
    rw [if_neg (by decide), if_pos rfl, if_neg (by decide)]
    exact (((hhead.behind _).concat _).wrapped.behind _).concat _
  · have hlist := Shows.commaSeparated (hall hname)
    have hother : (some name != some "Exists") = true := by simpa using hname
    rw [if_neg hname, if_pos hother]
    split
    · exact ((hlist.call .translate).behind _).concat _
    · exact (hlist.behind _).concat _

mutual

/-- **Each reference has one place.**  It is captured there exactly if it has one of the captured
names and stands in an argument of a method call. -/
theorem Expr.places_scoped : (e : Expr) → e.Shaped → e.Resolved →
    ∀ {wrappers : List Wrapper} {inMethod : Bool}, CapturesIn wrappers inMethod →
      Shows wrappers e.scoped (e.references inMethod)
  | .null _, _, _, _, _, _ => Shows.code _
  | .number .., _, _, _, _, _ | .string .., _, _, _, _, _ => Shows.given _
  | .identifier name span, _, _, _, _, hwrappers => Shows.reference hwrappers name span
  | .unary op operand _, h, hcalls, _, _, hwrappers =>
    (operand.places_scoped h hcalls hwrappers).call op.helper
  | .binary op left right _, h, hcalls, _, _, hwrappers =>
    (((left.places_scoped h.1 hcalls.1 hwrappers).concat ", ").append
      (right.places_scoped h.2 hcalls.2 hwrappers)).call op.helper
  | .call callee args isMethod _, h, hcalls, wrappers, inMethod, hwrappers => by
    obtain ⟨rfl, hcallee, hargs, -⟩ := h
    obtain ⟨-, hcalls⟩ := hcalls
    rw [if_neg Bool.false_ne_true, Expr.builtin?_text hcallee] at hcalls
    rw [Expr.scoped, Expr.references, callScoped, if_neg Bool.false_ne_true,
      Expr.builtin?_text hcallee, Expr.usedArguments, Bool.or_false, Bool.false_or]
    cases hname : callee.function? with
    | none =>
      rw [hname] at hcalls
      exact hcalls.elim
    | some name =>
      rw [hname] at hcalls
      dsimp only at hcalls
      -- the name tells which arguments are looked at, and inside which functions
      refine shows_builtinScoped (fun hne => ?_) fun heq => ?_
      · rw [bne_iff_ne.mpr hne] at hcalls
        exact places_argumentScopes args hargs hcalls hwrappers
      · rw [heq] at hcalls
        exact places_argumentScopes args hargs hcalls hwrappers.existence
  | .dot base _ index _, h, hcalls, _, _, hwrappers =>
    (base.places_scoped h.1 hcalls.1 hwrappers).accessor
      (index.places_scoped h.2.1 hcalls.2 hwrappers) _ _ _
  | .element _ index _, h, hcalls, _, _, hwrappers =>
    (Shows.code "null").accessor (index.places_scoped h.2.1 hcalls hwrappers) _ _ _
  | .descendant base _ index _, h, hcalls, _, _, hwrappers =>
    (base.places_scoped h.1 hcalls.1 hwrappers).accessor
      (index.places_scoped h.2.2 hcalls.2 hwrappers) _ _ _
  | .method receiver call _, h, hcalls, _, inMethod, hwrappers => by
    have hreceiver := receiver.places_scoped h.1 hcalls.1 hwrappers.method
    have hcall := call.places_methodScoped h.2 hcalls.2 inMethod hwrappers.method.callback
    exact ((((hreceiver.behind _).concat _).append ((hcall.behind _).concat _).wrapped).concat
      _).wrapped

theorem Expr.places_methodScoped : (e : Expr) → e.ShapedMethod → e.Resolved →
    ∀ {wrappers : List Wrapper} (inMethod : Bool), CapturesIn wrappers true →
      Shows wrappers e.scoped (e.references inMethod)
  | .call callee args isMethod _, h, hcalls, wrappers, inMethod, hwrappers => by
    obtain ⟨rfl, -, hargs, -⟩ := h
    obtain ⟨-, hcalls⟩ := hcalls
    rw [if_pos rfl] at hcalls
    rw [Expr.scoped, Expr.references, callScoped, if_pos rfl, Expr.usedArguments, Bool.true_or,
      if_pos rfl, Bool.or_true]
    have hlists := places_argumentScopes args hargs hcalls hwrappers
    have hlist := Shows.commaSeparated
      (Shows.methodArguments hlists id (objectMask callee.text))
    exact (((Shows.given _).concat "(").append hlist).concat ")"

theorem Index.places_scoped : (index : Index) → index.Shaped → index.Resolved →
    ∀ {wrappers : List Wrapper} {inMethod : Bool}, CapturesIn wrappers inMethod →
      Shows wrappers index.scoped (index.references inMethod)
  | .none, _, _, _, _, _ | .star, _, _, _, _, _ => Shows.code _
  | .entry _ expr, h, hcalls, _, _, hwrappers => (expr.places_scoped h hcalls hwrappers).behind _

theorem places_argumentScopes : (args : List Expr) → ShapedArguments args →
    ∀ {all : Bool}, ResolvedArguments all args →
    ∀ {wrappers : List Wrapper} {inMethod : Bool}, CapturesIn wrappers inMethod →
      List.Forall₂ (Shows wrappers)
        (if all then argumentScopes args else (argumentScopes args).take 1)
        (if all then argumentReferences inMethod args
          else (argumentReferences inMethod args).take 1)
  | [], _, all, _, _, _, _ => by cases all <;> exact .nil
  | arg :: rest, h, all, hcalls, _, _, hwrappers => by
    have harg := arg.places_scoped h.1 hcalls.1 hwrappers
    cases all with
    | true => exact .cons harg (places_argumentScopes rest h.2 (hcalls.2 rfl) hwrappers)
    | false => exact .cons harg .nil

end

end FormCalc
