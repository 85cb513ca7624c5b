import FormCalc.Proofs.Host.Builtin
import FormCalc.Proofs.Output.Literal
import FormCalc.Proofs.Output.Names
import FormCalc.Proofs.Output.Scan
import FormCalc.Proofs.Tree.Shape

/-!
# Scripts come to the end of their scan

The marked text of every parsed script is scanned to its end.  What is fixed in it is scanned
once and for all, so it is enough to follow the scan from one piece to the next.

* `Markup.Whole`: behind anything but a `t`, the scan goes over a text and leaves no bracket open.
* `Markup.Settled`: it does so, and the last character is no `t`.
* `Expr.whole_markup`, `Stmt.settled_markup`: expressions are whole, and statements are settled.

A bare name may end in a `t`, so an expression is whole and no more.  What is written behind an
expression is therefore scanned from both sides (`Reads.closing`).
-/

namespace FormCalc

open Host Markup

/-! ### Whole and settled texts -/

namespace Markup

/-- Whether the scan goes over a text behind anything but a `t`, and leaves no bracket open. -/
def Whole (m : Markup) : Prop := ∃ flag, Reads ⟨[], false⟩ ⟨[], flag⟩ m

/-- Whether the scan goes over a text behind anything but a `t`, leaves no bracket open, and the
last character is no `t` either. -/
def Settled (m : Markup) : Prop := Reads ⟨[], false⟩ ⟨[], false⟩ m

variable {m first second : Markup} {s s' : Scan} {pending : List Char}

theorem Settled.whole (h : m.Settled) : m.Whole := ⟨false, h⟩

/-- Brackets that are open around a settled text stay open. -/
theorem Settled.within (h : m.Settled) (pending : List Char) :
    Reads ⟨pending, false⟩ ⟨pending, false⟩ m := h.under pending

theorem Settled.append (hfirst : first.Settled) (hsecond : second.Settled) :
    (first ++ second).Settled := Reads.append hfirst hsecond

theorem Settled.part (h : m.Settled) : (part m).Settled := Reads.part h

theorem Whole.part (h : m.Whole) : (part m).Whole := by
  obtain ⟨flag, hm⟩ := h
  exact ⟨flag, Reads.part hm⟩

/-- Fixed text, character by character. -/
theorem Reads.fixed {cs : List Char} (h : s.run cs = some s') :
    Reads s s' (Markup.code (String.ofList cs)) :=
  .code (by rwa [String.toList_ofList])

/-- Fixed text that is scanned alike behind a `t` and behind anything else. -/
theorem Reads.closing {cs : List Char} (h : ∀ flag, (⟨pending, flag⟩ : Scan).run cs = some s') :
    ∀ flag, Reads ⟨pending, flag⟩ s' (Markup.code (String.ofList cs)) := fun flag => .fixed (h flag)

theorem settled_empty : (Markup.code "").Settled := .fixed rfl

/-- A whole text between two others. -/
theorem Whole.between (h : m.Whole) (hfirst : Reads s ⟨pending, false⟩ first)
    (hsecond : ∀ flag, Reads ⟨pending, flag⟩ s' second) : Reads s s' (first ++ m ++ second) := by
  obtain ⟨flag, hm⟩ := h
  exact (hfirst.append (hm.under pending)).append (hsecond flag)

/-- A whole text in front of another. -/
theorem Whole.before (h : m.Whole) (hsecond : ∀ flag, Reads ⟨pending, flag⟩ s' second) :
    Reads ⟨pending, false⟩ s' (m ++ second) := by
  obtain ⟨flag, hm⟩ := h
  exact (hm.under pending).append (hsecond flag)

/-- A whole text behind another. -/
theorem Whole.behind (h : m.Whole) (hfirst : first.Settled) : (first ++ m).Whole := by
  obtain ⟨flag, hm⟩ := h
  exact ⟨flag, Reads.append hfirst hm⟩

end Markup

/-! ### Names, numbers and strings -/

/-- Characters that are no brackets and no points are passed. -/
theorem Scan.run_plain {cs : List Char}
    (h : ∀ c ∈ cs, (∀ pending, nest pending c = some pending) ∧ c ≠ '.') (s : Scan) : ∃ flag, s.run cs = some ⟨s.pending, flag⟩ := by
  induction cs generalizing s with
  | nil => exact ⟨s.behindT, rfl⟩
  | cons c cs ih =>
    obtain ⟨⟨hnest, hpoint⟩, hcs⟩ := List.forall_mem_cons.mp h
    have hstep : s.step c cs = some ⟨s.pending, c == 't'⟩ :=
      Scan.step_of (fun _ hc => absurd hc hpoint) (hnest s.pending)
    obtain ⟨flag, hrun⟩ := ih hcs ⟨s.pending, c == 't'⟩
    exact ⟨flag, Option.bind_eq_some_iff.mpr ⟨_, hstep, hrun⟩⟩

/-- Characters that are neither brackets nor a `t` are passed, points among them. -/
theorem Scan.run_pointed {cs : List Char}
    (h : ∀ c ∈ cs, (∀ pending, nest pending c = some pending) ∧ c ≠ 't') (pending : List Char) :
    (⟨pending, false⟩ : Scan).run cs = some ⟨pending, false⟩ := by
  induction cs with
  | nil => rfl
  | cons c cs ih =>
    obtain ⟨⟨hnest, hc⟩, hcs⟩ := List.forall_mem_cons.mp h
    have hstep : (⟨pending, false⟩ : Scan).step c cs = some ⟨pending, c == 't'⟩ :=
      Scan.step_of (fun ht _ => by cases ht) (hnest pending)
    rw [beq_eq_false_iff_ne.mpr hc] at hstep
    exact Option.bind_eq_some_iff.mpr ⟨_, hstep, ih hcs⟩

/-- The brackets. -/
def brackets : List Char := ['(', ')', '[', ']', '\x7b', '\x7d']

theorem nest_of_not_mem {c : Char} (h : c ∉ brackets) (pending : List Char) :
    nest pending c = some pending := by
  simp only [brackets, List.mem_cons, List.not_mem_nil, or_false, not_or] at h
  obtain ⟨h₁, h₂, h₃, h₄, h₅, h₆⟩ := h
  have hopen : closer? c = none := by
    unfold closer?
    split <;> first | rfl | contradiction
  have hclose : isCloser c = false := by
    simp [isCloser, h₂, h₄, h₆]
  unfold nest
  rw [hopen, hclose]
  rfl

/-- A class of characters that has no bracket in it, and not the character `x`. -/
theorem nest_of_class {inClass : Char → Bool} {x c : Char}
    (hnone : (x :: brackets).any inClass = false) (h : inClass c = true) :
    (∀ pending, nest pending c = some pending) ∧ c ≠ x := by
  have hc : c ∉ x :: brackets := fun hc => List.any_eq_false.mp hnone c hc h
  rw [List.mem_cons, not_or] at hc
  exact ⟨nest_of_not_mem hc.2, hc.1⟩

/-- A character of a name is neither a bracket nor a point. -/
theorem plain_of_isIdentifierChar {c : Char}
    (h : Text.isIdentifierStart c = true ∨ Text.isIdentifierPart c = true) :
    (∀ pending, nest pending c = some pending) ∧ c ≠ '.' := by
  rcases h with hstart | hpart
  · exact nest_of_class (by decide) hstart
  · exact nest_of_class (by decide) hpart

theorem settled_number {raw : String} (h : IsLexeme .number raw) : (code raw).Settled :=
  .code (Scan.run_pointed (fun c hc => nest_of_class (by decide) (h.isNumberChar c hc)) [])

theorem settled_literal {raw : String} (h : IsLexeme .string raw) :
    (literal (quotedText raw)).Settled := by
  obtain ⟨c, cs, htext, hread⟩ := h
  have hverdict : (Lexeme.read c cs).verdict = .ok .string := by rw [hread]
  obtain ⟨interior, hinterior, hpairs⟩ := Lexeme.exists_interior_read hverdict
  rw [hread, ← htext] at hinterior
  exact .literal ⟨_, toList_quotedText hinterior hpairs⟩

/-- The scan passes a name, whatever stands in front of it. -/
theorem whole_name {name : String}
    (h : ∀ c ∈ name.toList, Text.isIdentifierStart c = true ∨ Text.isIdentifierPart c = true) :
    (code name).Whole := by
  obtain ⟨flag, hrun⟩ :=
    Scan.run_plain (fun c hc => plain_of_isIdentifierChar (h c hc)) ⟨[], false⟩
  exact ⟨flag, .code hrun⟩

theorem whole_declaredName {name : String} (h : IsName name) : (code (declaredName name)).Whole :=
  whole_name (isIdentifierChar_declaredName h)

theorem whole_referencedName {name : String} (h : IsName name) :
    (code (referencedName name)).Whole := by
  unfold referencedName
  cases hlookup : objectNames.lookup name with
  | none => exact whole_declaredName h
  | some object =>
    have hobjects : ∀ entry ∈ objectNames, ∃ flag,
        (⟨[], false⟩ : Scan).run entry.2.toList = some ⟨[], flag⟩ := by
      decide +kernel
    obtain ⟨flag, hrun⟩ := hobjects _ (mem_of_lookup hlookup)
    exact ⟨flag, .code hrun⟩

theorem settled_quoted {mark name : String} (hmark : mark = "\"" ∨ mark = "\"#") (h : IsName name) :
    (code (mark ++ name ++ "\"")).Settled := by
  obtain ⟨flag, hname⟩ := Scan.run_plain
    (fun c hc => plain_of_isIdentifierChar (h.isIdentifierChar c hc)) ⟨[], false⟩
  have hopen : (⟨[], false⟩ : Scan).run mark.toList = some ⟨[], false⟩ := by
    rcases hmark with rfl | rfl <;> rfl
  have hclose : (⟨[], flag⟩ : Scan).run "\"".toList = some ⟨[], false⟩ := by
    cases flag <;> rfl
  refine .code ?_
  rw [String.toList_append, String.toList_append]
  exact Scan.run_append (Scan.run_append hopen hname) hclose

/-! ### Members of the host's object -/

/-- A word in front of a parenthesis is read to its end. -/
theorem callsMember_of_word {name : String} (hmember : isMember name = true)
    (hword : ∀ c ∈ name.toList, isWordChar c = true) :
    callsMember (name.toList ++ ['(']) = true := by
  have hparen : Stops isWordChar ['('] := by
    intro d hd
    obtain rfl := Option.some.inj hd
    rfl
  rw [callsMember, takeWhile_exact hword hparen, dropWhile_exact hword hparen,
    String.ofList_toList, hmember]
  rfl

/-- A call of a member of the host's object opens a parenthesis. -/
theorem reads_member {name : String} (hmember : isMember name = true)
    (hword : ∀ c ∈ name.toList, isWordChar c = true) :
    Reads ⟨[], false⟩ ⟨[')'], false⟩ (code (memberText name ++ "(")) := by
  have hplain : ∀ c ∈ name.toList, (∀ pending, nest pending c = some pending) ∧ c ≠ '.' :=
    fun c hc => nest_of_class (by decide) (hword c hc)
  have hobject : (⟨[], false⟩ : Scan).run objectName.toList = some ⟨[], true⟩ := by decide +kernel
  obtain ⟨flag, hname⟩ := Scan.run_plain hplain ⟨[], false⟩
  have hparen : (⟨[], flag⟩ : Scan).run ['('] = some ⟨[')'], false⟩ := by cases flag <;> rfl
  have hpoint : (⟨[], true⟩ : Scan).step '.' (name.toList ++ ['(']) = some ⟨[], false⟩ :=
    Scan.step_of (fun _ _ => callsMember_of_word hmember hword) rfl
  have hrest : (⟨[], true⟩ : Scan).run ('.' :: (name.toList ++ ['('])) = some ⟨[')'], false⟩ :=
    Option.bind_eq_some_iff.mpr ⟨_, hpoint, Scan.run_append hname hparen⟩
  have htext : (memberText name ++ "(").toList =
      objectName.toList ++ '.' :: (name.toList ++ ['(']) := by
    simp [memberText]
  refine .code ?_
  rw [htext]
  exact Scan.run_append hobject hrest

theorem Host.Helper.mem_all (helper : Helper) : helper ∈ Helper.all := by
  cases helper <;> decide

theorem reads_helper (helper : Helper) :
    Reads ⟨[], false⟩ ⟨[')'], false⟩ (code (memberText helper.name ++ "(")) := by
  have hword : helper.name.toList.all isWordChar = true := by cases helper <;> decide
  refine reads_member ?_ (List.all_eq_true.mp hword)
  have hany : Helper.all.any (·.name == helper.name) = true :=
    List.any_eq_true.mpr ⟨helper, helper.mem_all, beq_self_eq_true _⟩
  rw [isMember, hany, Bool.true_or]

theorem reads_builtin {spelling : String} (h : spelling ∈ builtins) :
    Reads ⟨[], false⟩ ⟨[')'], false⟩ (code (memberText spelling ++ "(")) := by
  have hwords : builtins.toList.all (fun spelling => spelling.toList.all isWordChar) = true := by
    decide +kernel
  have hword := List.all_eq_true.mp hwords spelling (Array.mem_toList_iff.mpr h)
  refine reads_member ?_ (List.all_eq_true.mp hword)
  rw [isMember, Array.contains_iff_mem.mpr h, Bool.or_true]

/-! ### Punctuation -/

theorem reads_comma : ∀ flag, Reads ⟨[], flag⟩ ⟨[], false⟩ (code ", ") := .closing (by decide)

theorem reads_semicolon : ∀ flag, Reads ⟨[], flag⟩ ⟨[], false⟩ (code ";\n") := .closing (by decide)

theorem reads_equals (pending : List Char) :
    ∀ flag, Reads ⟨pending, flag⟩ ⟨pending, false⟩ (code " = ") := by
  have hequals : ∀ flag, Reads ⟨[], flag⟩ ⟨[], false⟩ (code " = ") := .closing (by decide)
  exact fun flag => (hequals flag).under pending

theorem reads_open : ∀ flag, Reads ⟨[], flag⟩ ⟨[')'], false⟩ (code "(") := .closing (by decide)

theorem reads_close : ∀ flag, Reads ⟨[')'], flag⟩ ⟨[], false⟩ (code ")") := .closing (by decide)

/-- The parenthesis behind the head of a statement ends its line. -/
theorem reads_closeLine (pending : List Char) :
    ∀ flag, Reads ⟨')' :: pending, flag⟩ ⟨pending, false⟩ (code ")\n") := by
  have hclose : ∀ flag, Reads ⟨[')'], flag⟩ ⟨[], false⟩ (code ")\n") := .closing (by decide)
  exact fun flag => (hclose flag).under pending

/-! ### Expressions -/

section Expressions

variable {m target value callee base name index receiver call : Markup} {args : List Markup}

theorem settled_callMarkup (helper : Helper) (h : m.Whole) : (helper.callMarkup m).Settled :=
  h.between (reads_helper helper) reads_close

theorem whole_commaSeparated (h : ∀ arg ∈ args, arg.Whole) :
    (Markup.commaSeparated args).Whole := by
  induction args with
  | nil => exact settled_empty.whole
  | cons first rest ih =>
    obtain ⟨hfirst, hrest⟩ := List.forall_mem_cons.mp h
    cases rest with
    | nil => exact hfirst
    | cons second rest => exact (ih hrest).behind (hfirst.before reads_comma)

theorem settled_keptMarkup (keep : Bool) : (keptMarkup keep).Settled := by
  cases keep with
  | true => exact .fixed (by decide)
  | false => exact settled_empty

theorem settled_assignedMarkup (htarget : target.Whole) (hvalue : value.Whole) :
    (assignedMarkup target value).Settled := by
  refine settled_callMarkup _ (whole_commaSeparated ?_)
  exact List.forall_mem_cons.mpr ⟨htarget, List.forall_mem_singleton.mpr hvalue⟩

/-- The branch for an object, and the one for a variable that holds none. -/
theorem settled_assignmentMarkup (keep isVariable : Bool) (htarget : target.Whole)
    (hvalue : value.Whole) : (assignmentMarkup keep isVariable target value).Settled := by
  have hif : Reads ⟨[], false⟩ ⟨[')'], false⟩ (code "if (") := .fixed (by decide)
  have hthen : Reads ⟨[')'], false⟩ ⟨['\x7d'], false⟩ (code ")\n\x7b\n") := .fixed (by decide)
  have helse : Reads ⟨[], false⟩ ⟨['\x7d'], false⟩ (code "else\n\x7b\n") :=
    .fixed (by decide)
  have hend : Reads ⟨['\x7d'], false⟩ ⟨[], false⟩ (code ";\n\x7d\n") := .fixed (by decide)
  have hkept := (settled_keptMarkup keep).within ['\x7d']
  have hassigned := (settled_assignedMarkup htarget hvalue).within ['\x7d']
  have hobject := (settled_callMarkup Helper.isObj htarget).within [')']
  refine Reads.append (((((hif.append hobject).append hthen).append hkept).append
    hassigned).append hend) ?_
  split
  · exact ((htarget.between (helse.append hkept) (reads_equals _)).append hassigned).append hend
  · exact settled_empty

theorem whole_methodArguments (mask : Nat) (h : ∀ arg ∈ args, arg.Whole) :
    ∀ arg ∈ args.mapIdx (methodArgumentMarkup mask), arg.Whole := by
  intro arg harg
  obtain ⟨i, hi, rfl⟩ := List.mem_mapIdx.mp harg
  exact (settled_callMarkup _ (h _ (List.getElem_mem hi))).whole

theorem settled_methodCallMarkup (hname : name.Whole) (h : ∀ arg ∈ args, arg.Whole) :
    (methodCallMarkup name args).Settled :=
  (whole_commaSeparated (whole_methodArguments _ h)).between (hname.before reads_open) reads_close

theorem settled_builtinMarkup {spelling : String} (hspelling : spelling ∈ builtins)
    (h : ∀ arg ∈ args, arg.Whole) : (builtinMarkup spelling args).Settled := by
  have hargs := whole_commaSeparated h
  unfold builtinMarkup
  split
  · have heval : Reads ⟨[], false⟩ ⟨[')'], false⟩ (code "eval.call(this, ") :=
      .fixed (by decide)
    exact (settled_callMarkup _ hargs).whole.between heval reads_close
  · split
    · rename_i hexists
      subst hexists
      -- the test runs in a function, inside a block of its own
      have htry : Reads ⟨[')'], false⟩ ⟨['\x7d', '\x7d', ')', ')'], false⟩
          (code "\n(\nfunction ()\n\x7b\ntry\n\x7b\nreturn ") := .fixed (by decide)
      have hcatch : ∀ flag, Reads ⟨['\x7d', '\x7d', ')', ')'], flag⟩ ⟨[], false⟩ (code
          ";\n\x7d\ncatch(accessExceptions)\n\x7b\nreturn 0;\n\x7d\n\x7d\n).call(this)\n)") :=
        .closing (by decide)
      have hfirst : (args.headD (code "0")).Whole := by
        cases args with
        | nil => exact ⟨false, .fixed rfl⟩
        | cons first rest => exact (List.forall_mem_cons.mp h).1
      exact hfirst.between ((reads_builtin hspelling).append htry) hcatch
    · exact hargs.between (reads_builtin hspelling) reads_close

theorem settled_callMarkup_callee (isMethod : Bool) (hcallee : isMethod = true → callee.Whole)
    (h : ∀ arg ∈ args, arg.Whole) : (callMarkup isMethod callee args).Settled := by
  cases isMethod with
  | true => exact settled_methodCallMarkup (hcallee rfl) h
  | false =>
    unfold callMarkup
    rw [if_neg Bool.false_ne_true]
    cases hbuiltin : builtin? callee.text with
    | none => exact settled_empty
    | some spelling => exact settled_builtinMarkup (builtin_spec hbuiltin).1 h

theorem settled_accessorMarkup (helper : Helper) (hbase : base.Whole) (hname : name.Whole)
    {member : String} (hmember : (code member).Settled) (hindex : index.Whole) :
    (accessorMarkup helper base name member index).Settled := by
  have hopen : ∀ flag, Reads ⟨[], flag⟩ ⟨[], false⟩ (code ", \"") := .closing (by decide)
  have hclose : ∀ flag, Reads ⟨[], flag⟩ ⟨[], false⟩ (code "\", ") := .closing (by decide)
  refine settled_callMarkup helper (hindex.behind ?_)
  exact ((hname.between (hbase.before hopen) hclose).append hmember).append (reads_comma false)

theorem settled_methodMarkup (hreceiver : receiver.Whole) (hcall : call.Whole) :
    (methodMarkup receiver call).Settled := by
  have hrunner : Reads ⟨[], false⟩ ⟨[')', '\x7d', ')'], false⟩
      (code "(function() \x7b\n  return pfm_method_runner(") := .fixed (by decide)
  have hfunction : ∀ flag, Reads ⟨[')', '\x7d', ')'], flag⟩
      ⟨['\x7d', ')', '\x7d', ')'], false⟩ (code ", function(obj) \x7b\n    return obj.") :=
    .closing (by decide)
  have hend : ∀ flag, Reads ⟨['\x7d', ')', '\x7d', ')'], flag⟩ ⟨[], false⟩
      (code ";\n  \x7d);\n\x7d).call(this)") := .closing (by decide)
  exact hcall.between (hreceiver.between hrunner hfunction) hend

end Expressions

/-- What an accessor of a parsed tree selects. -/
theorem Member.settled_quoted {base : Expr} {index : Index} {member : Member}
    (h : member.Selects base index) : (code member.quoted).Settled := by
  cases member with
  | named name => exact FormCalc.settled_quoted (.inl rfl) h
  | hash name => exact FormCalc.settled_quoted (.inr rfl) h
  | star => exact .fixed (by decide)
  | callResult => exact .fixed (by decide)

mutual

theorem Expr.whole_markup : (e : Expr) → e.Shaped → e.markup.Whole
  | .null _, _ => Whole.part ⟨false, .fixed (by decide)⟩
  | .number .., h => (settled_number h).whole.part
  | .string .., h => (settled_literal h).whole.part
  | .identifier .., h => (whole_referencedName h).part
  | .unary op operand _, h => (settled_callMarkup _ (operand.whole_markup h)).whole.part
  | .binary op left right _, h => by
    have hleft := (left.whole_markup h.1).before reads_comma
    exact (settled_callMarkup _ ((right.whole_markup h.2).behind hleft)).whole.part
  | .assign .., h => h.elim
  | .call callee args isMethod _, h => by
    obtain ⟨rfl, -, hargs, -⟩ := h
    exact (settled_callMarkup_callee false (absurd · Bool.false_ne_true)
      (whole_argumentMarkups args hargs)).whole.part
  | .dot base member index _, h =>
    (settled_accessorMarkup _ (base.whole_markup h.1) (base.whole_name_markup h.1)
      (Member.settled_quoted h.2.2) (index.whole_markup h.2.1)).whole.part
  | .element member index _, h => by
    obtain ⟨⟨name, rfl, hname⟩, hindex, -⟩ := h
    exact (settled_accessorMarkup _ ⟨false, .fixed (by decide)⟩ settled_empty.whole
      (settled_quoted (.inl rfl) hname) (index.whole_markup hindex)).whole.part
  | .descendant base name index _, h =>
    (settled_accessorMarkup _ (base.whole_markup h.1) (base.whole_name_markup h.1)
      (settled_quoted (.inl rfl) h.2.1) (index.whole_markup h.2.2)).whole.part
  | .method receiver call _, h =>
    (settled_methodMarkup (receiver.whole_markup h.1)
      (call.whole_markup_of_shapedMethod h.2)).whole.part

/-- A base that is a bare name is written a second time. -/
theorem Expr.whole_name_markup (e : Expr) (h : e.Shaped) :
    (if e.identifier?.isSome then e.markup else code "").Whole := by
  split
  · exact e.whole_markup h
  · exact settled_empty.whole

/-- In the second half of a method call the callee is written as it is. -/
theorem Expr.whole_markup_of_shapedMethod : (e : Expr) → e.ShapedMethod → e.markup.Whole
  | .call callee args isMethod _, h => by
    obtain ⟨rfl, ⟨name, span, rfl, hname⟩, hargs, -⟩ := h
    exact (settled_callMarkup_callee true (fun _ => (whole_referencedName hname).part)
      (whole_argumentMarkups args hargs)).whole.part
  | .null _, h | .number .., h | .string .., h | .identifier .., h | .unary .., h
  | .binary .., h | .assign .., h | .dot .., h | .element .., h | .descendant .., h
  | .method .., h => h.elim

theorem Index.whole_markup : (index : Index) → index.Shaped → index.markup.Whole
  | .none, _ | .star, _ => ⟨false, .fixed (by decide)⟩
  | .entry mode expr, h => by
    have hmode : (code mode.digit).Settled := by
      cases mode <;> exact .fixed rfl
    exact (expr.whole_markup h).behind (hmode.append (reads_comma false))

theorem whole_argumentMarkups : (args : List Expr) → ShapedArguments args →
    ∀ arg ∈ argumentMarkups args, arg.Whole
  | [], _ => nofun
  | arg :: rest, h =>
    List.forall_mem_cons.mpr ⟨arg.whole_markup h.1, whole_argumentMarkups rest h.2⟩

end

/-! ### Statements -/

section Statements

variable {value start stop step body : Markup} {name : String}

theorem Expr.settled_valueMarkup {e : Expr} (h : e.Shaped) : e.valueMarkup.Settled :=
  settled_callMarkup _ (e.whole_markup h)

theorem settled_resetMarkup (keep : Bool) : (resetMarkup keep).Settled := by
  cases keep with
  | true => exact .fixed (by decide)
  | false => exact settled_empty

theorem Expr.settled_conditionMarkup {keyword : String}
    (hkeyword : keyword = "if" ∨ keyword = "else if") {cond : Expr} (h : cond.Shaped) :
    (cond.conditionMarkup keyword).Settled := by
  have hword : (code keyword).Settled := by
    rcases hkeyword with rfl | rfl <;> exact .fixed (by decide)
  have hopen : Reads ⟨[], false⟩ ⟨[')'], false⟩ (code " (") := .fixed (by decide)
  exact (Expr.settled_valueMarkup h).whole.between (Reads.append hword hopen) (reads_closeLine [])

theorem settled_varMarkup (keep : Bool) (hname : (code name).Whole) {init : Option Markup}
    (hinit : ∀ value ∈ init, value.Whole) : (varMarkup keep name init).Settled := by
  have hvar : (code "var ").Settled := .fixed (by decide)
  refine Settled.append (Settled.append (hname.between hvar (reads_equals [])) ?_) ?_
  · cases init with
    | none => exact .fixed (by decide)
    | some value =>
      have hvalue := (hinit value rfl).before reads_semicolon
      exact ((hname.between hvalue (reads_equals [])).append (settled_callMarkup _ hname)).append
        (reads_semicolon false)
  · split
    · have hkept : (code "pfm_ret = ").Settled := .fixed (by decide)
      exact hname.between hkept reads_semicolon
    · exact settled_empty

theorem Expr.settled_statementMarkup (keep : Bool) {e : Expr} (h : e.ShapedStatement) :
    (e.statementMarkup keep).Settled := by
  -- an assignment is written in its own way, and all others alike
  have hplain : ∀ e : Expr, e.Shaped → (keptMarkup keep ++
      (if keep && e.isAccessor then e.valueMarkup else e.markup) ++ code ";\n").Settled := by
    intro e he
    refine Whole.between ?_ (settled_keptMarkup keep) reads_semicolon
    split
    · exact (Expr.settled_valueMarkup he).whole
    · exact e.whole_markup he
  cases e with
  | assign target value span =>
    exact (settled_assignmentMarkup keep _ (target.whole_markup h.1) (value.whole_markup h.2)).part
  | null | number | string | identifier | unary | binary | call | dot | element | descendant
  | method => exact hplain _ h

theorem settled_functionMarkup (hname : (code name).Whole) {params : List String}
    (hparams : ∀ param ∈ params, (code param).Whole) (hbody : body.Settled) :
    (functionMarkup name params body).Settled := by
  have hfunction : (code "function ").Settled := .fixed (by decide)
  have hbrace : ∀ flag, Reads ⟨[')'], flag⟩ ⟨['\x7d'], false⟩
      (code ") \x7b\nvar pfm_ret = null;\n") := .closing (by decide)
  have hreturn : Reads ⟨['\x7d'], false⟩ ⟨[], false⟩ (code "return pfm_ret;\n\x7d\n") :=
    .fixed (by decide)
  have hlist : (Markup.commaSeparated (params.map code)).Whole :=
    whole_commaSeparated (List.forall_mem_map.mpr hparams)
  exact ((hlist.between (hname.between hfunction reads_open) hbrace).append
    (hbody.within ['\x7d'])).append hreturn

theorem settled_countMarkup (hname : (code name).Whole) (hstart : start.Whole) (hstop : stop.Whole)
    (direction : Direction) (hstep : step.Whole) (hbody : body.Settled) :
    (countMarkup name start stop direction step body).Settled := by
  have hvar : Reads ⟨[], false⟩ ⟨['\x7d'], false⟩ (code "\x7b\nvar ") := .fixed (by decide)
  have hfor : ∀ flag, Reads ⟨['\x7d'], flag⟩ ⟨[')', '\x7d'], false⟩ (code " = null;\nfor (") :=
    .closing (by decide)
  have hnext : ∀ flag, Reads ⟨[')', '\x7d'], flag⟩ ⟨[')', '\x7d'], false⟩ (code "; ") :=
    .closing (by decide)
  have hcompare : ∀ flag, Reads ⟨[')', '\x7d'], flag⟩ ⟨[')', '\x7d'], false⟩
      (code direction.signs.1) := by
    cases direction <;> exact .closing (by decide)
  have hmove : ∀ flag, Reads ⟨[')', '\x7d'], flag⟩ ⟨[')', '\x7d'], false⟩
      (code direction.signs.2) := by
    cases direction <;> exact .closing (by decide)
  have hend : Reads ⟨['\x7d'], false⟩ ⟨[], false⟩ (code "\x7d\n") := .fixed (by decide)
  have hinit := hstart.between (hname.between (hname.between hvar hfor) (reads_equals _)) hnext
  have htest := hstop.between (hname.between hinit hcompare) hnext
  exact ((hstep.between (hname.between htest hmove) (reads_closeLine _)).append
    (hbody.within ['\x7d'])).append hend

theorem settled_eachMarkup (hname : (code name).Whole) {collections : List Markup}
    (hcollections : ∀ collection ∈ collections, collection.Whole) (hbody : body.Settled) :
    (eachMarkup name collections body).Settled := by
  have hvar : Reads ⟨[], false⟩ ⟨['\x7d'], false⟩ (code "\x7b\nvar ") := .fixed (by decide)
  have hlist : ∀ flag, Reads ⟨['\x7d'], flag⟩ ⟨['\x7d'], false⟩
      (code " = null;\nvar pfm_ary = ") := .closing (by decide)
  have hwhile : Reads ⟨['\x7d'], false⟩ ⟨['\x7d', '\x7d'], false⟩
      (code ";\nvar pfm_ary_idx = 0;\nwhile(pfm_ary_idx < pfm_ary.length)\n\x7b\n") :=
    .fixed (by decide)
  have hitem : ∀ flag, Reads ⟨['\x7d', '\x7d'], flag⟩ ⟨['\x7d', '\x7d'], false⟩
      (code " = pfm_ary[pfm_ary_idx++];\n") := .closing (by decide)
  have hend : Reads ⟨['\x7d', '\x7d'], false⟩ ⟨[], false⟩ (code "\x7d\n\x7d\n") :=
    .fixed (by decide)
  have hcall := (settled_callMarkup Helper.concatObj
    (whole_commaSeparated hcollections)).within ['\x7d']
  exact ((hname.between (((hname.between hvar hlist).append hcall).append hwhile) hitem).append
    (hbody.within ['\x7d', '\x7d'])).append hend

theorem whole_stepMarkup {part : Option Expr} (h : ShapedOptional part) :
    ((part.map Expr.valueMarkup).getD (code "1")).Whole := by
  cases part with
  | none => exact ⟨false, .fixed (by decide)⟩
  | some e => exact (Expr.settled_valueMarkup h).whole

theorem whole_optionalMarkup {part : Option Expr} (h : ShapedOptional part) :
    ∀ value ∈ part.map Expr.markup, value.Whole := by
  cases part with
  | none => exact nofun
  | some e =>
    intro value hvalue
    obtain rfl := Option.some.inj hvalue
    exact e.whole_markup h

end Statements

mutual

theorem Stmt.settled_markup (keep : Bool) : (stmt : Stmt) → stmt.Shaped → (stmt.markup keep).Settled
  | .function name params body _, h => by
    obtain ⟨hname, hparams, hbody, -⟩ := h
    have hparams' : ∀ param ∈ params.map declaredName, (code param).Whole :=
      List.forall_mem_map.mpr fun param hparam => whole_declaredName (hparams param hparam)
    exact (settled_functionMarkup (whole_declaredName hname) hparams'
      (settled_stmtsMarkup true body hbody)).part
  | .var _ init _, h =>
    (settled_varMarkup keep (whole_declaredName h.1) (whole_optionalMarkup h.2)).part
  | .expr _ _, h => (Expr.settled_statementMarkup keep h).part
  | .scope body _, h => (body.settled_markup keep h).part
  | .branch _ body otherwise _, h =>
    ((((settled_resetMarkup keep).append (Expr.settled_conditionMarkup (.inl rfl) h.1)).append
      (body.settled_markup keep h.2.1)).append (otherwise.settled_markup keep h.2.2)).part
  | .loop cond body _, h => by
    have hopen : Reads ⟨[], false⟩ ⟨[')'], false⟩ (code "while (") := .fixed (by decide)
    have hcond := (cond.whole_markup h.1).between (Reads.append (settled_resetMarkup keep) hopen)
      (reads_closeLine [])
    exact Settled.part (Settled.append hcond (body.settled_markup keep h.2))
  | .count _ _ _ direction _ body _, h => by
    obtain ⟨hvar, hstart, hstop, hstep, hbody⟩ := h
    exact ((settled_resetMarkup keep).append (settled_countMarkup (whole_declaredName hvar)
      (Expr.settled_valueMarkup hstart).whole (Expr.settled_valueMarkup hstop).whole direction
      (whole_stepMarkup hstep) (body.settled_markup keep hbody))).part
  | .each _ collections body _, h => by
    obtain ⟨hvar, -, hcollections, -, hbody⟩ := h
    exact ((settled_resetMarkup keep).append (settled_eachMarkup (whole_declaredName hvar)
      (whole_argumentMarkups collections hcollections) (body.settled_markup keep hbody))).part
  | .leave _, _ | .skip _, _ => Settled.part (.fixed (by decide))

theorem Block.settled_markup (keep : Bool) :
    (body : Block) → body.Shaped → (body.markup keep).Settled
  | .mk stmts _, h => by
    have hopen : Reads ⟨[], false⟩ ⟨['\x7d'], false⟩ (code "\x7b\n") := .fixed (by decide)
    have hclose : Reads ⟨['\x7d'], false⟩ ⟨[], false⟩ (code "\x7d\n") := .fixed (by decide)
    exact (hopen.append ((settled_stmtsMarkup keep stmts h.1).within ['\x7d'])).append hclose

theorem Otherwise.settled_markup (keep : Bool) :
    (rest : Otherwise) → rest.Shaped → (rest.markup keep).Settled
  | .nothing, _ => settled_empty
  | .last body, h => by
    have helse : (code "else ").Settled := .fixed (by decide)
    exact helse.append (body.settled_markup keep h)
  | .elseIf _ body rest, h =>
    ((Expr.settled_conditionMarkup (.inr rfl) h.1).append (body.settled_markup keep h.2.1)).append
      (rest.settled_markup keep h.2.2)

theorem settled_stmtsMarkup (keep : Bool) :
    (stmts : List Stmt) → ShapedStmts stmts → (stmtsMarkup keep stmts).Settled
  | [], _ => settled_empty
  | stmt :: rest, h => (stmt.settled_markup _ h.1).append (settled_stmtsMarkup keep rest h.2)

end

/-! ### Scripts -/

/-- The prologue opens the function that the statements stand in. -/
theorem reads_prologue : Reads ⟨[], false⟩ ⟨['\x7d', ')'], false⟩ (code prologue) := by
  refine .code ?_
  unfold prologue
  -- the lines as lists of characters, for a long text is slow to evaluate
  repeat rewrite [String.toList_append]
  repeat rewrite [String.toList_ofList]
  decide +kernel

/-- **The scan of a script comes to its end**, with no bracket left open. -/
theorem Program.settled_markup {program : Program} (h : ShapedStmts program.stmts) :
    program.markup.Settled := by
  unfold Program.markup
  split
  · exact .fixed (by decide)
  · have hclose : Reads ⟨['\x7d', ')'], false⟩ ⟨[], false⟩ (code epilogue) :=
      .fixed (by decide)
    exact (reads_prologue.append
      ((settled_stmtsMarkup true program.stmts h).within ['\x7d', ')'])).append hclose

end FormCalc
