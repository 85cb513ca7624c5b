import FormCalc.Proofs.Output.Literal
import FormCalc.Proofs.Output.Relocated
import FormCalc.Proofs.Output.Rendering
import FormCalc.Proofs.Token.Characters
import FormCalc.Proofs.Tree.Callees
import FormCalc.Proofs.Tree.Shape

/-!
# Which call cannot be written

A callee is looked up by its text.  In a parsed tree no text but that of a bare name is the name of
a built-in function, so a call can be written if and only if its callee names one.

* `Expr.builtin?_text`: looking up the text of a callee finds what the callee names.
* `Expr.unknown?`: the fault of a callee that names nothing.
* `Expr.refusal_walk`, `Stmt.refusal_draft`: the first call of a draft that cannot be written is the
  first one in the order of the script.
-/

namespace FormCalc

open Draft Host

/-! ### Texts that are no names of functions -/

/-- Built-in functions are spelled in letters and digits. -/
theorem isAlphanum_of_builtin {name spelling : String} (h : builtin? name = some spelling) :
    ∀ c ∈ name.toList, c.toLower.isAlphanum = true := by
  have hspellings : builtins.toList.all (fun spelling => (lowered spelling).all Char.isAlphanum) =
      true := by
    decide +kernel
  obtain ⟨hmem, hlowered⟩ := builtin_spec h
  have hspelling := List.all_eq_true.mp hspellings spelling (Array.mem_toList_iff.mpr hmem)
  rw [hlowered] at hspelling
  exact fun c hc => List.all_eq_true.mp hspelling _ (List.mem_map_of_mem hc)

theorem builtin?_eq_none {name : String} {c : Char} (hc : c ∈ name.toList)
    (hsign : c.toLower.isAlphanum = false) : builtin? name = none := by
  cases hbuiltin : builtin? name with
  | none => rfl
  | some spelling =>
    rw [isAlphanum_of_builtin hbuiltin c hc] at hsign
    cases hsign

theorem isNumberChar_toLower {c : Char} (h : isNumberChar c = true) :
    isNumberChar c.toLower = true := by
  rcases Bool.or_eq_true_iff.mp h with hdigit | hsign
  · have hsmall : c.val ≤ '9'.val := of_decide_eq_true (Bool.and_eq_true_iff.mp hdigit).2
    have hlower : c.toLower = c :=
      dif_neg fun hupper => absurd (UInt32.le_trans hupper.1 hsmall) (by decide)
    rw [hlower]
    exact h
  · have hsigns : ['.', 'e', 'E', '+', '-'].all (isNumberChar ·.toLower) = true := by decide
    exact List.all_eq_true.mp hsigns c (List.contains_iff_mem.mp hsign)

/-- No built-in function is spelled like a number. -/
theorem builtin?_number {raw : String} (h : IsLexeme .number raw) : builtin? raw = none := by
  have hspellings : builtins.toList.all (fun spelling => (lowered spelling).any (!isNumberChar ·)) =
      true := by
    decide +kernel
  cases hbuiltin : builtin? raw with
  | none => rfl
  | some spelling =>
    exfalso
    obtain ⟨hmem, hlowered⟩ := builtin_spec hbuiltin
    have hspelling := List.all_eq_true.mp hspellings spelling (Array.mem_toList_iff.mpr hmem)
    obtain ⟨c, hc, hnot⟩ := List.any_eq_true.mp hspelling
    rw [hlowered] at hc
    obtain ⟨d, hd, rfl⟩ := List.mem_map.mp hc
    rw [isNumberChar_toLower (h.isNumberChar d hd)] at hnot
    cases hnot

theorem builtin?_quotedText {raw : String} (h : IsLexeme .string raw) :
    builtin? (quotedText raw) = none := by
  obtain ⟨c, cs, htext, hread⟩ := h
  have hverdict : (Lexeme.read c cs).verdict = .ok .string := by rw [hread]
  obtain ⟨interior, hinterior, hpairs⟩ := Lexeme.exists_interior_read hverdict
  rw [hread, ← htext] at hinterior
  refine builtin?_eq_none (c := '"') ?_ rfl
  rw [toList_quotedText hinterior hpairs]
  exact List.mem_cons_self

theorem builtin?_callText (helper : Helper) (args : String) :
    builtin? (helper.callText args) = none := by
  refine builtin?_eq_none (c := '(') ?_ rfl
  simp [Helper.callText]

theorem builtin?_builtinText (spelling : String) (args : List String) :
    builtin? (builtinText spelling args) = none := by
  refine builtin?_eq_none (c := '(') ?_ rfl
  unfold builtinText
  split
  · simp
  · split <;> simp

theorem builtin?_methodText (receiver call : String) :
    builtin? (methodText receiver call) = none := by
  have hparen : '(' ∈ ";\n  \x7d);\n\x7d).call(this)".toList := by decide
  refine builtin?_eq_none (c := '(') ?_ rfl
  unfold methodText
  simp only [String.toList_append, List.mem_append, hparen, or_true]

/-- What stands for an object or for an exclamation mark in front of a name is no function, and
neither is a name of a form's object. -/
theorem builtin?_referencedName (name : String) :
    builtin? (referencedName name) = builtin? name := by
  unfold referencedName
  cases hobject : objectNames.lookup name with
  | some spelling =>
    have hobjects : ∀ entry ∈ objectNames, builtin? entry.1 = none ∧ builtin? entry.2 = none := by
      decide +kernel
    obtain ⟨hname, hspelling⟩ := hobjects _ (mem_of_lookup hobject)
    exact hspelling.trans hname.symm
  | none =>
    dsimp only [Option.getD]
    unfold declaredName
    split
    · rename_i rest hname
      have hmark : '!' ∈ name.toList := by
        rw [hname]
        exact List.mem_cons_self
      rw [builtin?_eq_none hmark rfl]
      exact builtin?_eq_none (c := '_') (by simp [exclamationText]) rfl
    · rfl

/-- **A callee is known by its text.** -/
theorem Expr.builtin?_text {e : Expr} (h : e.Shaped) : builtin? e.text = e.function? := by
  cases e with
  | null span =>
    have hnull : builtin? "null" = none := by decide +kernel
    exact hnull
  | number raw span => exact builtin?_number h
  | string raw span => exact builtin?_quotedText h
  | identifier name span =>
    rw [Expr.text, builtin?_referencedName, builtin?_eq_find?]
    rfl
  | unary op operand span => exact builtin?_callText ..
  | binary op left right span => exact builtin?_callText ..
  | assign target value span => exact h.elim
  | call callee args isMethod span =>
    obtain ⟨rfl, -⟩ := h
    rw [Expr.text, callText, if_neg Bool.false_ne_true]
    split
    · exact builtin?_builtinText ..
    · have hempty : builtin? "" = none := by decide +kernel
      exact hempty
  | dot base member index span => exact builtin?_callText ..
  | element member index span => exact builtin?_callText ..
  | descendant base name index span => exact builtin?_callText ..
  | method receiver call span => exact builtin?_methodText ..

/-! ### Drafts -/

namespace Draft

section Parts

variable (first second body : Draft) (span : Span)

@[simp] theorem refusal_append :
    (first ++ second).refusal = first.refusal.or second.refusal := rfl

@[simp] theorem refusal_text (s : String) : (text s).refusal = none := rfl

@[simp] theorem refusal_empty : empty.refusal = none := rfl

@[simp] theorem refusal_descend : (descend span).refusal = none := rfl

@[simp] theorem refusal_ascend : ascend.refusal = none := rfl

@[simp] theorem refusal_measure : (measure span).refusal = none := rfl

@[simp] theorem refusal_unknown (name : String) :
    (unknown name span).refusal = some ⟨.unknownFunction name, span⟩ := rfl

@[simp] theorem refusal_scratch (use : String → Draft) :
    (scratch body use).refusal = body.refusal.or (use body.plain).refusal := rfl

@[simp] theorem refusal_node : (node span body).refusal = body.refusal := by
  simp [node]

@[simp] theorem refusal_ite (c : Prop) [Decidable c] :
    (if c then first else second).refusal = if c then first.refusal else second.refusal := by
  split <;> rfl

@[simp] theorem refusal_call (helper : Helper) : (helper.call body).refusal = body.refusal := by
  simp [Helper.call]

theorem refusal_separated (separator : String) (ds : List Draft) :
    (separated separator ds).refusal = ds.findSome? refusal := by
  induction ds with
  | nil => rfl
  | cons first rest ih =>
    cases rest with
    | nil => cases hfirst : first.refusal <;> simp [separated, hfirst]
    | cons second rest =>
      rw [separated, refusal_append, refusal_append, refusal_text, ih, Option.or_none,
        List.findSome?_cons (a := first)]
      cases first.refusal <;> rfl

end Parts

end Draft

section Pieces

variable (rights : List (Option Draft)) (args : List Draft) (d target value callee : Draft)
  (span : Span) (name : String)

theorem refusal_measured (e : Expr) : (e.measured d).refusal = d.refusal := by
  simp [Expr.measured]

theorem refusal_operandDraft :
    (operandDraft rights span d).refusal = d.refusal.or (closing rights).refusal := by
  simp [operandDraft]

theorem refusal_assignmentDraft (keep isVariable : Bool) :
    (assignmentDraft keep isVariable target value).refusal =
      target.refusal.or value.refusal := by
  simp [assignmentDraft, assignedText]

theorem refusal_methodArguments (mask i : Nat) :
    (methodArguments mask i args).findSome? refusal = args.findSome? refusal := by
  induction args generalizing i with
  | nil => rfl
  | cons arg rest ih => simp [methodArguments, List.findSome?_cons, ih]

theorem refusal_builtinDraft : (builtinDraft name args).refusal =
    (if name != "Exists" then args else args.take 1).findSome? refusal := by
  unfold builtinDraft
  by_cases heval : name = "Eval"
  · have hname : (name != "Exists") = true := by rw [heval]; rfl
    simp only [if_pos heval, if_pos hname, refusal_append, refusal_text, refusal_call,
      refusal_separated, Option.none_or, Option.or_none]
  · by_cases hexists : name = "Exists"
    · have hname : ¬(name != "Exists") = true := by rw [hexists]; decide
      rw [if_neg heval, if_pos hexists, if_neg hname]
      cases args <;> simp
    · have hname : (name != "Exists") = true := bne_iff_ne.mpr hexists
      simp only [if_neg heval, if_neg hexists, if_pos hname, refusal_append, refusal_text,
        refusal_separated, Option.none_or, Option.or_none]

theorem refusal_accessorDraft (helper : Helper) (isName : Bool) (base index : Draft)
    (member : String) : (accessorDraft helper isName base member index).refusal =
      base.refusal.or index.refusal := by
  cases isName <;> cases hbase : base.refusal <;> simp [accessorDraft, hbase]

theorem refusal_methodDraft (receiver call : Draft) :
    (methodDraft receiver call).refusal = receiver.refusal.or call.refusal := by
  simp [methodDraft]

end Pieces

/-! ### Expressions -/

/-- The fault of a call with this callee, if the callee names no built-in function. -/
def Expr.unknown? (callee : Expr) : Option (Fault OutputCause) :=
  match callee.function? with
  | some _ => none
  | none => some ⟨.unknownFunction callee.text, callee.span⟩

/-- The fault of the first callee that names no built-in function. -/
def firstUnknown (callees : List Expr) : Option (Fault OutputCause) :=
  callees.findSome? Expr.unknown?

@[simp] theorem firstUnknown_nil : firstUnknown [] = none := rfl

@[simp] theorem firstUnknown_append (callees callees' : List Expr) :
    firstUnknown (callees ++ callees') = (firstUnknown callees).or (firstUnknown callees') :=
  List.findSome?_append

/-- Whether drafts refuse what is called first and unknown in the expressions they are made of. -/
def Refuses (ds : List Draft) (lists : List (List Expr)) : Prop :=
  List.Forall₂ (fun d callees => d.refusal = firstUnknown callees) ds lists

theorem Refuses.findSome?_eq {ds : List Draft} {lists : List (List Expr)} (h : Refuses ds lists) :
    ds.findSome? refusal = firstUnknown lists.flatten := by
  induction h with
  | nil => rfl
  | @cons d callees ds lists hfirst hrest ih =>
    rw [List.findSome?_cons, hfirst, ih, List.flatten_cons, firstUnknown_append]
    cases firstUnknown callees <;> rfl

/-- Of the arguments of a call, those that are looked at are those that are written. -/
theorem Refuses.usedArguments {ds : List Draft} {lists : List (List Expr)} (h : Refuses ds lists)
    (callee : Expr) (isMethod : Bool) :
    Refuses (callee.usedArguments isMethod ds) (callee.usedArguments isMethod lists) := by
  unfold Expr.usedArguments
  split
  · exact h
  · exact List.forall₂_take 1 h

/-- A call is refused for what is called in its callee, then for the callee, and then for what is
called in its arguments. -/
theorem refusal_callDraft {callee : Expr} (hcallee : callee.Shaped) {d : Draft}
    (hplain : d.plain = callee.text) (hrefusal : d.refusal = firstUnknown callee.callees)
    {ds : List Draft} {lists : List (List Expr)} (hargs : Refuses ds lists) :
    (callDraft false d callee.span ds).refusal = firstUnknown (callee.callees ++ [callee] ++
      (callee.usedArguments false lists).flatten) := by
  have hused := (hargs.usedArguments callee false).findSome?_eq
  have hsame : builtin? d.plain = callee.function? := by rw [hplain, Expr.builtin?_text hcallee]
  rw [firstUnknown_append, firstUnknown_append, ← hused, ← hrefusal]
  simp only [callDraft, refusal_scratch, Bool.false_eq_true, if_false, hsame]
  cases hfunction : callee.function? with
  | none => simp [firstUnknown, Expr.unknown?, hfunction, hplain]
  | some name =>
    simp [firstUnknown, Expr.unknown?, hfunction, refusal_builtinDraft, Expr.usedArguments]

mutual

/-- **The walk refuses calls in the order of the script.** -/
theorem Expr.refusal_walk : (e : Expr) → e.Shaped → (rights : List (Option Draft)) →
    (e.walk rights).refusal = (firstUnknown e.callees).or (closing rights).refusal
  | .null _, _, _ | .number .., _, _ | .string .., _, _ | .identifier .., _, _ => by
    rw [Expr.walk, refusal_operandDraft, Expr.callees]
    rfl
  | .unary op operand span, h, rights => by
    have hoperand := operand.refusal_walk h (none :: rights)
    simp [Expr.walk, Expr.callees, opening, closing, hoperand]
  | .binary op left right span, h, rights => by
    have hright := right.refusal_walk h.2 []
    have hleft := left.refusal_walk h.1 (some (right.measured (right.walk [])) :: rights)
    simp [Expr.walk, Expr.callees, opening, closing, hleft, hright, refusal_measured,
      Option.or_assoc]
  | .assign target value span, h, rights => h.elim
  | .call callee args isMethod span, h, rights => by
    obtain ⟨rfl, hcallee, hargs, -⟩ := h
    have hplain : (callee.measured (callee.walk [])).plain = callee.text := callee.plain_draft
    have hrefusal : (callee.measured (callee.walk [])).refusal = firstUnknown callee.callees := by
      rw [refusal_measured, callee.refusal_walk hcallee, closing, refusal_empty, Option.or_none]
    rw [Expr.walk, refusal_operandDraft, Expr.callees, if_neg Bool.false_ne_true,
      refusal_callDraft hcallee hplain hrefusal (refuses_argumentDrafts args hargs)]
  | .dot base member index span, h, rights => by
    have hbase := base.refusal_walk h.1 []
    simp [Expr.walk, Expr.callees, refusal_operandDraft, refusal_accessorDraft, refusal_measured,
      hbase, index.refusal_draft h.2.1, closing]
  | .element member index span, h, rights => by
    simp [Expr.walk, Expr.callees, refusal_operandDraft, refusal_accessorDraft,
      index.refusal_draft h.2.1]
  | .descendant base name index span, h, rights => by
    have hbase := base.refusal_walk h.1 []
    simp [Expr.walk, Expr.callees, refusal_operandDraft, refusal_accessorDraft, refusal_measured,
      hbase, index.refusal_draft h.2.2, closing]
  | .method receiver call span, h, rights => by
    have hreceiver := receiver.refusal_walk h.1 []
    have hcall := call.refusal_method h.2
    simp [Expr.walk, Expr.callees, refusal_operandDraft, refusal_methodDraft, refusal_measured,
      hreceiver, hcall, closing]

/-- A method is called by its name, whatever the name is. -/
theorem Expr.refusal_method : (e : Expr) → e.ShapedMethod →
    (e.walk []).refusal = firstUnknown e.callees
  | .call callee args isMethod span, h => by
    obtain ⟨rfl, ⟨name, nameSpan, rfl, -⟩, hargs, -⟩ := h
    have hused := (refuses_argumentDrafts args hargs).findSome?_eq
    simp [Expr.walk, Expr.callees, Expr.usedArguments, refusal_operandDraft, callDraft,
      refusal_separated, refusal_methodArguments, hused, refusal_measured, closing]
  | .null _, h | .number .., h | .string .., h | .identifier .., h | .unary .., h
  | .binary .., h | .assign .., h | .dot .., h | .element .., h | .descendant .., h
  | .method .., h => h.elim

theorem Index.refusal_draft : (index : Index) → index.Shaped →
    index.draft.refusal = firstUnknown index.callees
  | .none, _ | .star, _ => rfl
  | .entry mode expr, h => by
    have hexpr := expr.refusal_walk h []
    simp [Index.draft, Index.callees, refusal_measured, hexpr, closing]

theorem refuses_argumentDrafts : (args : List Expr) → ShapedArguments args →
    Refuses (argumentDrafts args) (argumentCallees args)
  | [], _ => .nil
  | arg :: rest, h => by
    have harg := arg.refusal_walk h.1 []
    refine .cons ?_ (refuses_argumentDrafts rest h.2)
    rw [refusal_measured, harg, closing, refusal_empty, Option.or_none]

end

theorem Expr.refusal_draft {e : Expr} (h : e.Shaped) :
    e.draft.refusal = firstUnknown e.callees := by
  rw [Expr.draft, refusal_measured, e.refusal_walk h, closing, refusal_empty, Option.or_none]

/-! ### Statements -/

section Pieces

variable (keep : Bool) {e cond start stop : Expr} (body : Draft) (span : Span)

theorem refusal_valueDraft (h : e.Shaped) : (valueDraft e).refusal = firstUnknown e.callees := by
  rw [valueDraft, refusal_call, Expr.refusal_draft h]

theorem refusal_resetDraft : (resetDraft keep).refusal = none := by
  simp [resetDraft]

theorem refusal_functionDraft (name : String) (params : List String) :
    (functionDraft name params body).refusal = body.refusal := by
  simp [functionDraft]

theorem refusal_varDraft (name : String) {init : Option Expr} (h : ShapedOptional init) :
    (varDraft keep name init).refusal = firstUnknown (optionalCallees init) := by
  cases init with
  | none => simp [varDraft, optionalCallees]
  | some value => simp [varDraft, optionalCallees, Expr.refusal_draft (show value.Shaped from h)]

theorem refusal_exprDraft (h : e.ShapedStatement) :
    (exprDraft keep e).refusal = firstUnknown e.callees := by
  have hother : e.Shaped → (if keep then text "pfm_ret = " ++
      (if e.isAccessor then valueDraft e else e.draft) ++ text ";\n"
      else e.draft ++ text ";\n").refusal = firstUnknown e.callees := by
    intro h
    simp [refusal_valueDraft h, Expr.refusal_draft h]
  cases e with
  | assign target value span =>
    simp [exprDraft, refusal_assignmentDraft, Expr.refusal_draft h.1, Expr.refusal_draft h.2,
      Expr.callees]
  | null | number | string | identifier | unary | binary | call | dot | element | descendant
  | method => exact hother h

theorem refusal_conditionDraft (keyword : String) (h : cond.Shaped) :
    (conditionDraft keyword cond).refusal = firstUnknown cond.callees := by
  simp [conditionDraft, refusal_valueDraft h]

theorem refusal_loopDraft (h : cond.Shaped) :
    (loopDraft keep cond body span).refusal = (firstUnknown cond.callees).or body.refusal := by
  simp [loopDraft, refusal_resetDraft, Expr.refusal_draft h]

theorem refusal_countDraft (var : String) (hstart : start.Shaped) (hstop : stop.Shaped)
    (direction : Direction) {step : Option Expr} (hstep : ShapedOptional step) :
    (countDraft keep var start stop direction step body span).refusal =
      (firstUnknown (start.callees ++ stop.callees ++ optionalCallees step)).or body.refusal := by
  cases step with
  | none =>
    simp [countDraft, refusal_resetDraft, refusal_valueDraft hstart, refusal_valueDraft hstop,
      optionalCallees]
  | some step =>
    simp [countDraft, refusal_resetDraft, refusal_valueDraft hstart, refusal_valueDraft hstop,
      refusal_valueDraft (show step.Shaped from hstep), optionalCallees, Option.or_assoc]

theorem refusal_eachDraft (var : String) {collections : List Expr}
    (h : ShapedArguments collections) : (eachDraft keep var collections body).refusal =
      (firstUnknown (argumentCallees collections).flatten).or body.refusal := by
  have hlist := (refuses_argumentDrafts collections h).findSome?_eq
  simp [eachDraft, refusal_resetDraft, refusal_separated, hlist]

end Pieces

mutual

theorem Stmt.refusal_draft (keep : Bool) : (stmt : Stmt) → stmt.Shaped →
    (stmt.draft keep).refusal = firstUnknown stmt.callees
  | .function name params body span, h => by
    rw [Stmt.draft, refusal_node, refusal_functionDraft, refusal_stmtsDraft true body h.2.2.1,
      Stmt.callees]
  | .var name init span, h => by
    rw [Stmt.draft, refusal_node, refusal_varDraft keep name h.2, Stmt.callees]
  | .expr expr span, h => by
    rw [Stmt.draft, refusal_node, refusal_exprDraft keep h, Stmt.callees]
  | .scope body span, h => by
    rw [Stmt.draft, refusal_node, body.refusal_draft keep h, Stmt.callees]
  | .branch cond body otherwise span, h => by
    obtain ⟨hcond, hbody, hotherwise⟩ := h
    simp [Stmt.draft, Stmt.callees, refusal_resetDraft, refusal_conditionDraft "if" hcond,
      body.refusal_draft keep hbody, otherwise.refusal_draft keep hotherwise, Option.or_assoc]
  | .loop cond body span, h => by
    rw [Stmt.draft, refusal_node, refusal_loopDraft keep _ span h.1, body.refusal_draft keep h.2,
      Stmt.callees, firstUnknown_append]
  | .count var start stop direction step body span, h => by
    obtain ⟨-, hstart, hstop, hstep, hbody⟩ := h
    rw [Stmt.draft, refusal_node, refusal_countDraft keep _ _ var hstart hstop direction hstep,
      body.refusal_draft keep hbody, Stmt.callees, ← firstUnknown_append]
  | .each var collections body span, h => by
    obtain ⟨-, -, hcollections, -, hbody⟩ := h
    rw [Stmt.draft, refusal_node, refusal_eachDraft keep _ var hcollections,
      body.refusal_draft keep hbody, Stmt.callees, firstUnknown_append]
  | .leave span, _ | .skip span, _ => by
    rw [Stmt.draft, refusal_node]
    rfl

theorem Block.refusal_draft (keep : Bool) : (body : Block) → body.Shaped →
    (body.draft keep).refusal = firstUnknown body.callees
  | .mk stmts span, h => by
    simp [Block.draft, Block.callees, refusal_stmtsDraft keep stmts h.1]

theorem Otherwise.refusal_draft (keep : Bool) : (rest : Otherwise) → rest.Shaped →
    (rest.draft keep).refusal = firstUnknown rest.callees
  | .nothing, _ => rfl
  | .last body, h => by
    simp [Otherwise.draft, Otherwise.callees, body.refusal_draft keep h]
  | .elseIf cond body rest, h => by
    obtain ⟨hcond, hbody, hrest⟩ := h
    simp [Otherwise.draft, Otherwise.callees, refusal_conditionDraft "else if" hcond,
      body.refusal_draft keep hbody, rest.refusal_draft keep hrest, Option.or_assoc]

theorem refusal_stmtsDraft (keep : Bool) : (stmts : List Stmt) → ShapedStmts stmts →
    (stmtsDraft keep stmts).refusal = firstUnknown (stmtsCallees stmts)
  | [], _ => rfl
  | stmt :: rest, h => by
    simp [stmtsDraft, stmtsCallees, stmt.refusal_draft _ h.1, refusal_stmtsDraft keep rest h.2]

end

/-! ### Scripts -/

theorem Program.refusal_draft {program : Program} (h : ShapedStmts program.stmts) :
    program.draft.refusal = firstUnknown program.callees := by
  simp [Program.draft, Program.callees, refusal_stmtsDraft true program.stmts h]

theorem Expr.unknown?_eq_none_iff {callee : Expr} :
    callee.unknown? = none ↔ callee.function? ≠ none := by
  cases hfunction : callee.function? <;> simp [Expr.unknown?, hfunction]

theorem firstUnknown_eq_none_iff {callees : List Expr} :
    firstUnknown callees = none ↔ ∀ callee ∈ callees, callee.function? ≠ none := by
  simp only [firstUnknown, List.findSome?_eq_none_iff, Expr.unknown?_eq_none_iff]

theorem firstUnknown_eq_some_iff {callees : List Expr} {fault : Fault OutputCause} :
    firstUnknown callees = some fault ↔ ∃ front callee back, callees = front ++ callee :: back ∧
      (∀ known ∈ front, known.function? ≠ none) ∧ callee.function? = none ∧
      fault = ⟨.unknownFunction callee.text, callee.span⟩ := by
  have hsome : ∀ callee : Expr, callee.unknown? = some fault ↔ callee.function? = none ∧
      fault = ⟨.unknownFunction callee.text, callee.span⟩ := by
    intro callee
    cases hfunction : callee.function? <;> simp [Expr.unknown?, hfunction, eq_comm]
  rw [firstUnknown, List.findSome?_eq_some_iff]
  simp only [hsome, Expr.unknown?_eq_none_iff]
  constructor
  · rintro ⟨front, callee, back, hsplit, ⟨hcallee, hfault⟩, hfront⟩
    exact ⟨front, callee, back, hsplit, hfront, hcallee, hfault⟩
  · rintro ⟨front, callee, back, hsplit, hfront, hcallee, hfault⟩
    exact ⟨front, callee, back, hsplit, ⟨hcallee, hfault⟩, hfront⟩

/-- With enough room only a call can be refused, and it is the first unknown one. -/
theorem Program.exists_room_write {program : Program} (h : ShapedStmts program.stmts) :
    ∃ room, ∀ limits : OutputLimits, room ≤ limits.maxDepth → room ≤ limits.maxLength →
      ∀ fault, program.write limits = .error fault ↔
        firstUnknown program.callees = some fault := by
  obtain ⟨room, hroom⟩ := program.draft.exists_room_outcome {}
  refine ⟨room, fun limits hdepth hlength fault => ?_⟩
  unfold Program.write
  split
  · rename_i hempty
    have hcallees : program.callees = [] := by
      rw [Program.callees, List.isEmpty_iff.mp hempty, stmtsCallees]
    rw [hcallees]
    constructor <;> intro hfault <;> cases hfault
  · rw [hroom limits hdepth hlength, Draft.outcome, Program.refusal_draft h]
    cases firstUnknown program.callees with
    | none => constructor <;> intro hfault <;> cases hfault
    | some unknown =>
      exact ⟨fun hwrite => congrArg some (Except.error.inj hwrite),
        fun hsome => congrArg Except.error (Option.some.inj hsome)⟩

/-- **The first unknown call is refused.**  Where no limit is broken, a script is refused for its
first call of something that is no built-in function, and for nothing else. -/
theorem Program.write_eq_error_iff {program : Program} (h : ShapedStmts program.stmts)
    {limits : OutputLimits}
    (hlimits : ∀ fault, program.write limits = .error fault → fault.cause ∉ limits.causes)
    (fault : Fault OutputCause) :
    program.write limits = .error fault ↔ firstUnknown program.callees = some fault := by
  obtain ⟨room, hroom⟩ := Program.exists_room_write h
  have hwithin : limits.Within ⟨max limits.maxDepth room, max limits.maxLength room⟩ :=
    ⟨Nat.le_max_left .., Nat.le_max_left ..⟩
  rcases program.write_loosens hwithin with ⟨fault, hwrite, hcause⟩ | hsame
  · exact absurd hcause (hlimits fault hwrite)
  · rw [hsame]
    exact hroom _ (Nat.le_max_right ..) (Nat.le_max_right ..) fault

end FormCalc
