import FormCalc.Proofs.Output.Depth
import FormCalc.Proofs.Output.Scanned
import Mathlib.Data.List.Forall2

/-!
# How deep a script nests

The nesting of a script is a function on trees: a statement, block, arm of an `if`, expression or
index is one level, and its parts stand one level below it.  A writer walks along the operators of
an expression and counts its levels on the way; it comes to the same levels.

* `Expr.nesting`, `Stmt.nesting`, `Program.nesting`: the nesting.
* `Draft.Dips`: a draft goes some levels down and up again and then does what another draft does.
  `Draft.Nests` is the case in which nothing is left to do.
* `Expr.dips_walk`: the walk goes down as far as the expression nests, and then closes the
  operators around it.

So the limit on the depth is exact (`write_iff_nesting`).
-/

namespace FormCalc

open Host

/-! ### Nesting -/

/-- The deepest of some parts.  Where there is none, there is no level. -/
def deepest (levels : List Nat) : Nat := levels.foldr max 0

/-- The arguments of a call that are written: all of them, or the first. -/
def writtenArguments {α : Type} (all : Bool) (args : List α) : List α :=
  if all then args else args.take 1

mutual

/-- How many levels an expression takes.  Of the arguments of a test for existence only the first
counts. -/
def Expr.nesting : Expr → Nat
  | .null _ | .number .. | .string .. | .identifier .. => 1
  | .unary _ operand _ => operand.nesting + 1
  | .binary _ left right _ => max left.nesting right.nesting + 1
  | .assign target value _ => max target.nesting value.nesting + 1
  | .call callee args isMethod _ =>
    let all := isMethod || builtin? callee.text != some "Exists"
    max callee.nesting (deepest (writtenArguments all (argumentNestings args))) + 1
  | .dot base _ index _ | .descendant base _ index _ => max base.nesting index.nesting + 1
  | .element _ index _ => index.nesting + 1
  | .method receiver call _ => max receiver.nesting call.nesting + 1

/-- How many levels an index takes.  There is one for it also where there are no brackets. -/
def Index.nesting : Index → Nat
  | .none | .star => 1
  | .entry _ expr => expr.nesting + 1

/-- How many levels each argument takes. -/
def argumentNestings : List Expr → List Nat
  | [] => []
  | arg :: rest => arg.nesting :: argumentNestings rest

end

/-- How many levels a part takes that may be missing. -/
def optionalNesting : Option Expr → Nat
  | none => 0
  | some expr => expr.nesting

mutual

/-- How many levels a statement takes. -/
def Stmt.nesting : Stmt → Nat
  | .function _ _ body _ => stmtsNesting body + 1
  | .var _ init _ => optionalNesting init + 1
  | .expr expr _ => expr.nesting + 1
  | .scope body _ => body.nesting + 1
  | .branch cond body otherwise _ =>
    max cond.nesting (max body.nesting otherwise.nesting) + 1
  | .loop cond body _ => max cond.nesting body.nesting + 1
  | .count _ start stop _ step body _ =>
    max start.nesting (max stop.nesting (max (optionalNesting step) body.nesting)) + 1
  | .each _ collections body _ => max (deepest (argumentNestings collections)) body.nesting + 1
  | .leave _ | .skip _ => 1

/-- How many levels a block takes. -/
def Block.nesting : Block → Nat
  | .mk stmts _ => stmtsNesting stmts + 1

/-- How many levels the parts of an `if` behind its first block take.  An arm with a condition
takes one of its own. -/
def Otherwise.nesting : Otherwise → Nat
  | .nothing => 0
  | .last body => body.nesting
  | .elseIf cond body rest => max (max cond.nesting body.nesting + 1) rest.nesting

/-- How many levels statements take. -/
def stmtsNesting : List Stmt → Nat
  | [] => 0
  | stmt :: rest => max stmt.nesting (stmtsNesting rest)

end

/-- How many levels a script takes. -/
def Program.nesting (program : Program) : Nat := stmtsNesting program.stmts

/-! ### Down and up again -/

namespace Draft

/-- Whether a draft goes `k` levels down and up again, and then does what `rest` does. -/
structure Dips (d : Draft) (k : Nat) (rest : Draft) : Prop where
  level_eq : ∀ n, d.level n = rest.level n
  peak_eq : ∀ n, d.peak n = max (n + k) (rest.peak n)
  grounded : ∀ n, rest.Grounded n → d.Grounded n
  thrifty : rest.Thrifty → d.Thrifty

/-- Whether a draft goes `k` levels down and up again. -/
def Nests (d : Draft) (k : Nat) : Prop := d.Dips k empty

variable {d first second body rest : Draft} {k k' n : Nat} {span : Span}

theorem Nests.level_eq (h : d.Nests k) (n : Nat) : d.level n = n := Dips.level_eq h n

theorem Nests.peak_eq (h : d.Nests k) (n : Nat) : d.peak n = n + k :=
  (Dips.peak_eq h n).trans (Nat.max_eq_left (Nat.le_add_right n k))

theorem Nests.grounded (h : d.Nests k) (n : Nat) : d.Grounded n := Dips.grounded h n trivial

theorem Nests.thrifty (h : d.Nests k) : d.Thrifty := Dips.thrifty h trivial

theorem nests_of (hlevel : ∀ n, d.level n = n) (hpeak : ∀ n, d.peak n = n + k)
    (hgrounded : ∀ n, d.Grounded n) (hthrifty : d.Thrifty) : d.Nests k where
  level_eq := hlevel
  peak_eq n := (hpeak n).trans (Nat.max_eq_left (Nat.le_add_right n k)).symm
  grounded n _ := hgrounded n
  thrifty _ := hthrifty

theorem Dips.of_eq (h : d.Dips k rest) (hk : k = k') : d.Dips k' rest := hk ▸ h

theorem Nests.of_eq (h : d.Nests k) (hk : k = k') : d.Nests k' := hk ▸ h

theorem dips_self (rest : Draft) : rest.Dips 0 rest where
  level_eq _ := rfl
  peak_eq n := (Nat.max_eq_right (rest.le_peak n)).symm
  grounded _ h := h
  thrifty h := h

theorem nests_empty : empty.Nests 0 := dips_self empty

theorem nests_text (s : String) : (text s).Nests 0 :=
  nests_of (fun _ => rfl) (fun _ => rfl) (fun _ => trivial) trivial

theorem nests_measure : (measure span).Nests 0 :=
  nests_of (fun _ => rfl) (fun _ => rfl) (fun _ => trivial) trivial

theorem Nests.append_dips (hfirst : first.Nests k) (hsecond : second.Dips k' rest) :
    (first ++ second).Dips (max k k') rest where
  level_eq n := by
    show second.level (first.level n) = _
    rw [hfirst.level_eq, hsecond.level_eq]
  peak_eq n := by
    show max (first.peak n) (second.peak (first.level n)) = _
    rw [hfirst.level_eq, hfirst.peak_eq, hsecond.peak_eq]
    omega
  grounded n h := by
    refine ⟨hfirst.grounded n, ?_⟩
    rw [hfirst.level_eq]
    exact hsecond.grounded n h
  thrifty h := ⟨hfirst.thrifty, hsecond.thrifty h⟩

theorem Nests.append (hfirst : first.Nests k) (hsecond : second.Nests k') :
    (first ++ second).Nests (max k k') := hfirst.append_dips hsecond

/-- What is behind fixed text. -/
theorem Nests.behind (h : d.Nests k) (s : String) : (text s ++ d).Nests k :=
  ((nests_text s).append h).of_eq (Nat.zero_max k)

/-- What is in front of fixed text. -/
theorem Nests.before (h : d.Nests k) (s : String) : (d ++ text s).Nests k :=
  (h.append (nests_text s)).of_eq (Nat.max_zero k)

theorem Nests.node (h : body.Nests k) : (node span body).Nests (k + 1) := by
  refine nests_of (fun n => ?_) (fun n => ?_) (fun n => ?_) ?_
  · show body.level (n + 1) - 1 = n
    rw [h.level_eq, Nat.add_sub_cancel]
  · show max (max (max (n + 1) (body.peak (n + 1))) (body.level (n + 1))) (body.level (n + 1)) = _
    rw [h.level_eq, h.peak_eq]
    omega
  · refine ⟨⟨⟨trivial, h.grounded (n + 1)⟩, trivial⟩, ?_⟩
    show 0 < body.level (n + 1)
    rw [h.level_eq]
    exact Nat.succ_pos n
  · exact ⟨⟨⟨trivial, h.thrifty⟩, trivial⟩, trivial⟩

theorem Nests.scratch {use : String → Draft} (hbody : body.Nests k)
    (huse : (use body.plain).Nests k')
    (hsize : body.plain.utf8ByteSize ≤ (use body.plain).plain.utf8ByteSize) :
    (scratch body use).Nests (max k k') := by
  refine nests_of (fun n => ?_) (fun n => ?_) (fun n => ⟨hbody.grounded n, ?_⟩)
    ⟨hbody.thrifty, huse.thrifty, hsize⟩
  · rw [level, hbody.level_eq, huse.level_eq]
  · rw [peak, hbody.level_eq, hbody.peak_eq, huse.peak_eq]
    omega
  · exact huse.grounded _

/-- Arguments with separators between them are as deep as the deepest. -/
theorem nests_separated {ds : List Draft} {ks : List Nat} (h : List.Forall₂ Nests ds ks)
    (separator : String) : (separated separator ds).Nests (deepest ks) := by
  induction h with
  | nil => exact nests_empty
  | @cons first k rest ks hfirst hrest ih =>
    cases hrest with
    | nil => exact hfirst.of_eq (Nat.max_zero k).symm
    | cons => exact (hfirst.before separator).append ih

end Draft

open Draft

/-- A built-in function is spelled with as many bytes as any name that means it. -/
theorem utf8ByteSize_of_builtin {name spelling : String} (h : builtin? name = some spelling) :
    spelling.utf8ByteSize = name.utf8ByteSize := utf8ByteSize_of_lowered (builtin_spec h).2

/-! ### Drafts of expressions -/

section Pieces

variable {d target value callee base index receiver call : Draft} {args : List Draft}
  {rights : List (Option Draft)} {k k' : Nat} {ks : List Nat} {span : Span}

theorem Host.Helper.nests_call (helper : Helper) (h : d.Nests k) : (helper.call d).Nests k :=
  (h.behind _).before _

theorem nests_ite {c : Prop} [Decidable c] {first second : Draft} (hfirst : first.Nests k)
    (hsecond : second.Nests k) : (if c then first else second).Nests k := by
  split
  · exact hfirst
  · exact hsecond

theorem nests_measured (e : Expr) (h : d.Nests k) : (e.measured d).Nests k :=
  nests_ite ((h.append nests_measure).of_eq (Nat.max_zero k)) h

/-- The innermost operand of a chain is one level of its own. -/
theorem dips_operandDraft (h : d.Nests k) :
    (operandDraft rights span d).Dips (k + 1) (closing rights) :=
  (h.node.append_dips (dips_self _)).of_eq (Nat.max_zero _)

/-- An operator is closed behind its right operand, so this one stands a level below it as the
first one does. -/
theorem dips_opening (helper : Helper) {right rest : Draft} (hright : right.Nests k')
    (h : d.Dips k (right ++ ascend ++ rest)) :
    (opening helper span ++ d).Dips (max k k' + 1) rest where
  level_eq n := by
    show d.level (n + 1) = _
    rw [h.level_eq]
    show rest.level (right.level (n + 1) - 1) = _
    rw [hright.level_eq, Nat.add_sub_cancel]
  peak_eq n := by
    show max (max (n + 1) (n + 1)) (d.peak (n + 1)) = _
    rw [h.peak_eq]
    show max _ (max _ (max (max (right.peak (n + 1)) (right.level (n + 1)))
      (rest.peak (right.level (n + 1) - 1)))) = _
    rw [hright.level_eq, hright.peak_eq, Nat.add_sub_cancel]
    omega
  grounded n hrest := by
    have hlevel : right.level (n + 1) = n + 1 := hright.level_eq (n + 1)
    refine ⟨⟨trivial, trivial⟩, h.grounded (n + 1) ⟨⟨hright.grounded _, ?_⟩, ?_⟩⟩
    · show 0 < right.level (n + 1)
      rw [hlevel]
      exact Nat.succ_pos n
    · show rest.Grounded (right.level (n + 1) - 1)
      rw [hlevel]
      exact hrest
  thrifty hrest := ⟨⟨trivial, trivial⟩, h.thrifty ⟨⟨hright.thrifty, trivial⟩, hrest⟩⟩

theorem utf8ByteSize_assignmentText (keep isVariable : Bool) (target value : String) :
    target.utf8ByteSize + value.utf8ByteSize ≤
      (assignmentText keep isVariable target value).utf8ByteSize := by
  have hpair : commaSeparated [target, value] = target ++ ", " ++ value := by
    simp [commaSeparated, String.append_assoc]
  simp only [assignmentText, Helper.callText, hpair, String.utf8ByteSize_append]
  omega

/-- Both sides of an assignment are written aside, and both are used. -/
theorem nests_assignmentDraft (keep isVariable : Bool) (htarget : target.Nests k)
    (hvalue : value.Nests k') :
    (assignmentDraft keep isVariable target value).Nests (max k k') := by
  have hsize := utf8ByteSize_assignmentText keep isVariable target.plain value.plain
  rw [← plain_assignmentDraft] at hsize
  have hkept : (if keep then text "pfm_ret = " else empty).Nests 0 :=
    nests_ite (nests_text _) nests_empty
  have hassigned : (assignedText target.plain value.plain).Nests 0 :=
    Helper.nests_call _ (nests_text _)
  have hobject := ((Helper.isObj.nests_call (nests_text target.plain)).behind "if (").before
    ")\n\x7b\n"
  have helse : (text "else\n\x7b\n" ++ (if keep then text "pfm_ret = " else empty) ++
      text (target.plain ++ " = ") ++ assignedText target.plain value.plain ++
      text ";\n\x7d\n").Nests 0 :=
    (((hkept.behind _).before _).append hassigned).before _
  have hbody := ((((hobject.append hkept).append hassigned).before ";\n\x7d\n").append
    (nests_ite (c := (isVariable && target.plain != "this") = true) helse nests_empty))
  refine htarget.scratch (hvalue.scratch hbody ?_ |>.of_eq (Nat.max_zero k')) ?_
  · exact Nat.le_trans (Nat.le_add_left ..) hsize
  · exact Nat.le_trans (Nat.le_add_right ..) hsize

theorem nests_methodArguments (mask : Nat) (h : List.Forall₂ Nests args ks) (i : Nat) :
    List.Forall₂ Nests (methodArguments mask i args) ks := by
  induction h generalizing i with
  | nil => exact .nil
  | cons harg _ ih => exact .cons (Helper.nests_call _ harg) (ih (i + 1))

theorem utf8ByteSize_methodCallText (name : String) (args : List String) :
    name.utf8ByteSize ≤ (methodCallText name args).utf8ByteSize := by
  simp only [methodCallText, String.utf8ByteSize_append]
  omega

theorem utf8ByteSize_builtinText (spelling : String) (args : List String) :
    spelling.utf8ByteSize ≤ (builtinText spelling args).utf8ByteSize := by
  unfold builtinText
  split
  · rename_i heval
    have hshort : "Eval".utf8ByteSize ≤ "eval.call(this, ".utf8ByteSize := by decide
    rw [heval, String.utf8ByteSize_append, String.utf8ByteSize_append]
    omega
  · split
    · simp only [memberText, String.utf8ByteSize_append]
      omega
    · simp only [memberText, String.utf8ByteSize_append]
      omega

theorem nests_builtinDraft {spelling : String}
    (h : List.Forall₂ Nests (writtenArguments (spelling != "Exists") args) ks) :
    (builtinDraft spelling args).Nests (deepest ks) := by
  unfold builtinDraft
  by_cases hexists : spelling = "Exists"
  · rw [if_neg (by rw [hexists]; decide), if_pos hexists]
    rw [hexists] at h
    cases args with
    | nil =>
      cases h
      exact ((nests_text _).behind _).before _
    | cons first rest =>
      obtain ⟨k, ks, hfirst, hnil, rfl⟩ := List.forall₂_cons_left_iff.mp h
      cases hnil
      exact ((((hfirst.behind _).before _).behind _).before _).of_eq (Nat.max_zero k).symm
  · have hall : (spelling != "Exists") = true := bne_iff_ne.mpr hexists
    rw [hall] at h
    have hargs := nests_separated h ", "
    split
    · exact ((Helper.nests_call _ hargs).behind _).before _
    · exact (hargs.behind _).before _

/-- The callee is written aside, and its text is used as it stands or in another case. -/
theorem nests_callDraft {isMethod : Bool} (hcallee : callee.Nests k)
    (hknown : isMethod = true ∨ ∃ spelling, builtin? callee.plain = some spelling)
    (hargs : List.Forall₂ Nests
      (writtenArguments (isMethod || builtin? callee.plain != some "Exists") args) ks) :
    (callDraft isMethod callee span args).Nests (max k (deepest ks)) := by
  cases isMethod with
  | true =>
    have hmethod := nests_separated (nests_methodArguments (objectMask callee.plain) hargs 0) ", "
    refine hcallee.scratch ((hmethod.behind (callee.plain ++ "(")).before ")") ?_
    have hplain := plain_callDraft args true callee span
    have hsize := utf8ByteSize_methodCallText callee.plain (args.map plain)
    exact Nat.le_trans hsize (Nat.le_of_eq (congrArg String.utf8ByteSize hplain).symm)
  | false =>
    obtain ⟨spelling, hspelling⟩ := hknown.resolve_left Bool.false_ne_true
    have hall : (false || builtin? callee.plain != some "Exists") = (spelling != "Exists") := by
      rw [hspelling]
      rfl
    rw [hall] at hargs
    refine hcallee.scratch ?_ ?_
    · simp only [Bool.false_eq_true, if_false, hspelling]
      exact nests_builtinDraft hargs
    · simp only [Bool.false_eq_true, if_false, hspelling]
      rw [plain_builtinDraft, ← utf8ByteSize_of_builtin hspelling]
      exact utf8ByteSize_builtinText ..

theorem nests_accessorDraft (helper : Helper) (isName : Bool) (member : String)
    (hbase : base.Nests k) (hindex : index.Nests k') :
    (accessorDraft helper isName base member index).Nests (max k k') := by
  have hname : (if isName then base else empty).Nests (if isName then k else 0) := by
    cases isName
    · exact nests_empty
    · exact hbase
  have hparts := (((hbase.before ", \"").append hname).before ("\", " ++ member ++ ", ")).append
    hindex
  refine helper.nests_call (hparts.of_eq ?_)
  cases isName <;> simp

theorem nests_methodDraft (hreceiver : receiver.Nests k) (hcall : call.Nests k') :
    (methodDraft receiver call).Nests (max k k') :=
  (((hreceiver.behind _).before _).append hcall).before _

end Pieces

/-! ### The walk -/

/-- The callee of a resolved call is known, and so are the arguments of it that are written. -/
theorem resolved_arguments {callee : String} {args : List Expr} {isMethod : Bool}
    (h : if isMethod then ResolvedArguments true args
      else match builtin? callee with
        | some name => ResolvedArguments (name != "Exists") args
        | none => False) :
    (isMethod = true ∨ ∃ spelling, builtin? callee = some spelling) ∧
      ResolvedArguments (isMethod || builtin? callee != some "Exists") args := by
  cases isMethod with
  | true => exact ⟨.inl rfl, h⟩
  | false =>
    rw [if_neg Bool.false_ne_true] at h
    cases hspelling : builtin? callee with
    | none =>
      rw [hspelling] at h
      exact h.elim
    | some spelling =>
      rw [hspelling] at h
      exact ⟨.inr ⟨spelling, rfl⟩, h⟩

mutual

/-- **The walk counts as a recursion on the tree would.**  It goes down as far as the expression
nests, whatever operators are open around it, and then closes these. -/
theorem Expr.dips_walk : (e : Expr) → e.Resolved → (rights : List (Option Draft)) →
    (e.walk rights).Dips e.nesting (closing rights)
  | .null _, _, _ | .number .., _, _ | .string .., _, _ | .identifier .., _, _ =>
    dips_operandDraft (nests_text _)
  | .unary op operand _, h, rights =>
    (dips_opening op.helper (nests_empty.before ")") (operand.dips_walk h (none :: rights))).of_eq
      (by rw [Nat.max_zero, Expr.nesting])
  | .binary op left right _, h, rights => by
    have hright := nests_measured right (right.dips_walk h.2 [])
    exact dips_opening op.helper ((hright.behind ", ").before ")") (left.dips_walk h.1 _)
  | .assign target value _, h, _ =>
    dips_operandDraft (nests_assignmentDraft _ _ (nests_measured target (target.dips_walk h.1 []))
      (nests_measured value (value.dips_walk h.2 [])))
  | .call callee args isMethod _, h, _ => by
    have hcallee := nests_measured callee (callee.dips_walk h.1 [])
    have hname : (callee.measured (callee.walk [])).plain = callee.text := callee.plain_draft
    obtain ⟨hknown, hresolved⟩ := resolved_arguments h.2
    have hargs := nests_argumentDrafts args _ hresolved
    rw [← hname] at hknown hargs
    have hcall := @nests_callDraft _ _ _ _ callee.span _ hcallee hknown hargs
    rw [hname] at hcall
    exact dips_operandDraft hcall
  | .dot base _ index _, h, _ =>
    dips_operandDraft (nests_accessorDraft _ _ _ (nests_measured base (base.dips_walk h.1 []))
      (index.nests_draft h.2 _))
  | .element _ index _, h, _ =>
    dips_operandDraft ((nests_accessorDraft _ _ _ (nests_text _) (index.nests_draft h _)).of_eq
      (Nat.zero_max _))
  | .descendant base _ index _, h, _ =>
    dips_operandDraft (nests_accessorDraft _ _ _ (nests_measured base (base.dips_walk h.1 []))
      (index.nests_draft h.2 _))
  | .method receiver call _, h, _ =>
    dips_operandDraft (nests_methodDraft (nests_measured receiver (receiver.dips_walk h.1 []))
      (nests_measured call (call.dips_walk h.2 [])))

theorem Index.nests_draft : (index : Index) → index.Resolved → (span : Span) →
    (node span index.draft).Nests index.nesting
  | .none, _, _ | .star, _, _ => (nests_text _).node
  | .entry _ expr, h, _ => ((nests_measured expr (expr.dips_walk h [])).behind _).node

theorem nests_argumentDrafts : (args : List Expr) → (all : Bool) → ResolvedArguments all args →
    List.Forall₂ Nests (writtenArguments all (argumentDrafts args))
      (writtenArguments all (argumentNestings args))
  | [], all, _ => by cases all <;> exact .nil
  | arg :: rest, false, h => .cons (nests_measured arg (arg.dips_walk h.1 [])) .nil
  | arg :: rest, true, h =>
    .cons (nests_measured arg (arg.dips_walk h.1 [])) (nests_argumentDrafts rest true (h.2 rfl))

end

theorem Expr.nests_draft {e : Expr} (h : e.Resolved) : e.draft.Nests e.nesting :=
  nests_measured e (e.dips_walk h [])

/-! ### Drafts of statements -/

section Pieces

variable {body : Draft} {k : Nat}

theorem nests_valueDraft {e : Expr} (h : e.Resolved) : (valueDraft e).Nests e.nesting :=
  Helper.nests_call _ (Expr.nests_draft h)

theorem nests_resetDraft (keep : Bool) : (resetDraft keep).Nests 0 :=
  nests_ite (nests_text _) nests_empty

theorem nests_conditionDraft (keyword : String) {cond : Expr} (h : cond.Resolved) :
    (conditionDraft keyword cond).Nests cond.nesting :=
  ((((nests_valueDraft h).behind _).before _).append nests_measure).of_eq (Nat.max_zero _)

theorem nests_functionDraft (name : String) (params : List String) (h : body.Nests k) :
    (functionDraft name params body).Nests k := by
  have hhead : (text ("function " ++ declaredName name ++ "(") ++
      text (", ".intercalate (params.map declaredName)) ++
      text ") \x7b\nvar pfm_ret = null;\n").Nests 0 := ((nests_text _).behind _).before _
  exact ((hhead.append h).of_eq (Nat.zero_max k)).before _

theorem nests_varDraft (keep : Bool) (name : String) {init : Option Expr}
    (h : ∀ value ∈ init, value.Resolved) :
    (varDraft keep name init).Nests (optionalNesting init) := by
  have hkept : (if keep then text ("pfm_ret = " ++ declaredName name ++ ";\n")
      else empty).Nests 0 := nests_ite (nests_text _) nests_empty
  cases init with
  | none => exact ((nests_text _).behind _).append hkept
  | some value =>
    have hvalue := (Expr.nests_draft (h value rfl)).before (";\n" ++ declaredName name ++ " = ")
    have hfilter := Helper.varFilter.nests_call (nests_text (declaredName name))
    refine Nests.of_eq ((((hvalue.append hfilter).before _).behind _).append hkept) ?_
    rw [Nat.max_zero, Nat.max_zero, optionalNesting]

theorem nests_exprDraft (keep : Bool) {e : Expr} (h : e.Resolved) :
    (exprDraft keep e).Nests e.nesting := by
  unfold exprDraft
  split
  · exact (nests_assignmentDraft _ _ (Expr.nests_draft h.1) (Expr.nests_draft h.2)).node
  · have hvalue := nests_ite (c := e.isAccessor = true) (nests_valueDraft h) (Expr.nests_draft h)
    exact nests_ite ((hvalue.behind _).before _) ((Expr.nests_draft h).before _)

theorem nests_loopDraft (keep : Bool) {cond : Expr} (h : cond.Resolved) (hbody : body.Nests k)
    (span : Span) : (loopDraft keep cond body span).Nests (max cond.nesting k) := by
  have hcond := ((nests_resetDraft keep).before "while (").append (Expr.nests_draft h)
  refine Nests.of_eq (((hcond.before _).append nests_measure).append hbody) ?_
  omega

theorem nests_countDraft (keep : Bool) (var : String) {start stop : Expr} (direction : Direction)
    {step : Option Expr} (hstart : start.Resolved) (hstop : stop.Resolved)
    (hstep : ∀ value ∈ step, value.Resolved) (hbody : body.Nests k) (span : Span) :
    (countDraft keep var start stop direction step body span).Nests
      (max start.nesting (max stop.nesting (max (optionalNesting step) k))) := by
  have hparts : ∀ {moved : Draft}, moved.Nests (optionalNesting step) →
      ∀ init test move : String, (resetDraft keep ++ text init ++ valueDraft start ++ text test ++
        valueDraft stop ++ text move ++ moved ++ text ")\n" ++ measure span ++ body ++
        text "\x7d\n").Nests
        (max start.nesting (max stop.nesting (max (optionalNesting step) k))) := by
    intro moved hmoved init test move
    have htest := ((((nests_resetDraft keep).before init).append (nests_valueDraft hstart)).before
      test).append (nests_valueDraft hstop)
    refine Nests.of_eq ((((((htest.before move).append hmoved).before _).append
      nests_measure).append hbody).before _) ?_
    omega
  cases step with
  | none => cases direction <;> exact hparts (nests_text "1") _ _ _
  | some step => cases direction <;> exact hparts (nests_valueDraft (hstep step rfl)) _ _ _

theorem nests_eachDraft (keep : Bool) (var : String) {collections : List Expr}
    (h : ResolvedArguments true collections) (hbody : body.Nests k) :
    (eachDraft keep var collections body).Nests
      (max (deepest (argumentNestings collections)) k) := by
  have hargs : List.Forall₂ Nests (argumentDrafts collections) (argumentNestings collections) :=
    nests_argumentDrafts collections true h
  have hlist := Helper.concatObj.nests_call (nests_separated hargs ", ")
  refine Nests.of_eq ((((((nests_resetDraft keep).before _).append hlist).before _).append
    hbody).before _) ?_
  omega

end Pieces

mutual

theorem Stmt.nests_draft (keep : Bool) : (stmt : Stmt) → stmt.Resolved →
    (stmt.draft keep).Nests stmt.nesting
  | .function name params body _, h =>
    (nests_functionDraft name params (nests_stmtsDraft true body h)).node
  | .var name _ _, h => (nests_varDraft keep name h).node
  | .expr _ _, h => (nests_exprDraft keep h).node
  | .scope body _, h => (body.nests_draft keep h).node
  | .branch cond body otherwise _, h => by
    have hcond := (nests_resetDraft keep).append (nests_conditionDraft "if" h.1)
    have hparts := (hcond.append (body.nests_draft keep h.2.1)).append
      (otherwise.nests_draft keep h.2.2)
    exact (hparts.of_eq (by omega)).node
  | .loop _ body span, h => (nests_loopDraft keep h.1 (body.nests_draft keep h.2) span).node
  | .count var _ _ direction _ body _, h => by
    obtain ⟨hstart, hstop, hstep, hbody⟩ := h
    exact (nests_countDraft keep var direction hstart hstop hstep (body.nests_draft keep hbody)
      body.span).node
  | .each var _ body _, h => (nests_eachDraft keep var h.1 (body.nests_draft keep h.2)).node
  | .leave _, _ | .skip _, _ => (nests_text _).node

theorem Block.nests_draft (keep : Bool) : (body : Block) → body.Resolved →
    (body.draft keep).Nests body.nesting
  | .mk stmts _, h => (((nests_stmtsDraft keep stmts h).behind _).before _).node

theorem Otherwise.nests_draft (keep : Bool) : (rest : Otherwise) → rest.Resolved →
    (rest.draft keep).Nests rest.nesting
  | .nothing, _ => nests_empty
  | .last body, h => (body.nests_draft keep h).behind _
  | .elseIf _ body rest, h =>
    ((nests_conditionDraft "else if" h.1).append (body.nests_draft keep h.2.1)).node.append
      (rest.nests_draft keep h.2.2)

theorem nests_stmtsDraft (keep : Bool) : (stmts : List Stmt) → ResolvedStmts stmts →
    (stmtsDraft keep stmts).Nests (stmtsNesting stmts)
  | [], _ => nests_empty
  | stmt :: rest, h => (stmt.nests_draft _ h.1).append (nests_stmtsDraft keep rest h.2)

end

/-! ### Scripts -/

theorem Program.nests_draft {program : Program} (h : program.Resolved) :
    program.draft.Nests program.nesting :=
  ((((nests_stmtsDraft true program.stmts h).behind _).before _).append nests_measure).of_eq
    (Nat.max_zero _)

theorem Program.write_of_error {program : Program} (h : program.stmts ≠ []) {limits : OutputLimits}
    {fault : Fault OutputCause} (hwrite : program.draft.write limits {} = .error fault) :
    program.write limits = .error fault := by
  have hnonempty : program.isEmpty = false := by
    rw [Program.isEmpty, List.isEmpty_eq_false_iff]
    exact h
  rw [Program.write, hnonempty, hwrite]
  rfl

/-- **The limit on the depth is exact.**  A script whose calls are resolved, and whose text stays
below the limit on the length, is written if and only if it nests no deeper than the limit on the
depth says, and otherwise it is refused for its depth.  On the way the count of levels never goes
below zero, whatever the limits are. -/
theorem write_iff_nesting {program : Program} (h : program.stmts ≠ [])
    (hresolved : program.Resolved) :
    (∀ limits : OutputLimits, program.text.utf8ByteSize < limits.maxLength →
      ((∃ js, program.write limits = .ok js) ↔ program.nesting ≤ limits.maxDepth) ∧
      (limits.maxDepth < program.nesting →
        ∃ span, program.write limits = .error ⟨.tooDeep limits.maxDepth, span⟩)) ∧
    ∀ limits, program.draft.writeStrict limits {} = some (program.draft.write limits {}) := by
  have hnests := Program.nests_draft hresolved
  refine ⟨fun limits hlength => ?_, fun limits => writeStrict_eq (hnests.grounded 0)⟩
  have hplain : ("" : String).utf8ByteSize + program.draft.plain.utf8ByteSize <
      limits.maxLength := by
    rw [program.plain_draft, String.utf8ByteSize_empty, Nat.zero_add]
    exact hlength
  have hends := @write_cases limits program.draft {} (program.writable_draft.mpr hresolved)
    hnests.thrifty (Nat.zero_le _) hplain
  rw [hnests.peak_eq] at hends
  rw [Nat.zero_add] at hends
  rcases hends with ⟨hdepth, hwrite⟩ | ⟨hdepth, span, hwrite⟩
  · have hok := (Program.write_eq_ok h).mpr ⟨_, hwrite, rfl⟩
    exact ⟨iff_of_true ⟨_, hok⟩ hdepth, fun hdeep => absurd hdepth (Nat.not_le_of_lt hdeep)⟩
  · have herror := Program.write_of_error h hwrite
    refine ⟨iff_of_false ?_ (Nat.not_le_of_lt hdepth), fun _ => ⟨span, herror⟩⟩
    rintro ⟨js, hjs⟩
    exact nomatch hjs.symm.trans herror

/-- `x = eXists(a.b, ---c)`: the deepest expression is an argument that is not written. -/
def existenceTest : Program where
  stmts := [.expr (.assign (.identifier "x" .origin) (.call (.identifier "eXists" .origin)
    [.dot (.identifier "a" .origin) (.named "b") .none .origin,
      .unary .minus (.unary .minus (.unary .minus (.identifier "c" .origin) .origin) .origin)
        .origin] false .origin) .origin) .origin]
  span := .origin

/-- Statement, assignment, call, accessor and its base: five levels. -/
theorem write_iff_nesting_existenceTest :
    existenceTest.stmts ≠ [] ∧ existenceTest.Resolved ∧
    existenceTest.text.utf8ByteSize < 1024 ∧ existenceTest.nesting = 5 ∧
    (∃ js, existenceTest.write ⟨5, 1024⟩ = .ok js) ∧
    (∃ span, existenceTest.write ⟨4, 1024⟩ = .error ⟨.tooDeep 4, span⟩) ∧
    existenceTest.draft.writeStrict ⟨4, 1024⟩ {} =
      some (existenceTest.draft.write ⟨4, 1024⟩ {}) := by
  have hnonempty : existenceTest.stmts ≠ [] := nofun
  have hname : builtin? (Expr.identifier "eXists" .origin).text = some "Exists" := by
    decide +kernel
  have hresolved : existenceTest.Resolved := by
    simp [existenceTest, Program.Resolved, ResolvedStmts, Stmt.Resolved, Expr.Resolved,
      Index.Resolved, ResolvedArguments, hname]
  have hlength : existenceTest.text.utf8ByteSize < 1024 := by decide +kernel
  have hnesting : existenceTest.nesting = 5 := by decide +kernel
  obtain ⟨hexact, hcount⟩ := write_iff_nesting hnonempty hresolved
  refine ⟨hnonempty, hresolved, hlength, hnesting, (hexact ⟨5, 1024⟩ hlength).1.mpr ?_,
    (hexact ⟨4, 1024⟩ hlength).2 ?_, hcount _⟩
  · exact Nat.le_of_eq hnesting
  · exact Nat.lt_of_lt_of_eq (Nat.lt_succ_self 4) hnesting.symm

end FormCalc
