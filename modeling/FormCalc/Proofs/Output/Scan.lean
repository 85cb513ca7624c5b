import FormCalc.Proofs.Output.Markup

/-!
# Scanning marked text

A scan goes over marked text from left to right.  It keeps the brackets that are open and whether
the character before was a `t`, the last letter of the host's object.  It stops at a bracket that
does not close the innermost open one, and at a point behind a `t` that is not followed by a member
of the host's object and an opening parenthesis.  What string literals became it passes over.

* `Bracketed`: the brackets of a text are balanced and properly nested.
* `Scan.run`: the scan of code.
* `Markup.Reads`: the scan of marked text, which comes to the end of each part with the brackets
  that were open in front of it.

A scan that comes to its end has seen that every part is bracketed (`Markup.Reads.bracketed_parts`)
and that the host's object is only used for calls of its members (`Markup.Reads.calls`).
-/

namespace FormCalc

open Host

/-! ### Brackets -/

/-- What closes a bracket. -/
def closer? : Char → Option Char
  | '(' => some ')'
  | '[' => some ']'
  | '\x7b' => some '\x7d'
  | _ => none

/-- Whether a character closes a bracket. -/
def isCloser (c : Char) : Bool := c == ')' || c == ']' || c == '\x7d'

/-- What closes the open brackets, innermost first, after one character more. -/
def nest (pending : List Char) (c : Char) : Option (List Char) :=
  match closer? c with
  | some closer => some (closer :: pending)
  | none =>
    if isCloser c then
      match pending with
      | expected :: rest => if c = expected then some rest else none
      | [] => none
    else some pending

/-- Whether the brackets of a text are balanced and properly nested. -/
def Bracketed (s : String) : Prop := s.toList.foldlM nest [] = some []

instance (s : String) : Decidable (Bracketed s) := inferInstanceAs (Decidable (_ = _))

/-- The brackets around a text do not matter to the brackets inside it. -/
theorem nest_append {pending pending' : List Char} {c : Char} (h : nest pending c = some pending')
    (base : List Char) : nest (pending ++ base) c = some (pending' ++ base) := by
  unfold nest at h ⊢
  split at h
  · obtain rfl := Option.some.inj h
    rfl
  · split at h
    · cases pending with
      | nil => cases h
      | cons expected rest =>
        dsimp only [List.cons_append] at h ⊢
        split at h
        · rename_i hclose hc
          obtain rfl := Option.some.inj h
          rw [if_pos hclose, if_pos hc]
        · cases h
    · rename_i hclose
      obtain rfl := Option.some.inj h
      rw [if_neg hclose]

theorem foldlM_nest_append {cs pending pending' : List Char}
    (h : cs.foldlM nest pending = some pending') (base : List Char) :
    cs.foldlM nest (pending ++ base) = some (pending' ++ base) := by
  induction cs generalizing pending with
  | nil =>
    obtain rfl := Option.some.inj h
    rfl
  | cons c cs ih =>
    rw [List.foldlM_cons] at h ⊢
    obtain ⟨middle, hc, hcs⟩ := Option.bind_eq_some_iff.mp h
    rw [nest_append hc base]
    exact ih hcs

/-! ### Calls of members -/

/-- Whether a character belongs to a word of JavaScript that the host spells. -/
def isWordChar (c : Char) : Bool := c.isAlphanum || c == '_'

/-- Whether a text starts with a member of the host's object and an opening parenthesis. -/
def callsMember (rest : List Char) : Bool :=
  isMember (String.ofList (rest.takeWhile isWordChar)) &&
    (rest.dropWhile isWordChar).head? == some '('

/-- The parenthesis ends the word, so what follows it does not matter. -/
theorem callsMember_append {rest : List Char} (h : callsMember rest = true) (more : List Char) :
    callsMember (rest ++ more) = true := by
  obtain ⟨hmember, hparen⟩ := Bool.and_eq_true_iff.mp h
  obtain ⟨after, hafter⟩ := List.head?_eq_some_iff.mp (beq_iff_eq.mp hparen)
  have hlength : ¬(rest.takeWhile isWordChar).length = rest.length := by
    have hsplit :=
      congrArg List.length (List.takeWhile_append_dropWhile (p := isWordChar) (l := rest))
    rw [List.length_append, hafter, List.length_cons] at hsplit
    omega
  rw [callsMember, List.takeWhile_append, if_neg hlength, List.dropWhile_append, hafter,
    if_neg (by simp), hmember]
  rfl

/-! ### Scans of code -/

/-- Where a scan stands: what closes the open brackets, and whether the character before was a
`t`. -/
structure Scan where
  pending : List Char
  behindT : Bool
  deriving DecidableEq

namespace Scan

variable {s s' s'' : Scan}

/-- Goes over one character, with the text after it in sight. -/
def step (s : Scan) (c : Char) (rest : List Char) : Option Scan :=
  if s.behindT && c == '.' && !callsMember rest then none
  else (nest s.pending c).map fun pending => ⟨pending, c == 't'⟩

/-- Goes over code. -/
def run : Scan → List Char → Option Scan
  | s, [] => some s
  | s, c :: cs => (s.step c cs).bind fun s => s.run cs

/-- A scan with more brackets open around what it has seen. -/
def under (s : Scan) (base : List Char) : Scan := ⟨s.pending ++ base, s.behindT⟩

theorem step_eq_some {c : Char} {rest : List Char} (h : s.step c rest = some s') :
    (s.behindT = true → c = '.' → callsMember rest = true) ∧
      nest s.pending c = some s'.pending ∧ s'.behindT = (c == 't') := by
  unfold step at h
  split at h
  · cases h
  · rename_i hguard
    obtain ⟨pending, hpending, rfl⟩ := Option.map_eq_some_iff.mp h
    refine ⟨fun ht hc => ?_, hpending, rfl⟩
    simpa [ht, hc] using hguard

theorem step_of {c : Char} {rest : List Char}
    (hguard : s.behindT = true → c = '.' → callsMember rest = true) {pending : List Char}
    (hpending : nest s.pending c = some pending) :
    s.step c rest = some ⟨pending, c == 't'⟩ := by
  unfold step
  rw [if_neg, hpending]
  · rfl
  · intro h
    simp only [Bool.and_eq_true, beq_iff_eq, Bool.not_eq_true'] at h
    obtain ⟨⟨ht, hc⟩, hcalls⟩ := h
    rw [hguard ht hc] at hcalls
    cases hcalls

theorem run_append {first second : List Char} (hfirst : s.run first = some s')
    (hsecond : s'.run second = some s'') : s.run (first ++ second) = some s'' := by
  induction first generalizing s with
  | nil =>
    obtain rfl := Option.some.inj hfirst
    exact hsecond
  | cons c cs ih =>
    obtain ⟨middle, hstep, hrun⟩ := Option.bind_eq_some_iff.mp hfirst
    obtain ⟨hguard, hpending, hflag⟩ := step_eq_some hstep
    refine Option.bind_eq_some_iff.mpr ⟨middle, ?_, ih hrun⟩
    have hstep' : s.step c (cs ++ second) = some ⟨middle.pending, c == 't'⟩ :=
      step_of (fun ht hc => callsMember_append (hguard ht hc) second) hpending
    rwa [← hflag] at hstep'

theorem run_under {cs : List Char} (h : s.run cs = some s') (base : List Char) :
    (s.under base).run cs = some (s'.under base) := by
  induction cs generalizing s with
  | nil =>
    obtain rfl := Option.some.inj h
    rfl
  | cons c cs ih =>
    obtain ⟨middle, hstep, hrun⟩ := Option.bind_eq_some_iff.mp h
    obtain ⟨hguard, hpending, hflag⟩ := step_eq_some hstep
    refine Option.bind_eq_some_iff.mpr ⟨middle.under base, ?_, ih hrun⟩
    have hstep' : (s.under base).step c cs = some ⟨middle.pending ++ base, c == 't'⟩ :=
      step_of (s := s.under base) hguard (nest_append hpending base)
    rwa [← hflag] at hstep'

/-- A scan keeps the open brackets. -/
theorem foldlM_nest_of_run {cs : List Char} (h : s.run cs = some s') :
    cs.foldlM nest s.pending = some s'.pending := by
  induction cs generalizing s with
  | nil =>
    obtain rfl := Option.some.inj h
    rfl
  | cons c cs ih =>
    obtain ⟨middle, hstep, hrun⟩ := Option.bind_eq_some_iff.mp h
    obtain ⟨-, hpending, -⟩ := step_eq_some hstep
    rw [List.foldlM_cons, hpending]
    exact ih hrun

/-- Whether the last character is a `t`. -/
def endsInT (before : Bool) (cs : List Char) : Bool := cs.foldl (fun _ c => c == 't') before

theorem behindT_of_run {cs : List Char} (h : s.run cs = some s') :
    s'.behindT = endsInT s.behindT cs := by
  induction cs generalizing s with
  | nil =>
    obtain rfl := Option.some.inj h
    rfl
  | cons c cs ih =>
    obtain ⟨middle, hstep, hrun⟩ := Option.bind_eq_some_iff.mp h
    obtain ⟨-, -, hflag⟩ := step_eq_some hstep
    rw [ih hrun, hflag]
    rfl

/-- Behind a `t` a point is followed by a call of a member. -/
theorem callsMember_of_run {front back : List Char} (h : s.run (front ++ '.' :: back) = some s')
    (ht : endsInT s.behindT front = true) : callsMember back = true := by
  induction front generalizing s with
  | nil =>
    obtain ⟨middle, hstep, -⟩ := Option.bind_eq_some_iff.mp h
    exact (step_eq_some hstep).1 ht rfl
  | cons c cs ih =>
    obtain ⟨middle, hstep, hrun⟩ := Option.bind_eq_some_iff.mp h
    obtain ⟨-, -, hflag⟩ := step_eq_some hstep
    refine ih hrun ?_
    rw [hflag]
    exact ht

end Scan

/-! ### Scans of marked text -/

/-- Whether a text is in quotes. -/
def IsQuoted (s : String) : Prop := ∃ inner, s.toList = '"' :: inner ++ ['"']

namespace Markup

/-- `Reads s s' m`: a scan goes over `m` from `s` to `s'`.  It passes over string literals, and it
comes to the end of a part with the brackets that were open in front of it, none of which it
closes on the way. -/
inductive Reads : Scan → Scan → Markup → Prop
  | code {s s' : Scan} {t : String} : s.run t.toList = some s' → Reads s s' (code t)
  | literal {s : Scan} {t : String} : IsQuoted t → Reads s ⟨s.pending, false⟩ (literal t)
  | append {s s' s'' : Scan} {first second : Markup} : Reads s s' first → Reads s' s'' second →
      Reads s s'' (append first second)
  | part {s : Scan} {flag : Bool} {body : Markup} : Reads ⟨[], s.behindT⟩ ⟨[], flag⟩ body →
      Reads s ⟨s.pending, flag⟩ (part body)

namespace Reads

variable {s s' s'' : Scan} {m : Markup}

theorem under (h : Reads s s' m) (base : List Char) : Reads (s.under base) (s'.under base) m := by
  induction h with
  | code hrun => exact .code (Scan.run_under hrun base)
  | literal hquoted => exact .literal hquoted
  | append _ _ ihfirst ihsecond => exact .append ihfirst ihsecond
  | part hbody _ => exact .part hbody

theorem foldlM_nest (h : Reads s s' m) :
    m.codeText.toList.foldlM nest s.pending = some s'.pending := by
  induction h with
  | code hrun => exact Scan.foldlM_nest_of_run hrun
  | literal _ => rfl
  | append _ _ ihfirst ihsecond =>
    rw [codeText, String.toList_append, List.foldlM_append, ihfirst]
    exact ihsecond
  | part _ ih => exact foldlM_nest_append ih _

/-- Every statement and every expression is bracketed on its own. -/
theorem bracketed_parts (h : Reads s s' m) : ∀ body ∈ m.parts, Bracketed body.codeText := by
  induction h with
  | code _ | literal _ => exact nofun
  | append _ _ ihfirst ihsecond => exact List.forall_mem_append.mpr ⟨ihfirst, ihsecond⟩
  | part hbody ih => exact List.forall_mem_cons.mpr ⟨hbody.foldlM_nest, ih⟩

theorem behindT_eq (h : Reads s s' m) :
    s'.behindT = Scan.endsInT s.behindT m.text.toList := by
  induction h with
  | code hrun => exact Scan.behindT_of_run hrun
  | literal hquoted =>
    obtain ⟨inner, hinner⟩ := hquoted
    rw [text, hinner, Scan.endsInT, List.foldl_append]
    rfl
  | append _ _ ihfirst ihsecond =>
    rw [ihsecond, ihfirst, text, String.toList_append, Scan.endsInT, Scan.endsInT, Scan.endsInT,
      List.foldl_append]
  | part _ ih => exact ih

/-- A point behind a `t` is followed by a call of a member, or it stands in the text of a string
literal. -/
theorem callsMember_or_literalAt (h : Reads s s' m) {front back : List Char}
    (htext : m.text.toList = front ++ '.' :: back) (ht : Scan.endsInT s.behindT front = true) :
    callsMember back = true ∨ ∃ before u v after,
      m.LiteralAt before ('"' :: u ++ '.' :: v) after ∧ front = before ++ '"' :: u ∧
        back = v ++ after := by
  induction h generalizing front back with
  | @code s s' t hrun =>
    rw [text] at htext
    rw [htext] at hrun
    exact .inl (Scan.callsMember_of_run hrun ht)
  | @literal s t hquoted =>
    obtain ⟨inner, hinner⟩ := hquoted
    rw [text] at htext
    -- the point is not the opening quote, so that stands in front of it
    cases front with
    | nil =>
      rw [hinner] at htext
      cases (List.cons.inj htext).1
    | cons c u =>
      obtain rfl : '"' = c := by
        rw [hinner] at htext
        exact (List.cons.inj htext).1
      refine .inr ⟨[], u, back, [], ?_, rfl, by rw [List.append_nil]⟩
      have hliteral := LiteralAt.literal t
      rwa [htext] at hliteral
  | @append s s' s'' first second hfirst hsecond ihfirst ihsecond =>
    rw [text, String.toList_append] at htext
    rcases List.append_eq_append_iff.mp htext with ⟨more, hfront, hsecond'⟩ | ⟨more, hfirst', hback⟩
    · -- the point stands in the second text
      have ht' : Scan.endsInT s'.behindT more = true := by
        rw [hfirst.behindT_eq, Scan.endsInT, Scan.endsInT, ← List.foldl_append, ← hfront]
        exact ht
      rcases ihsecond hsecond' ht' with hcalls | ⟨before, u, v, after, hliteral, hmore, hback⟩
      · exact .inl hcalls
      · refine .inr ⟨first.text.toList ++ before, u, v, after, .second first hliteral, ?_, hback⟩
        rw [hfront, hmore, List.append_assoc]
    · cases more with
      | nil =>
        -- the point is the first character of the second text
        rw [List.append_nil] at hfirst'
        have ht' : Scan.endsInT s'.behindT [] = true := by
          rw [hfirst.behindT_eq, hfirst']
          exact ht
        have hsecond' : second.text.toList = [] ++ '.' :: back := hback.symm
        rcases ihsecond hsecond' ht' with hcalls | ⟨before, u, v, after, -, hnil, -⟩
        · exact .inl hcalls
        · simp at hnil
      | cons c more =>
        -- the point stands in the first text
        obtain ⟨rfl, rfl⟩ := List.cons.inj hback
        rcases ihfirst hfirst' ht with hcalls | ⟨before, u, v, after, hliteral, hfront, hmore⟩
        · exact .inl (callsMember_append hcalls _)
        · refine .inr
            ⟨before, u, v, after ++ second.text.toList, .first second hliteral, hfront, ?_⟩
          rw [hmore]
          exact List.append_assoc ..
  | part _ ih =>
    rcases ih htext ht with hcalls | ⟨before, u, v, after, hliteral, hfront, hback⟩
    · exact .inl hcalls
    · exact .inr ⟨before, u, v, after, .part hliteral, hfront, hback⟩

/-- **Outside of string literals the host's object is only used for calls of its members.** -/
theorem calls (h : Reads s s' m) {front back : List Char}
    (htext : m.text.toList = front ++ (objectName ++ ".").toList ++ back) :
    m.InLiteral front (objectName ++ ".").toList back ∨ callsMember back = true := by
  have hpoint : (objectName ++ ".").toList = objectName.toList ++ ['.'] := rfl
  have htext' : m.text.toList = (front ++ objectName.toList) ++ '.' :: back := by
    rw [htext, hpoint, ← List.append_assoc, List.append_assoc, List.singleton_append]
  have ht : Scan.endsInT s.behindT (front ++ objectName.toList) = true := by
    rw [Scan.endsInT, List.foldl_append]
    rfl
  rcases h.callsMember_or_literalAt htext' ht with
    hcalls | ⟨before, u, v, after, hat, hfront, hback⟩
  · exact .inr hcalls
  · rcases List.append_eq_append_iff.mp hfront with ⟨more, -, hname⟩ | ⟨more, hmore, hquote⟩
    · -- there is no quote in the name of the object
      have hmem : '"' ∈ objectName.toList := by
        rw [hname]
        simp
      exact absurd hmem (by decide)
    · refine .inl ⟨before, more, v, after, ?_, hmore, hback⟩
      rw [hquote, List.append_assoc] at hat
      rwa [hpoint, List.append_assoc, List.append_assoc, List.singleton_append]

end Reads

end Markup

end FormCalc
