import FormCalc.Proofs.Token.Layout
import FormCalc.Proofs.Token.Place

/-!
# Lexing loses nothing

However often a lexer is called, as long as no fault came up the script is what it gave, the
layout in front of each token, and what is left.

* `Lexer.calls`: a number of calls of `Lexer.next`, one after the other.  They go on behind a
  word that ends the input, and at the end of the script the end mark comes again and again.
* `Token.Follows`: the layout that may stand in front of a token.
* `Separates`, `woven`: gaps that stand between tokens, and the text that both make up.

`isSkipped_layout` says what is skipped in front of a token, `Lexer.Step.separates` what one call
takes off the script, and `Lexer.calls_conserve` joins the calls.
-/

namespace FormCalc

open Text

/-! ### What is skipped is layout -/

/-- Whether characters are layout in front of others.  A comment may be open only where nothing
comes behind, and where no character comes that a script may hold there is nothing to say. -/
def IsSkipped (gap rest : List Char) : Prop :=
  (rest = [] → IsLastGap gap) ∧ ∀ c ∈ rest.head?, isAllowed c = true → IsGap gap

/-- Whether characters are the rest of a comment, up to the end of its line, and layout behind
it. -/
def IsOpened (gap rest : List Char) : Prop :=
  ∃ line, (∀ c ∈ line, isAllowed c = true ∧ isTerminator c = false) ∧
    ((gap = line ∧ ∀ c ∈ rest.head?, isAllowed c = false) ∨
      ∃ c more, gap = line ++ c :: more ∧ isTerminator c = true ∧ IsSkipped more rest)

theorem IsSkipped.blank {c : Char} {gap rest : List Char} (hc : isBlank c = true)
    (h : IsSkipped gap rest) : IsSkipped (c :: gap) rest := by
  refine ⟨fun hrest => ?_, fun d hd hallowed => .blank hc (h.2 d hd hallowed)⟩
  cases h.1 hrest with
  | ended hgap => exact .ended (.blank hc hgap)
  | comment hgap htext => exact .comment (.blank hc hgap) htext

/-- A comment is opened and goes on to the end of its line. -/
theorem IsOpened.comment {c : Char} {gap rest : List Char} (hc : isAllowed c = true)
    (hstarts : startsComment c (gap ++ rest) = true) (h : IsOpened gap rest) :
    IsSkipped (c :: gap) rest := by
  obtain ⟨line, hline, hends⟩ := h
  have hmark : c = ';' ∨ c = '/' ∧ (gap ++ rest).head? = some '/' := by
    simpa [startsComment] using hstarts
  have hcomment : IsComment (c :: line) := by
    refine ⟨?_, ?_, ?_⟩
    · rcases hmark with rfl | ⟨rfl, hslash⟩
      · exact ⟨line, .inl rfl⟩
      · -- the second slash is on the line, since it neither ends a line nor is forbidden
        cases line with
        | cons d body =>
          rcases hends with ⟨rfl, -⟩ | ⟨_, _, rfl, -⟩ <;> obtain rfl := Option.some.inj hslash <;>
            exact ⟨body, .inr rfl⟩
        | nil =>
          rcases hends with ⟨rfl, hrest⟩ | ⟨d, more, rfl, hd, -⟩
          · cases hrest '/' hslash
          · obtain rfl := Option.some.inj hslash
            cases hd
    · exact List.forall_mem_cons.mpr ⟨hc, fun d hd => (hline d hd).1⟩
    · refine List.forall_mem_cons.mpr ⟨?_, fun d hd => (hline d hd).2⟩
      rcases hmark with rfl | ⟨rfl, -⟩ <;> rfl
  rcases hends with ⟨rfl, hrest⟩ | ⟨d, more, rfl, hd, hmore⟩
  · refine ⟨fun _ => .comment .nil hcomment, fun d hd hallowed => ?_⟩
    rw [hrest d hd] at hallowed
    cases hallowed
  · refine ⟨fun hrest => ?_, fun e he hallowed => .comment hcomment hd (hmore.2 e he hallowed)⟩
    cases hmore.1 hrest with
    | ended hgap => exact .ended (.comment hcomment hd hgap)
    | @comment gap text hgap htext =>
      have hlast := IsLastGap.comment (.comment hcomment hd hgap) htext
      rwa [List.append_assoc, List.cons_append] at hlast

theorem layout_of_not_allowed {c : Char} (h : isAllowed c = false) (inside : Bool)
    (cs : List Char) : layout inside (c :: cs) = ([], c :: cs) := by
  rw [layout, if_pos (by simp [h])]

/-- What `layout` splits off, inside a comment and outside. -/
theorem opened_and_skipped (cs : List Char) :
    IsOpened (layout true cs).1 (layout true cs).2 ∧
      IsSkipped (layout false cs).1 (layout false cs).2 := by
  induction cs with
  | nil =>
    refine ⟨⟨[], List.forall_mem_nil _, .inl ⟨rfl, fun d hd => ?_⟩⟩, fun _ => .ended .nil,
      fun d hd => ?_⟩ <;> cases hd
  | cons c cs ih =>
    obtain ⟨hopened, hskipped⟩ := ih
    cases hallowed : isAllowed c with
    | false =>
      rw [layout_of_not_allowed hallowed, layout_of_not_allowed hallowed]
      refine ⟨⟨[], List.forall_mem_nil _, .inl ⟨rfl, ?_⟩⟩, fun hrest => ?_, ?_⟩
      · intro d hd
        obtain rfl := Option.some.inj hd
        exact hallowed
      · cases hrest
      · intro d hd hd'
        obtain rfl := Option.some.inj hd
        cases hallowed.symm.trans hd'
    | true =>
      constructor
      · rw [layout, if_neg (by simp [hallowed]), if_pos rfl]
        cases hline : isTerminator c with
        | true => exact ⟨[], List.forall_mem_nil _, .inr ⟨c, _, rfl, hline, hskipped⟩⟩
        | false =>
          obtain ⟨line, hall, hends⟩ := hopened
          refine ⟨c :: line, List.forall_mem_cons.mpr ⟨⟨hallowed, hline⟩, hall⟩, ?_⟩
          rcases hends with ⟨hgap, hrest⟩ | ⟨d, more, hgap, hd, hmore⟩
          · exact .inl ⟨congrArg (c :: ·) hgap, hrest⟩
          · exact .inr ⟨d, more, congrArg (c :: ·) hgap, hd, hmore⟩
      · rw [layout, if_neg (by simp [hallowed]), if_neg (by simp)]
        cases hcomment : startsComment c cs with
        | true =>
          rw [if_pos (by simp)]
          refine hopened.comment hallowed ?_
          rwa [layout_append]
        | false =>
          cases hblank : isBlank c with
          | true => exact hskipped.blank hblank
          | false => exact ⟨fun hrest => absurd hrest (List.cons_ne_nil c cs), fun _ _ _ => .nil⟩

/-- **What is skipped is layout.** -/
theorem isSkipped_layout {cs gap rest : List Char} (h : layout false cs = (gap, rest)) :
    IsSkipped gap rest := by
  have hskipped := (opened_and_skipped cs).2
  rwa [h] at hskipped

/-! ### Tokens and the gaps in front of them -/

/-- Whether a gap can stand in front of a token.  In front of the mark at the end of the text the
last comment may be open. -/
def Token.Follows (token : Token) (gap : String) : Prop :=
  if token.text = "" then IsLastGap gap.toList else IsGap gap.toList

/-- Whether from an offset of a text on there is a gap in front of each token, and nothing
else. -/
def Separates (text : String) : (offset : Nat) → (gaps : List String) → List Token → Prop
  | _, [], [] => True
  | offset, gap :: gaps, token :: tokens =>
    Span.Shows text ⟨offset, token.span.start⟩ gap ∧ token.Follows gap ∧
      Separates text token.span.stop gaps tokens
  | _, _, _ => False

/-- The text of gaps and tokens in turn. -/
def woven : (gaps : List String) → List Token → String
  | gap :: gaps, token :: tokens => gap ++ token.text ++ woven gaps tokens
  | _, _ => ""

/-- Whether a token stands where its span says and has a text, unless it marks the end of the
text. -/
structure Token.Stands (text : String) (token : Token) : Prop where
  shows : token.span.Shows text token.text
  atEnd : token.text = "" →
    token.kind = .endOfInput ∧ token.span = ⟨text.utf8ByteSize, text.utf8ByteSize⟩

namespace Lexer

variable {text : String} {lexer last : Lexer} {token : Token} {tokens : List Token}

/-- What `count` calls of `next` give, and the lexer behind them. -/
def calls : (count : Nat) → Lexer → List Token × Lexer
  | 0, lexer => ([], lexer)
  | count + 1, lexer =>
    let (token, after) := lexer.next
    let (tokens, last) := calls count after
    (token :: tokens, last)

theorem calls_succ (lexer : Lexer) (count : Nat) : lexer.calls (count + 1) =
    (lexer.next.1 :: (lexer.next.2.calls count).1, (lexer.next.2.calls count).2) := rfl

/-- The last of some calls is a call of the lexer behind the others. -/
theorem calls_last (lexer : Lexer) (count : Nat) : lexer.calls (count + 1) =
    ((lexer.calls count).1 ++ [(lexer.calls count).2.next.1], (lexer.calls count).2.next.2) := by
  induction count generalizing lexer with
  | zero => rfl
  | succ count ih =>
    rw [calls_succ, ih, calls_succ]
    rfl

/-- What a call takes off the script: a gap and the token behind it. -/
theorem Step.separates {after : Lexer} (h : Step lexer token after) (hfault : after.fault = none) :
    ∃ gap : String, lexer.rest = gap.toList ++ (token.text.toList ++ after.rest) ∧
      token.Follows gap ∧ token.span.start = lexer.pos + utf8Length gap.toList := by
  have hrest := layout_append false lexer.rest
  cases h with
  | stopped h =>
    rw [h] at hfault
    cases hfault
  | @finished gap _ hlayout =>
    rw [hlayout, List.append_nil] at hrest
    refine ⟨String.ofList gap, by simpa using hrest.symm, ?_, by simp [Span.emptyAt]⟩
    rw [Token.Follows, if_pos rfl, String.toList_ofList]
    exact (isSkipped_layout hlayout).1 rfl
  | @read gap cs c kind _ hlayout hverdict =>
    rw [hlayout] at hrest
    obtain ⟨taken, htaken, -⟩ := Lexeme.read_text hverdict
    have hallowed : isAllowed c = true := by
      cases hc : isAllowed c with
      | true => rfl
      | false =>
        rw [Lexeme.read, if_pos (by simp [hc])] at hverdict
        cases hverdict
    refine ⟨String.ofList gap, ?_, ?_, by simp⟩
    · rw [String.toList_ofList, String.toList_ofList, Lexeme.read_append, hrest]
    · have hsome : String.ofList (Lexeme.read c cs).text ≠ "" := by
        simp [htaken]
      rw [Token.Follows, if_neg hsome, String.toList_ofList]
      exact (isSkipped_layout hlayout).2 c rfl hallowed
  | refused => cases hfault

/-- A token without a text comes only where nothing is left. -/
theorem Step.rest_eq_nil {after : Lexer} (h : Step lexer token after) (hfault : after.fault = none)
    (htext : token.text = "") : token.kind = .endOfInput ∧ after.rest = [] := by
  cases h with
  | stopped h =>
    rw [h] at hfault
    cases hfault
  | finished => exact ⟨rfl, rfl⟩
  | read _ _ hverdict =>
    obtain ⟨taken, htaken, -⟩ := Lexeme.read_text hverdict
    simp [htaken] at htext
  | refused => cases hfault

/-- Behind a fault every call gives its mark, and nothing moves. -/
theorem calls_of_fault {fault : Fault LexicalCause} (h : lexer.fault = some fault) (count : Nat) :
    lexer.calls count = (List.replicate count (failed fault), lexer) := by
  induction count with
  | zero => rfl
  | succ count ih =>
    have hnext : lexer.next = (failed fault, lexer) := by rw [next, h]
    rw [calls_succ, hnext, ih, List.replicate_succ]

/-- A fault stays. -/
theorem fault_calls {fault : Fault LexicalCause} (h : lexer.fault = some fault) (count : Nat) :
    (lexer.calls count).2.fault = some fault := by
  rw [calls_of_fault h]
  exact h

/-- Whether some tokens are what a lexer gave on its way to another one. -/
structure Conserves (text : String) (lexer : Lexer) (tokens : List Token) (last : Lexer) :
    Prop where
  inOrder : InOrder lexer.pos last.pos (tokens.map Token.span)
  stands : ∀ token ∈ tokens, token.Stands text
  pos_eq : last.pos = (tokens.map (·.span.stop)).getLastD lexer.pos
  separated : ∃ gaps, Separates text lexer.pos gaps tokens ∧
    lexer.rest = (woven gaps tokens).toList ++ last.rest
  atEnd : ∀ token ∈ tokens, token.text = "" → last.rest = []

/-- One more call in front. -/
theorem Step.conserves_calls {after : Lexer} (h : Step lexer token after)
    (hstands : lexer.Stands text) (hfault : after.fault = none)
    (hmore : Conserves text after tokens last) :
    Conserves text lexer (token :: tokens) last := by
  obtain ⟨hafter, hplaced, hstart⟩ := h.placed hstands hfault
  have hstop := h.stop_eq hfault
  obtain ⟨gap, hrest, hfollows, hgap⟩ := h.separates hfault
  obtain ⟨front, htext, hpos⟩ := hstands
  obtain ⟨gaps, hgaps, hwoven⟩ := hmore.separated
  refine ⟨⟨hstart, hplaced.shows.start_le_stop, ?_⟩, ?_, ?_,
    ⟨gap :: gaps, ⟨?_, hfollows, ?_⟩, ?_⟩, ?_⟩
  · exact hstop ▸ hmore.inOrder
  · refine List.forall_mem_cons.mpr ⟨⟨hplaced.shows, fun hnone => ?_⟩, hmore.stands⟩
    -- nothing is left behind the token, so it stands at the end of the text
    obtain ⟨hkind, hnil⟩ := h.rest_eq_nil hfault hnone
    obtain ⟨front', htext', hpos'⟩ := hafter
    obtain ⟨-, -, -, -, hlength⟩ := hplaced.shows
    rw [hnil, List.append_nil] at htext'
    rw [hnone] at hlength
    have hend : after.pos = text.utf8ByteSize := by
      rw [← hpos', ← htext', utf8Length_toList]
    refine ⟨hkind, ?_⟩
    rw [← hend, ← hstop]
    exact congrArg (Span.mk · _) hlength.symm
  · rw [List.map_cons, List.getLastD_cons, hstop]
    exact hmore.pos_eq
  · exact ⟨front, token.text.toList ++ after.rest, by rw [htext, hrest], hpos, hgap⟩
  · exact hstop ▸ hgaps
  · simp only [woven, String.toList_append, List.append_assoc, ← hwoven]
    exact hrest
  · refine List.forall_mem_cons.mpr ⟨fun hnone => ?_, hmore.atEnd⟩
    rw [(h.rest_eq_nil hfault hnone).2] at hwoven
    exact (List.append_eq_nil_iff.mp hwoven.symm).2

theorem conserves_calls (hstands : lexer.Stands text) {count : Nat}
    (h : (lexer.calls count).2.fault = none) :
    Conserves text lexer (lexer.calls count).1 (lexer.calls count).2 := by
  induction count generalizing lexer with
  | zero => exact ⟨Nat.le_refl _, nofun, rfl, ⟨[], trivial, rfl⟩, nofun⟩
  | succ count ih =>
    have hfault : lexer.next.2.fault = none := by
      cases hnext : lexer.next.2.fault with
      | none => rfl
      | some fault => exact (nomatch (fault_calls hnext count).symm.trans h)
    obtain ⟨hafter, -⟩ := lexer.step_next.placed hstands hfault
    exact lexer.step_next.conserves_calls hstands hfault (ih hafter h)

theorem length_calls (lexer : Lexer) (count : Nat) : (lexer.calls count).1.length = count := by
  induction count generalizing lexer with
  | zero => rfl
  | succ count ih => exact congrArg (· + 1) (ih lexer.next.2)

end Lexer

/-- **Lexing loses nothing.**  After any number of calls that meet no fault, the tokens stand one
after the other where their spans say; each has a text but the mark at the end of the script; the
lexer stands at the end of the last one; and between them there is layout and nothing else, so
that gaps and tokens make up the script as far as it was read, and the whole of it once its end
has been marked. -/
theorem calls_conserve {text : String} {count : Nat} {tokens : List Token} {last : Lexer}
    (h : (Lexer.ofText text).calls count = (tokens, last)) (hfault : last.fault = none) :
    tokens.length = count ∧
    (tokens.map Token.span).Pairwise (fun a b => a.stop ≤ b.start) ∧
    (∀ token ∈ tokens, token.span.start ≤ token.span.stop ∧ token.span.stop ≤ last.pos ∧
      token.span.Shows text token.text ∧ (token.text = "" →
        token.kind = .endOfInput ∧ token.span = ⟨text.utf8ByteSize, text.utf8ByteSize⟩)) ∧
    last.pos = (tokens.map (·.span.stop)).getLastD 0 ∧
    ∃ gaps, Separates text 0 gaps tokens ∧ text = woven gaps tokens ++ String.ofList last.rest ∧
      ∀ token ∈ tokens, token.text = "" → text = woven gaps tokens := by
  have hcalls : (Lexer.ofText text).Stands text := ⟨[], rfl, rfl⟩
  have hconserves := @Lexer.conserves_calls text (Lexer.ofText text) hcalls count
  have hlength := (Lexer.ofText text).length_calls count
  rw [h] at hconserves hlength
  obtain ⟨hinOrder, hstands, hpos, ⟨gaps, hgaps, hwoven⟩, hend⟩ := hconserves hfault
  have htext : text = woven gaps tokens ++ String.ofList last.rest := by
    rw [← String.toList_inj, String.toList_append, String.toList_ofList]
    exact hwoven
  refine ⟨hlength, hinOrder.apart, fun token htoken => ?_, hpos, gaps, hgaps, htext, ?_⟩
  · have hstop := (hinOrder.inside _ (List.mem_map_of_mem htoken)).2
    have hstandsToken := hstands token htoken
    exact ⟨hstandsToken.shows.start_le_stop, hstop, hstandsToken.shows, hstandsToken.atEnd⟩
  · intro token htoken hnone
    rw [hend token htoken hnone] at htext
    rw [htext]
    simp

/-- A word that ends the input in the middle of the text, and an open comment at its end. -/
theorem calls_conserve_endWord : ∃ tokens last,
    (Lexer.ofText "; é\r.5 eof[*]//x").calls 7 = (tokens, last) ∧ last.fault = none ∧
      ∃ gaps, Separates "; é\r.5 eof[*]//x" 0 gaps tokens ∧
        "; é\r.5 eof[*]//x" = woven gaps tokens := by
  have hfault : ((Lexer.ofText "; é\r.5 eof[*]//x").calls 7).2.fault = none := by decide +kernel
  have hend : ∃ token ∈ ((Lexer.ofText "; é\r.5 eof[*]//x").calls 7).1, token.text = "" := by
    decide +kernel
  obtain ⟨token, htoken, hnone⟩ := hend
  obtain ⟨-, -, -, -, gaps, hgaps, -, hwhole⟩ := calls_conserve rfl hfault
  exact ⟨_, _, rfl, hfault, gaps, hgaps, hwhole token htoken hnone⟩

end FormCalc
