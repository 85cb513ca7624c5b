import FormCalc.Proofs.Token.Alone

/-!
# Where tokens stand

The span of a token is where its text stands in the script.

* `IsBoundary`: an offset that falls into no character.
* `Span.Shows`: a span at which some text stands.
* `InOrder`: spans that stand one after the other between two offsets.

The tokens of a text stand in their order, each where its span says (`Lexer.placed_pulls`), and
a keyword stands there in its spelling (`Lexeme.text_of_keyword`).
-/

namespace FormCalc

/-! ### Offsets and spans -/

/-- Whether an offset is the end of a text or falls on the first byte of a character. -/
def IsBoundary (text : String) (offset : Nat) : Prop :=
  ∃ front back, text.toList = front ++ back ∧ utf8Length front = offset

theorem IsBoundary.le {text : String} {offset : Nat} (h : IsBoundary text offset) :
    offset ≤ text.utf8ByteSize := by
  obtain ⟨front, back, htext, rfl⟩ := h
  rw [← utf8Length_toList, htext, utf8Length_append]
  omega

theorem isBoundary_zero (text : String) : IsBoundary text 0 := ⟨[], text.toList, rfl, rfl⟩

theorem isBoundary_end (text : String) : IsBoundary text text.utf8ByteSize :=
  ⟨text.toList, [], (List.append_nil _).symm, utf8Length_toList text⟩

/-- Whether a span of a text is where `part` stands. -/
def Span.Shows (text : String) (span : Span) (part : String) : Prop :=
  ∃ front back, text.toList = front ++ (part.toList ++ back) ∧ utf8Length front = span.start ∧
    span.stop = span.start + utf8Length part.toList

namespace Span.Shows

variable {text part : String} {span : Span}

theorem start (h : span.Shows text part) : IsBoundary text span.start := by
  obtain ⟨front, back, htext, hstart, -⟩ := h
  exact ⟨front, part.toList ++ back, htext, hstart⟩

theorem stop (h : span.Shows text part) : IsBoundary text span.stop := by
  obtain ⟨front, back, htext, hstart, hstop⟩ := h
  refine ⟨front ++ part.toList, back, by rw [htext, List.append_assoc], ?_⟩
  rw [utf8Length_append, hstop, hstart]

theorem start_le_stop (h : span.Shows text part) : span.start ≤ span.stop := by
  obtain ⟨front, back, -, -, hstop⟩ := h
  omega

end Span.Shows

/-- Whether spans stand one after the other between two offsets. -/
def InOrder (lo hi : Nat) : List Span → Prop
  | [] => lo ≤ hi
  | span :: rest => lo ≤ span.start ∧ span.start ≤ span.stop ∧ InOrder span.stop hi rest

namespace InOrder

variable {lo mid hi lo' hi' : Nat} {spans more : List Span}

theorem le (h : InOrder lo hi spans) : lo ≤ hi := by
  induction spans generalizing lo with
  | nil => exact h
  | cons span rest ih =>
    obtain ⟨hstart, hspan, hrest⟩ := h
    have := ih hrest
    omega

theorem mono (h : InOrder lo hi spans) (hlo : lo' ≤ lo) (hhi : hi ≤ hi') :
    InOrder lo' hi' spans := by
  induction spans generalizing lo lo' with
  | nil => exact Nat.le_trans hlo (Nat.le_trans h hhi)
  | cons span rest ih =>
    obtain ⟨hstart, hspan, hrest⟩ := h
    exact ⟨Nat.le_trans hlo hstart, hspan, ih hrest (Nat.le_refl _)⟩

theorem append (h : InOrder lo mid spans) (hmore : InOrder mid hi more) :
    InOrder lo hi (spans ++ more) := by
  induction spans generalizing lo with
  | nil => exact hmore.mono h (Nat.le_refl _)
  | cons span rest ih =>
    obtain ⟨hstart, hspan, hrest⟩ := h
    exact ⟨hstart, hspan, ih hrest⟩

theorem inside (h : InOrder lo hi spans) : ∀ span ∈ spans, lo ≤ span.start ∧ span.stop ≤ hi := by
  induction spans generalizing lo with
  | nil => simp
  | cons span rest ih =>
    obtain ⟨hstart, hspan, hrest⟩ := h
    have hstop := hrest.le
    intro part hpart
    rcases List.mem_cons.mp hpart with rfl | hpart
    · exact ⟨hstart, hstop⟩
    · obtain ⟨hpstart, hpstop⟩ := ih hrest part hpart
      exact ⟨by omega, hpstop⟩

theorem apart (h : InOrder lo hi spans) : spans.Pairwise fun a b => a.stop ≤ b.start := by
  induction spans generalizing lo with
  | nil => exact .nil
  | cons span rest ih =>
    obtain ⟨-, -, hrest⟩ := h
    exact .cons (fun part hpart => (hrest.inside part hpart).1) (ih hrest)

end InOrder

/-! ### Keywords -/

namespace Lexeme

/-- A lexeme that is a keyword is its spelling. -/
theorem text_of_keyword {c : Char} {cs : List Char} {w : Keyword}
    (h : (read c cs).verdict = .ok (.keyword w)) : String.ofList (read c cs).text = w.text := by
  have hreads := reads c cs
  generalize read c cs = lexeme at h hreads ⊢
  cases hreads with
  | forbidden | symbol | unexpected => cases h
  | string => cases quoted_kind h
  | number => cases number_kind h
  | word =>
    rw [word, ended_text]
    have hname : Kind.keyword w ≠ .identifier := by simp
    exact (Option.some.inj (Kind.word?_eq_some (ended_verdict h) hname)).symm

end Lexeme

/-! ### Tokens in their places -/

/-- Whether a token stands in a text where its span says, keywords in their spelling. -/
structure Token.Placed (text : String) (token : Token) : Prop where
  shows : token.span.Shows text token.text
  keyword : ∀ w, token.kind = .keyword w → token.text = w.text

namespace Lexer

variable {text : String} {lexer : Lexer}

/-- Whether a lexer has this text in front of it, from its offset on. -/
def Stands (text : String) (lexer : Lexer) : Prop :=
  ∃ front, text.toList = front ++ lexer.rest ∧ utf8Length front = lexer.pos

theorem Stands.isBoundary (h : lexer.Stands text) : IsBoundary text lexer.pos := by
  obtain ⟨front, htext, hpos⟩ := h
  exact ⟨front, lexer.rest, htext, hpos⟩

/-- A step of the lexer puts the token in its place, behind the offset where it stood. -/
theorem Step.placed {token : Token} {after : Lexer} (h : Step lexer token after)
    (hstands : lexer.Stands text) (hfault : after.fault = none) :
    after.Stands text ∧ token.Placed text ∧ lexer.pos ≤ token.span.start := by
  obtain ⟨front, htext, hpos⟩ := hstands
  have hrest := layout_append false lexer.rest
  cases h with
  | stopped h =>
    rw [h] at hfault
    cases hfault
  | @finished gap _ hlayout =>
    rw [hlayout, List.append_nil] at hrest
    rw [← hrest] at htext
    have hfront : utf8Length (front ++ gap) = lexer.pos + utf8Length gap := by
      rw [utf8Length_append, hpos]
    have htext' : text.toList = (front ++ gap) ++ [] := by rw [htext, List.append_nil]
    refine ⟨⟨front ++ gap, htext', hfront⟩, ⟨⟨front ++ gap, [], htext', hfront, ?_⟩, ?_⟩, ?_⟩
    · simp [Span.emptyAt]
    · intro w hw
      cases hw
    · exact Nat.le_add_right _ _
  | @read gap cs c kind _ hlayout hverdict =>
    rw [hlayout] at hrest
    rw [← hrest, ← Lexeme.read_append c cs] at htext
    have hfront : utf8Length (front ++ gap) = lexer.pos + utf8Length gap := by
      rw [utf8Length_append, hpos]
    refine ⟨⟨front ++ gap ++ (Lexeme.read c cs).text, ?_, ?_⟩,
      ⟨⟨front ++ gap, (Lexeme.read c cs).rest, ?_, hfront, ?_⟩, ?_⟩, ?_⟩
    · simp only [htext, List.append_assoc]
    · rw [utf8Length_append, hfront]
    · rw [htext, String.toList_ofList, List.append_assoc]
    · rw [String.toList_ofList]
    · rintro w rfl
      exact Lexeme.text_of_keyword hverdict
    · exact Nat.le_add_right _ _
  | refused => cases hfault

theorem placed_pullsWithin {count : Nat} (hstands : lexer.Stands text) {tokens : List Token}
    {rest : List (Except (Fault LexicalCause) Token)}
    (h : pullsWithin count lexer = tokens.map .ok ++ rest) :
    InOrder lexer.pos text.utf8ByteSize (tokens.map Token.span) ∧
      ∀ token ∈ tokens, token.Placed text := by
  induction count generalizing lexer tokens with
  | zero =>
    obtain ⟨hnil, -⟩ := List.append_eq_nil_iff.mp h.symm
    obtain rfl := List.map_eq_nil_iff.mp hnil
    exact ⟨hstands.isBoundary.le, by simp⟩
  | succ count ih =>
    cases tokens with
    | nil => exact ⟨hstands.isBoundary.le, by simp⟩
    | cons first more =>
      rw [pullsWithin_succ] at h
      split at h
      · simp at h
      · rename_i hfault
        obtain ⟨hafter, hplaced, hstart⟩ := lexer.step_next.placed hstands hfault
        have hstop := lexer.step_next.stop_eq hfault
        split at h
        · simp only [List.map_cons, List.cons_append, List.cons.injEq, Except.ok.injEq] at h
          obtain ⟨rfl, hnil⟩ := h
          obtain ⟨hnil, -⟩ := List.append_eq_nil_iff.mp hnil.symm
          obtain rfl := List.map_eq_nil_iff.mp hnil
          refine ⟨⟨hstart, hplaced.shows.start_le_stop, hplaced.shows.stop.le⟩, ?_⟩
          simpa using hplaced
        · simp only [List.map_cons, List.cons_append, List.cons.injEq, Except.ok.injEq] at h
          obtain ⟨rfl, hmore⟩ := h
          obtain ⟨horder, hall⟩ := ih hafter hmore
          rw [← hstop] at horder
          exact ⟨⟨hstart, hplaced.shows.start_le_stop, horder⟩,
            List.forall_mem_cons.mpr ⟨hplaced, hall⟩⟩

/-- **Tokens stand where their spans say**, one after the other. -/
theorem placed_pulls {tokens : List Token} {rest : List (Except (Fault LexicalCause) Token)}
    (h : (ofText text).pulls = tokens.map .ok ++ rest) :
    InOrder 0 text.utf8ByteSize (tokens.map Token.span) ∧ ∀ token ∈ tokens, token.Placed text :=
  placed_pullsWithin ⟨[], rfl, rfl⟩ h

end Lexer

end FormCalc
