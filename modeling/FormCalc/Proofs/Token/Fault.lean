import FormCalc.Proofs.Token.Place

/-!
# Where lexical faults lie

A fault blames a stretch of the script: whole characters of it, from one end to the other
(`Span.Inside`).  A lexical fault blames the character at which a lexeme stops, what was read of
it, or both, so it is enough to know that this character is the next one (`Lexeme.head?_rest`).
-/

namespace FormCalc

open Text

/-! ### Stretches of a text -/

/-- Whether a span is a stretch of whole characters of a text. -/
structure Span.Inside (text : String) (span : Span) : Prop where
  start_le_stop : span.start ≤ span.stop
  start : IsBoundary text span.start
  stop : IsBoundary text span.stop

namespace Span

variable {text : String}

theorem Shows.within {span : Span} {part : String} (h : span.Shows text part) :
    span.Inside text := ⟨h.start_le_stop, h.start, h.stop⟩

theorem inside_origin (text : String) : origin.Inside text :=
  ⟨Nat.le_refl _, isBoundary_zero text, isBoundary_zero text⟩

/-- The smallest span around two stretches begins where one of them begins and ends where one of
them ends. -/
theorem Inside.cover {a b : Span} (ha : a.Inside text) (hb : b.Inside text) :
    (a.cover b).Inside text := by
  have hle := ha.start_le_stop
  refine ⟨?_, ?_, ?_⟩
  · show min a.start b.start ≤ max a.stop b.stop
    omega
  · rcases Nat.le_total a.start b.start with h | h
    · rw [Span.cover, Nat.min_eq_left h]
      exact ha.start
    · rw [Span.cover, Nat.min_eq_right h]
      exact hb.start
  · rcases Nat.le_total a.stop b.stop with h | h
    · rw [Span.cover, Nat.max_eq_right h]
      exact hb.stop
    · rw [Span.cover, Nat.max_eq_left h]
      exact ha.stop

end Span

/-! ### Troubles -/

/-- The character that a trouble is about. -/
def Trouble.char? : Trouble → Option Char
  | .invalid c | .unexpected c | .malformed c => some c
  | .unterminated => none

namespace Lexeme

theorem ended_head? {kind : Kind} {text rest : List Char} {trouble : Trouble}
    (h : (ended kind text rest).verdict = .error trouble) :
    ∀ c ∈ trouble.char?, (ended kind text rest).rest.head? = some c := by
  unfold ended at h ⊢
  split at h
  · cases h
  · dsimp only at h
    split at h
    · cases h
    · obtain rfl := Except.error.inj h
      intro d hd
      exact hd

theorem number_head? {cs : List Char} {trouble : Trouble}
    (h : (number cs).verdict = .error trouble) :
    ∀ c ∈ trouble.char?, (number cs).rest.head? = some c := by
  unfold number at h ⊢
  dsimp only at h ⊢
  split at h
  · cases h
  · dsimp only at h
    split at h
    · obtain rfl := Except.error.inj h
      exact fun d hd => hd
    · cases h

theorem quoted_head? {cs : List Char} {trouble : Trouble}
    (h : (quoted cs).verdict = .error trouble) :
    ∀ c ∈ trouble.char?, (quoted cs).rest.head? = some c := by
  fun_induction quoted cs with
  | case1 =>
    obtain rfl := Except.error.inj h
    intro d hd
    cases hd
  | case2 cs ih => exact ih h
  | case3 cs _ => exact ended_head? h
  | case4 c cs _ _ _ ih => exact ih h
  | case5 =>
    obtain rfl := Except.error.inj h
    exact fun d hd => hd

/-- **A lexeme stops at the character that is the trouble with it.** -/
theorem head?_rest {c : Char} {cs : List Char} {trouble : Trouble}
    (h : (read c cs).verdict = .error trouble) :
    ∀ d ∈ trouble.char?, (read c cs).rest.head? = some d := by
  have hreads := reads c cs
  generalize read c cs = lexeme at h hreads ⊢
  cases hreads with
  | forbidden | unexpected =>
    obtain rfl := Except.error.inj h
    exact fun d hd => hd
  | string => exact quoted_head? h
  | number => exact number_head? h
  | symbol => cases h
  | word => exact ended_head? h

end Lexeme

/-! ### Faults -/

/-- A fault blames what was read, or the character behind it, or both. -/
theorem Trouble.inside_toFault {text : String} {front lexeme rest : List Char} {trouble : Trouble}
    (htext : text.toList = front ++ (lexeme ++ rest))
    (hhead : ∀ c ∈ trouble.char?, rest.head? = some c) :
    (trouble.toFault (utf8Length front)
      (utf8Length front + utf8Length lexeme)).span.Inside text := by
  have hstart : IsBoundary text (utf8Length front) := ⟨front, lexeme ++ rest, htext, rfl⟩
  have hstop : IsBoundary text (utf8Length front + utf8Length lexeme) :=
    ⟨front ++ lexeme, rest, by rw [htext, List.append_assoc], utf8Length_append front lexeme⟩
  have hnext : ∀ c ∈ trouble.char?,
      IsBoundary text (utf8Length front + utf8Length lexeme + c.utf8Size) := by
    intro c hc
    obtain ⟨more, rfl⟩ := List.head?_eq_some_iff.mp (hhead c hc)
    refine ⟨front ++ lexeme ++ [c], more, by rw [htext]; simp, ?_⟩
    simp [Nat.add_assoc]
  cases trouble with
  | invalid c => exact ⟨Nat.le_add_right _ _, hstop, hnext c rfl⟩
  | unexpected c => exact ⟨Nat.le_add_right _ _, hstop, hnext c rfl⟩
  | unterminated => exact ⟨Nat.le_add_right _ _, hstart, hstop⟩
  | malformed c =>
    exact ⟨Nat.le_trans (Nat.le_add_right _ _) (Nat.le_add_right _ _), hstart, hnext c rfl⟩

/-- The span of a token, or of the fault in its place. -/
def pullSpan : Except (Fault LexicalCause) Token → Span
  | .ok token => token.span
  | .error fault => fault.span

namespace Lexer

variable {text : String} {lexer : Lexer}

/-- A call blames a stretch of the text where it meets a fault. -/
theorem inside_next (hstands : lexer.Stands text) (hfault : lexer.fault = none)
    {fault : Fault LexicalCause} (h : lexer.next.2.fault = some fault) :
    fault.span.Inside text := by
  obtain ⟨front, htext, hpos⟩ := hstands
  have hgap := layout_append false lexer.rest
  unfold next at h
  rw [hfault] at h
  dsimp only at h
  split at h
  · cases h
  · rename_i c cs hrest
    rw [hrest, ← Lexeme.read_append c cs] at hgap
    split at h
    · cases h
    · rename_i trouble hverdict
      obtain rfl := Option.some.inj h
      have hfront : text.toList = (front ++ (layout false lexer.rest).1) ++
          ((Lexeme.read c cs).text ++ (Lexeme.read c cs).rest) := by
        rw [htext, List.append_assoc, hgap]
      have hinside := Trouble.inside_toFault hfront (Lexeme.head?_rest hverdict)
      rwa [utf8Length_append, hpos] at hinside

theorem inside_of_mem_pullsWithin {count : Nat} (hstands : lexer.Stands text)
    (hfault : lexer.fault = none) {pull : Except (Fault LexicalCause) Token}
    (h : pull ∈ pullsWithin count lexer) : (pullSpan pull).Inside text := by
  induction count generalizing lexer with
  | zero => cases h
  | succ count ih =>
    rw [pullsWithin_succ] at h
    split at h
    · rename_i found hfound
      obtain rfl := List.mem_singleton.mp h
      exact inside_next hstands hfault hfound
    · rename_i hnone
      obtain ⟨hafter, hplaced, -⟩ := lexer.step_next.placed hstands hnone
      split at h
      · obtain rfl := List.mem_singleton.mp h
        exact hplaced.shows.within
      · rcases List.mem_cons.mp h with rfl | h
        · exact hplaced.shows.within
        · exact ih hafter hnone h

/-- **Every token and every lexical fault lies on a stretch of the text.** -/
theorem inside_of_mem_pulls {pull : Except (Fault LexicalCause) Token}
    (h : pull ∈ (ofText text).pulls) : (pullSpan pull).Inside text :=
  inside_of_mem_pullsWithin ⟨[], rfl, rfl⟩ rfl h

end Lexer

end FormCalc
