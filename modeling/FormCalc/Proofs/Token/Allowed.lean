import FormCalc.Proofs.Token.Characters

/-!
# What a lexer goes over

A lexer never goes over a character that a script may not hold.  Some of its readers check each
character, and others take only characters of a class that has no other ones.

* `allowed_layout`, `Lexeme.allowed_read`: what is split off, with a fault behind it or without.
* `Lexer.Crosses`: the way from one lexer to another is free of such characters.
* `Lexer.allowed_of_mem_pulls`: a text that is read up to its end is free of them.
-/

namespace FormCalc

open Text

/-- Whether every character may stand in a script. -/
def Allowed (cs : List Char) : Prop := ∀ c ∈ cs, isAllowed c = true

theorem allowed_nil : Allowed [] := List.forall_mem_nil _

theorem Allowed.cons {c : Char} {cs : List Char} (hc : isAllowed c = true) (h : Allowed cs) :
    Allowed (c :: cs) := List.forall_mem_cons.mpr ⟨hc, h⟩

theorem Allowed.append {cs ds : List Char} (hcs : Allowed cs) (hds : Allowed ds) :
    Allowed (cs ++ ds) := List.forall_mem_append.mpr ⟨hcs, hds⟩

/-! ### Readers -/

/-- Layout is split off one character at a time, inside a comment and outside. -/
theorem allowed_layout (inside : Bool) (cs : List Char) : Allowed (layout inside cs).1 := by
  induction cs generalizing inside with
  | nil => exact allowed_nil
  | cons c cs ih =>
    rw [layout]
    split
    · exact allowed_nil
    · rename_i hc
      have hallowed : isAllowed c = true := by simpa using hc
      split
      · exact .cons hallowed (ih _)
      · split
        · exact .cons hallowed (ih _)
        · exact allowed_nil

/-- The digits are not checked, but all of them are allowed. -/
theorem isAllowed_of_isNumberChar {c : Char} (h : isNumberChar c = true) : isAllowed c = true := by
  rcases Bool.or_eq_true_iff.mp h with hdigit | hsign
  · have hrange : 48 ≤ c.toNat ∧ c.toNat ≤ 57 := by
      simpa [Char.isDigit, UInt32.le_iff_toNat_le] using hdigit
    simp only [isAllowed, Bool.or_eq_true, Bool.and_eq_true, decide_eq_true_eq]
    omega
  · have hsigns : ['.', 'e', 'E', '+', '-'].all isAllowed = true := by decide
    exact List.all_eq_true.mp hsigns c (List.contains_iff_mem.mp hsign)

namespace Lexeme

theorem allowed_number (cs : List Char) : Allowed (number cs).text := by
  rw [text_number]
  exact fun c hc => isAllowed_of_isNumberChar (isNumberChar_of_mem_numberText c hc)

/-- A string is checked up to its end, wherever that is. -/
theorem allowed_quoted (cs : List Char) : Allowed (quoted cs).text := by
  have hquote : isAllowed '"' = true := rfl
  fun_induction quoted cs with
  | case1 => exact allowed_nil
  | case2 cs ih => exact .cons hquote (.cons hquote ih)
  | case3 cs _ =>
    rw [ended_text]
    exact .cons hquote allowed_nil
  | case4 c cs _ _ hc ih => exact .cons hc ih
  | case5 => exact allowed_nil

theorem allowed_word {c : Char} (hc : isAllowed c = true) (cs : List Char) :
    Allowed (word c cs).text := by
  rw [word, ended_text]
  refine .cons hc fun d hd => ?_
  exact (Bool.and_eq_true_iff.mp (of_mem_takeWhile cs d hd)).1

/-- A lexeme takes no character that a script may not hold. -/
theorem allowed_read (c : Char) (cs : List Char) : Allowed (read c cs).text := by
  have hreads := reads c cs
  generalize read c cs = lexeme at hreads ⊢
  cases hreads with
  | forbidden | unexpected => exact allowed_nil
  | string => exact .cons rfl (allowed_quoted cs)
  | number => exact allowed_number (c :: cs)
  | @symbol s =>
    have hsymbol : s.text.toList.all isAllowed = true := by cases s <;> decide
    exact List.all_eq_true.mp hsymbol
  | word hc => exact allowed_word hc cs

end Lexeme

theorem IsLexeme.allowed {kind : Kind} {text : String} (h : IsLexeme kind text) :
    Allowed text.toList := by
  obtain ⟨c, cs, htext, hread⟩ := h
  have hallowed := Lexeme.allowed_read c cs
  rw [hread] at hallowed
  rw [htext]
  exact hallowed

/-! ### Tokens -/

namespace Lexer

variable {lexer after last : Lexer} {token : Token}

/-- Whether one lexer comes to another over characters that a script may hold. -/
def Crosses (lexer last : Lexer) : Prop :=
  ∃ taken, lexer.rest = taken ++ last.rest ∧ last.pos = lexer.pos + utf8Length taken ∧
    Allowed taken

theorem Crosses.trans (hfirst : lexer.Crosses after) (hsecond : after.Crosses last) :
    lexer.Crosses last := by
  obtain ⟨taken, hrest, hpos, htaken⟩ := hfirst
  obtain ⟨more, hrest', hpos', hmore⟩ := hsecond
  refine ⟨taken ++ more, by rw [hrest, hrest', List.append_assoc], ?_, htaken.append hmore⟩
  rw [hpos', hpos, utf8Length_append, Nat.add_assoc]

/-- One call goes over a gap and the lexeme behind it. -/
theorem Step.crosses (h : Step lexer token after) : lexer.Crosses after := by
  have hrest := layout_append false lexer.rest
  have hgap := allowed_layout false lexer.rest
  cases h with
  | stopped => exact ⟨[], rfl, rfl, allowed_nil⟩
  | @finished gap _ hlayout =>
    rw [hlayout] at hrest hgap
    exact ⟨gap, hrest.symm, rfl, hgap⟩
  | @read gap cs c _ _ hlayout _ | @refused gap cs c _ _ hlayout =>
    rw [hlayout] at hrest hgap
    refine ⟨gap ++ (Lexeme.read c cs).text, ?_, ?_, hgap.append (Lexeme.allowed_read c cs)⟩
    · rw [← hrest, List.append_assoc, Lexeme.read_append]
    · rw [utf8Length_append, Nat.add_assoc]

theorem exists_crosses_of_mem_pullsWithin {count : Nat} (h : .ok token ∈ pullsWithin count lexer) :
    ∃ last, lexer.Crosses last ∧ token.span.stop = last.pos := by
  induction count generalizing lexer with
  | zero => cases h
  | succ count ih =>
    have hcrosses := lexer.step_next.crosses
    rw [pullsWithin_succ] at h
    split at h
    · simp at h
    rename_i hfault
    have hstop := lexer.step_next.stop_eq hfault
    split at h
    · obtain rfl : token = lexer.next.1 := by simpa using h
      exact ⟨_, hcrosses, hstop⟩
    · simp only [List.mem_cons, Except.ok.injEq] at h
      rcases h with rfl | h
      · exact ⟨_, hcrosses, hstop⟩
      · obtain ⟨last, hlast, hstop⟩ := ih h
        exact ⟨last, hcrosses.trans hlast, hstop⟩

/-- Where a token stands at the end of a text, every character of the text may stand in a
script. -/
theorem allowed_of_mem_pulls {text : String} (h : .ok token ∈ (ofText text).pulls)
    (hstop : token.span.stop = text.utf8ByteSize) : Allowed text.toList := by
  obtain ⟨last, ⟨taken, hrest, hpos, htaken⟩, hlast⟩ := exists_crosses_of_mem_pullsWithin h
  -- nothing is left behind the token, for what was taken has all the bytes of the text
  have htext : text.toList = taken ++ last.rest := hrest
  have hlength : utf8Length taken + utf8Length last.rest = utf8Length taken := by
    rw [← utf8Length_append, ← htext, utf8Length_toList, ← hstop, hlast, hpos]
    exact Nat.zero_add _
  have hnil : last.rest = [] := by
    cases hcs : last.rest with
    | nil => rfl
    | cons c cs =>
      have hc := c.utf8Size_pos
      rw [hcs, utf8Length_cons] at hlength
      omega
  rw [htext, hnil, List.append_nil]
  exact htaken

end Lexer

end FormCalc
