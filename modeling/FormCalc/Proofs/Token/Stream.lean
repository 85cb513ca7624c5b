import FormCalc.Token.Lexer

/-!
# The stream of tokens

What holds of every token that a lexer gives, wherever it started.

* `Lexeme.Reads`: how one lexeme can be read.
* `Lexer.Step`: what one call of `Lexer.next` can do.
* `Lexer.Step.conserves`: the offset and the bytes that are left add up to the same.
* `Lexer.stop_le_of_mem_pulls`: tokens end inside the text.
* `Lexer.kind_of_pulls`: only the last token of all can be an end mark.
-/

namespace FormCalc

open Text

theorem utf8Length_toList (text : String) : utf8Length text.toList = text.utf8ByteSize := by
  have h : ∀ cs : List Char, utf8Length cs = (String.ofList cs).utf8ByteSize := by
    intro cs
    induction cs with
    | nil => rfl
    | cons c cs ih =>
      rw [utf8Length_cons, ← List.singleton_append, String.ofList_append,
        String.utf8ByteSize_append, ← String.singleton_eq_ofList, String.utf8ByteSize_singleton, ih]
  rw [h, String.ofList_toList]

namespace Lexeme

/-- What reading the lexeme that starts with `c` can do. -/
inductive Reads (c : Char) (cs : List Char) : Lexeme → Prop
  | forbidden (hc : isAllowed c = false) : Reads c cs ⟨[], c :: cs, .error (.invalid c)⟩
  | string (hc : isAllowed c = true) (hquote : c = '"') : Reads c cs ((quoted cs).after ['"'])
  | number (hc : isAllowed c = true) (hquote : c ≠ '"') (hnumber : startsNumber (c :: cs) = true) :
      Reads c cs (number (c :: cs))
  | symbol {s : Symbol} (hc : isAllowed c = true) (hquote : c ≠ '"')
      (hnumber : startsNumber (c :: cs) = false) (hs : symbolAt (c :: cs) = some s) :
      Reads c cs ⟨s.text.toList, (c :: cs).drop s.text.length, .ok (.symbol s)⟩
  | word (hc : isAllowed c = true) (hquote : c ≠ '"') (hnumber : startsNumber (c :: cs) = false)
      (hs : symbolAt (c :: cs) = none) (hstart : isIdentifierStart c = true) :
      Reads c cs (word c cs)
  | unexpected (hc : isAllowed c = true) (hnumber : startsNumber (c :: cs) = false)
      (hstart : isIdentifierStart c = false) :
      Reads c cs ⟨[], c :: cs, .error (.unexpected c)⟩

theorem reads (c : Char) (cs : List Char) : Reads c cs (read c cs) := by
  unfold read
  split
  · rename_i hc
    exact .forbidden (by simpa using hc)
  rename_i hc
  have hallowed : isAllowed c = true := by simpa using hc
  split
  · rename_i hquote
    exact .string hallowed (beq_iff_eq.mp hquote)
  rename_i hquote
  have hother : c ≠ '"' := fun heq => hquote (beq_iff_eq.mpr heq)
  split
  · rename_i hnumber
    exact .number hallowed hother hnumber
  rename_i hnumber
  have hnone : startsNumber (c :: cs) = false := Bool.eq_false_iff.mpr hnumber
  split
  · rename_i s hs
    exact .symbol hallowed hother hnone hs
  rename_i hs
  split
  · rename_i hstart
    exact .word hallowed hother hnone hs hstart
  · rename_i hstart
    exact .unexpected hallowed hnone (Bool.eq_false_iff.mpr hstart)

end Lexeme

namespace Lexer

variable {lexer : Lexer}

/-- What one call of `next` can do. -/
inductive Step (lexer : Lexer) : Token → Lexer → Prop
  /-- The fault that stopped the lexer goes on to stop it. -/
  | stopped {fault : Fault LexicalCause} (h : lexer.fault = some fault) :
      Step lexer (failed fault) lexer
  /-- There is only layout left. -/
  | finished {gap : List Char} (h : lexer.fault = none)
      (hlayout : layout false lexer.rest = (gap, [])) : Step lexer ⟨.endOfInput, "", .emptyAt (lexer.pos + utf8Length gap)⟩
        ⟨lexer.pos + utf8Length gap, [], none⟩
  /-- A token is read. -/
  | read {gap cs : List Char} {c : Char} {kind : Kind} (h : lexer.fault = none)
      (hlayout : layout false lexer.rest = (gap, c :: cs))
      (hverdict : (Lexeme.read c cs).verdict = .ok kind) :
      Step lexer
        ⟨kind, String.ofList (Lexeme.read c cs).text, ⟨lexer.pos + utf8Length gap,
          lexer.pos + utf8Length gap + utf8Length (Lexeme.read c cs).text⟩⟩
        ⟨lexer.pos + utf8Length gap + utf8Length (Lexeme.read c cs).text,
          (Lexeme.read c cs).rest, none⟩
  /-- A fault comes up. -/
  | refused {gap cs : List Char} {c : Char} {fault : Fault LexicalCause} (h : lexer.fault = none)
      (hlayout : layout false lexer.rest = (gap, c :: cs)) :
      Step lexer (failed fault)
        ⟨lexer.pos + utf8Length gap + utf8Length (Lexeme.read c cs).text,
          (Lexeme.read c cs).rest, some fault⟩

theorem step_next (lexer : Lexer) : Step lexer lexer.next.1 lexer.next.2 := by
  unfold next
  split
  · rename_i fault hfault
    exact .stopped hfault
  · rename_i hfault
    split
    rename_i gap rest hlayout
    dsimp only
    split
    · exact .finished hfault hlayout
    · split
      · rename_i kind hverdict
        exact .read hfault hlayout hverdict
      · exact .refused hfault hlayout

/-- Where no fault came up, a token ends where the lexer goes on. -/
theorem Step.stop_eq {token : Token} {after : Lexer} (h : Step lexer token after)
    (hfault : after.fault = none) : token.span.stop = after.pos := by
  cases h with
  | stopped h => exact nomatch h.symm.trans hfault
  | finished | read => rfl
  | refused => exact nomatch hfault

/-- **Nothing is lost**: what the offset gains the text loses. -/
theorem Step.conserves {token : Token} {after : Lexer} (h : Step lexer token after) :
    after.pos + utf8Length after.rest = lexer.pos + utf8Length lexer.rest := by
  have hsplit : ∀ {gap rest}, layout false lexer.rest = (gap, rest) →
      utf8Length gap + utf8Length rest = utf8Length lexer.rest := by
    intro gap rest heq
    rw [← layout_append false lexer.rest, heq, utf8Length_append]
  have hread : ∀ c cs, utf8Length (Lexeme.read c cs).text + utf8Length (Lexeme.read c cs).rest =
      utf8Length (c :: cs) := by
    intro c cs
    rw [← utf8Length_append, Lexeme.read_append]
  cases h with
  | stopped => rfl
  | finished _ hlayout =>
    have := hsplit hlayout
    simp only [utf8Length_nil] at this ⊢
    omega
  | @read gap cs c _ _ hlayout _ | @refused gap cs c _ _ hlayout =>
    have := hsplit hlayout
    have := hread c cs
    simp only
    omega

theorem pullsWithin_succ (count : Nat) (lexer : Lexer) :
    pullsWithin (count + 1) lexer =
      match lexer.next.2.fault with
      | some fault => [.error fault]
      | none =>
        if lexer.next.1.kind = .endOfInput then [.ok lexer.next.1]
        else .ok lexer.next.1 :: pullsWithin count lexer.next.2 := rfl

theorem stop_le_of_mem_pullsWithin {count : Nat} {token : Token}
    (h : .ok token ∈ pullsWithin count lexer) :
    token.span.stop ≤ lexer.pos + utf8Length lexer.rest := by
  induction count generalizing lexer with
  | zero => exact nomatch h
  | succ count ih =>
    rw [pullsWithin_succ] at h
    rw [← lexer.step_next.conserves]
    split at h
    · simp at h
    · rename_i hfault
      have hstop := lexer.step_next.stop_eq hfault
      split at h
      · simp only [List.mem_singleton, Except.ok.injEq] at h
        rw [h]
        omega
      · simp only [List.mem_cons, Except.ok.injEq] at h
        rcases h with rfl | h
        · omega
        · exact ih h

/-- Every token ends inside the text. -/
theorem stop_le_of_mem_pulls {text : String} {token : Token}
    (h : .ok token ∈ (ofText text).pulls) : token.span.stop ≤ text.utf8ByteSize := by
  have hstop := stop_le_of_mem_pullsWithin h
  rwa [ofText, Nat.zero_add, utf8Length_toList] at hstop

theorem kind_of_pullsWithin {count : Nat} {tokens : List Token}
    {last : Except (Fault LexicalCause) Token}
    (h : pullsWithin count lexer = tokens.map .ok ++ [last]) {token : Token}
    (hmem : token ∈ tokens) : token.kind ≠ .endOfInput := by
  induction count generalizing lexer tokens with
  | zero => simp [pullsWithin] at h
  | succ count ih =>
    cases tokens with
    | nil => exact nomatch hmem
    | cons first more =>
      rw [pullsWithin_succ] at h
      split at h
      · simp at h
      · split at h
        · simp at h
        · rename_i hkind
          simp only [List.map_cons, List.cons_append, List.cons.injEq, Except.ok.injEq] at h
          obtain ⟨rfl, hmore⟩ := h
          rcases List.mem_cons.mp hmem with rfl | hmem
          · exact hkind
          · exact ih hmore hmem

/-- Nothing is read behind an end mark. -/
theorem kind_of_pulls {tokens : List Token} {last : Except (Fault LexicalCause) Token}
    (h : lexer.pulls = tokens.map .ok ++ [last]) {token : Token} (hmem : token ∈ tokens) :
    token.kind ≠ .endOfInput := kind_of_pullsWithin h hmem

end Lexer

end FormCalc
