import FormCalc.Proofs.Token.Allowed
import FormCalc.Proofs.Token.Conserved
import FormCalc.Proofs.Token.Spelling

/-!
# The longest lexeme

A lexer skips the longest layout and then takes the longest lexeme.  Where that is a number with
a letter right behind it, the number is malformed, and in no other case.

* `IsLayout`: layout at the front of a script, which may reach its end.
* `layout_of_longest`: what is skipped is the longest layout.
* `Lexeme.malformed_iff`: which lexemes are malformed numbers.
* `next_longest`: one call of a lexer on any script.
-/

namespace FormCalc

open Text

/-! ### The longest layout -/

/-- Whether a gap is layout at the front of a script.  At the end of the script the last comment
may be open. -/
def IsLayout (cs gap : List Char) : Prop := IsGap gap ∨ gap = cs ∧ IsLastGap gap

/-- What is skipped is the longest layout where a character comes behind it that a script may
hold. -/
theorem longest_layout {cs gap more : List Char} {c : Char}
    (h : layout false cs = (gap, c :: more)) (hc : isAllowed c = true) :
    LongestPrefix (IsLayout cs) cs gap := by
  have happend := layout_append false cs
  rw [h] at happend
  refine ⟨.inl ((isSkipped_layout h).2 c rfl hc), ⟨_, happend⟩, fun other hother hbegins => ?_⟩
  rcases hother with hother | ⟨rfl, hother⟩
  · obtain ⟨back, rfl⟩ := hbegins
    rw [layout_gap hother] at h
    obtain ⟨rfl, -⟩ := Prod.mk.inj h
    rw [List.length_append]
    exact Nat.le_add_right ..
  · rw [layout_lastGap hother] at h
    cases h

/-- The longest layout is skipped, unless a character comes behind it that a script may not hold.
Such a character may stand in a comment, and this comment is skipped up to there. -/
theorem layout_of_longest {cs gap rest : List Char} (h : LongestPrefix (IsLayout cs) cs gap)
    (hrest : cs = gap ++ rest) (hsome : rest ≠ []) :
    layout false cs = (gap, rest) ∨
      ∃ gap' c more, layout false cs = (gap', c :: more) ∧ isAllowed c = false := by
  obtain ⟨gap', rest', hlayout⟩ : ∃ gap' rest', layout false cs = (gap', rest') := ⟨_, _, rfl⟩
  have happend := layout_append false cs
  rw [hlayout] at happend
  cases rest' with
  | nil =>
    -- all is layout, so that nothing is behind the longest one
    rw [List.append_nil] at happend
    have hwhole : IsLayout cs cs := .inr ⟨rfl, happend ▸ (isSkipped_layout hlayout).1 rfl⟩
    have hlength := h.longest cs hwhole (List.prefix_refl cs)
    have hpos := List.length_pos_iff.mpr hsome
    rw [hrest, List.length_append] at hlength
    omega
  | cons c more =>
    cases hc : isAllowed c with
    | false => exact .inr ⟨gap', c, more, hlayout, hc⟩
    | true =>
      obtain rfl := (longest_layout hlayout hc).eq h
      have hmore : c :: more = rest := List.append_cancel_left (happend.trans hrest)
      exact .inl (hmore ▸ hlayout)

theorem isNumberChar_of_startsNumber {c : Char} {cs : List Char}
    (h : startsNumber (c :: cs) = true) : isNumberChar c = true := by
  by_cases hc : c = '.'
  · rw [hc]
    rfl
  · rw [Lexeme.startsNumber_of_ne hc] at h
    exact isNumberChar_of_isDigit h

/-- There is no layout in front of a number. -/
theorem layout_of_startsNumber {cs : List Char} (h : startsNumber cs = true) :
    layout false cs = ([], cs) := by
  cases cs with
  | nil => cases h
  | cons c cs =>
    have hc := isNumberChar_of_startsNumber h
    have hlayout : (';' :: '/' :: blanks).all (!isNumberChar ·) = true := by decide
    have hne : ∀ d ∈ ';' :: '/' :: blanks, c ≠ d := by
      rintro d hd rfl
      have hnot := List.all_eq_true.mp hlayout c hd
      rw [hc] at hnot
      cases hnot
    have hblank : isBlank c = false := by
      cases hblank : isBlank c with
      | false => rfl
      | true => exact absurd rfl (hne c (by simp [mem_blanks hblank]))
    have hcomment : startsComment c cs = false := by
      rw [startsComment, beq_false_of_ne (hne ';' (by simp)), beq_false_of_ne (hne '/' (by simp))]
      rfl
    rw [layout, if_neg (by simp [isAllowed_of_isNumberChar hc]), if_neg (by simp),
      if_neg (by simp [hblank, hcomment])]

/-- The longest layout in front of a number is skipped. -/
theorem layout_of_longest_number {cs gap rest : List Char}
    (h : LongestPrefix (IsLayout cs) cs gap) (hrest : cs = gap ++ rest)
    (hstarts : startsNumber rest = true) : layout false cs = (gap, rest) := by
  rcases h.is with hgap | ⟨rfl, -⟩
  · rw [hrest, layout_gap hgap, layout_of_startsNumber hstarts, List.append_nil]
  · obtain rfl := List.self_eq_append_right.mp hrest
    cases hstarts

/-! ### Malformed numbers -/

/-- Where a number starts, the longest one is read. -/
theorem longest_numberText {cs : List Char} (h : startsNumber cs = true) :
    LongestPrefix IsNumber cs (numberText cs).1 where
  is := isNumber_numberText h
  starts := ⟨_, numberText_append cs⟩
  longest := fun _ hother hbegins => numberText_longest hother hbegins

namespace Lexeme

variable {c letter : Char} {cs : List Char}

theorem ended_ne_malformed (kind : Kind) (text rest : List Char) :
    (ended kind text rest).verdict ≠ .error (.malformed letter) := by
  intro h
  unfold ended at h
  split at h
  · cases h
  · dsimp only at h
    split at h <;> cases h

theorem quoted_ne_malformed (cs : List Char) :
    (quoted cs).verdict ≠ .error (.malformed letter) := by
  intro h
  fun_induction quoted cs with
  | case1 => cases h
  | case2 cs ih => exact ih h
  | case3 cs _ => exact ended_ne_malformed _ _ _ h
  | case4 c cs _ _ _ ih => exact ih h
  | case5 => cases h

theorem number_malformed_iff : (number cs).verdict = .error (.malformed letter) ↔
    isAlphabetic letter = true ∧ ∃ after, (numberText cs).2 = letter :: after := by
  unfold number
  dsimp only
  split
  · rename_i hrest
    rw [hrest]
    constructor
    · intro h
      cases h
    · rintro ⟨-, after, hafter⟩
      cases hafter
  · rename_i d after hrest
    rw [hrest]
    cases hd : isAlphabetic d with
    | false =>
      constructor
      · intro h
        cases h
      · rintro ⟨hletter, after, hafter⟩
        obtain ⟨rfl, -⟩ := List.cons.inj hafter
        cases hd.symm.trans hletter
    | true =>
      constructor
      · intro h
        obtain rfl : d = letter := by simpa using h
        exact ⟨hd, after, rfl⟩
      · rintro ⟨-, after, hafter⟩
        obtain ⟨rfl, -⟩ := List.cons.inj hafter
        rfl

theorem read_of_startsNumber (h : startsNumber (c :: cs) = true) :
    read c cs = number (c :: cs) := by
  have hquote : c ≠ '"' := by
    rintro rfl
    cases h
  rw [read, if_neg (by simp [isAllowed_of_isNumberChar (isNumberChar_of_startsNumber h)]),
    if_neg (by simp [hquote]), if_pos h]

/-- **A number is malformed where a letter stands behind it**, the longest one at the front. -/
theorem malformed_iff : (read c cs).verdict = .error (.malformed letter) ↔
    isAlphabetic letter = true ∧
      ∃ number after, LongestPrefix IsNumber (c :: cs) number ∧
        c :: cs = number ++ letter :: after := by
  constructor
  · intro h
    cases hnumber : startsNumber (c :: cs) with
    | true =>
      rw [read_of_startsNumber hnumber] at h
      obtain ⟨hletter, after, hafter⟩ := number_malformed_iff.mp h
      refine ⟨hletter, _, after, longest_numberText hnumber, ?_⟩
      rw [← hafter, numberText_append]
    | false =>
      have hreads := reads c cs
      generalize read c cs = lexeme at h hreads
      cases hreads with
      | forbidden | symbol | unexpected => cases h
      | string => exact absurd h (quoted_ne_malformed cs)
      | number _ _ hstarts => cases hnumber.symm.trans hstarts
      | word => exact absurd h (ended_ne_malformed _ _ _)
  · rintro ⟨hletter, number, after, hlongest, htext⟩
    have hstarts := hlongest.is.startsNumber hlongest.starts
    obtain rfl := hlongest.eq (longest_numberText hstarts)
    rw [read_of_startsNumber hstarts, number_malformed_iff]
    refine ⟨hletter, after, ?_⟩
    exact List.append_cancel_left ((numberText_append (c :: cs)).trans htext)

theorem text_of_longest {number : List Char} (h : LongestPrefix IsNumber (c :: cs) number) :
    (read c cs).text = number := by
  have hstarts := h.is.startsNumber h.starts
  rw [read_of_startsNumber hstarts, text_number]
  exact (longest_numberText hstarts).eq h

theorem verdict_of_not_allowed (h : isAllowed c = false) (cs : List Char) :
    (read c cs).verdict = .error (.invalid c) := by
  rw [read, if_pos (by simp [h])]

end Lexeme

/-! ### One call -/

namespace Lexer

variable {lexer : Lexer} {gap cs : List Char} {c : Char}

theorem crosses_calls (lexer : Lexer) (count : Nat) : lexer.Crosses (lexer.calls count).2 := by
  induction count generalizing lexer with
  | zero => exact ⟨[], rfl, rfl, allowed_nil⟩
  | succ count ih => exact lexer.step_next.crosses.trans (ih lexer.next.2)

/-- Where a call gives a token, the token is the lexeme behind the layout. -/
theorem token_next (hfault : lexer.fault = none)
    (hlayout : layout false lexer.rest = (gap, c :: cs)) (hkind : lexer.next.1.kind ≠ .invalid) :
    (Lexeme.read c cs).verdict = .ok lexer.next.1.kind ∧
      lexer.next.1.text = String.ofList (Lexeme.read c cs).text := by
  unfold next at hkind ⊢
  simp only [hfault, hlayout] at hkind ⊢
  split at hkind
  · rename_i kind hverdict
    exact ⟨hverdict, rfl⟩
  · exact absurd rfl hkind

/-- A number is malformed where its lexeme is. -/
theorem malformed_next_iff (hfault : lexer.fault = none)
    (hlayout : layout false lexer.rest = (gap, c :: cs)) {span : Span} :
    lexer.next.2.fault = some ⟨.malformedNumber, span⟩ ↔
      ∃ letter, (Lexeme.read c cs).verdict = .error (.malformed letter) ∧
        span = ⟨lexer.pos + utf8Length gap, lexer.pos + utf8Length gap +
          utf8Length (Lexeme.read c cs).text + letter.utf8Size⟩ := by
  unfold next
  simp only [hfault, hlayout]
  cases hverdict : (Lexeme.read c cs).verdict with
  | ok kind => simp
  | error trouble => cases trouble <;> simp [Trouble.toFault, eq_comm]

end Lexer

/-- **A lexer takes the longest lexeme.**  However often it was called, where no fault came up
and something is left behind the longest layout, a call that gives a token gives the longest
lexeme there, in its kind, which is that of a word in the table just where the lexeme is such a
word.  The call meets a malformed number just where the longest number there has a letter right
behind it, and blames both.  The offsets of the span are natural numbers: where they are kept in
32 bits, the span is this one for a text shorter than `2 ^ 32` bytes. -/
theorem next_longest {text : String} {count : Nat} {lexer : Lexer} {gap rest : List Char}
    (hcalls : ((Lexer.ofText text).calls count).2 = lexer) (hfault : lexer.fault = none)
    (hgap : LongestPrefix (IsLayout lexer.rest) lexer.rest gap) (hrest : lexer.rest = gap ++ rest)
    (hsome : rest ≠ []) :
    (lexer.next.1.kind ≠ .invalid →
      LongestPrefix IsSpelled rest lexer.next.1.text.toList ∧
      (∀ kind, Spells kind lexer.next.1.text.toList ↔ kind = lexer.next.1.kind) ∧
      (lexer.next.1.kind ∈ Kind.words.map Prod.snd ↔
        lexer.next.1.text ∈ Kind.words.map Prod.fst)) ∧
    ∃ front, text.toList = front ++ rest ∧ ∀ span,
      lexer.next.2.fault = some ⟨.malformedNumber, span⟩ ↔
        ∃ number letter after, LongestPrefix IsNumber rest number ∧
          rest = number ++ letter :: after ∧ isAlphabetic letter = true ∧
          span = ⟨utf8Length front,
            utf8Length front + utf8Length number + letter.utf8Size⟩ := by
  have hskipped := layout_of_longest hgap hrest hsome
  obtain ⟨c, cs, rfl⟩ := List.exists_cons_of_ne_nil hsome
  constructor
  · intro hkind
    rcases hskipped with hlayout | ⟨gap', d, more, hlayout, hd⟩
    · obtain ⟨hverdict, htext⟩ := Lexer.token_next hfault hlayout hkind
      have hspells := Lexeme.spells_of_read hverdict
      rw [htext, String.toList_ofList]
      refine ⟨Lexeme.longest_of_read hverdict, fun kind => ⟨hspells.unique, ?_⟩, hspells.mem_words⟩
      rintro rfl
      exact hspells
    · obtain ⟨hverdict, -⟩ := Lexer.token_next hfault hlayout hkind
      cases (Lexeme.verdict_of_not_allowed hd more).symm.trans hverdict
  · obtain ⟨taken, htaken, hpos, -⟩ := (Lexer.ofText text).crosses_calls count
    rw [hcalls] at htaken hpos
    have hfront : lexer.pos + utf8Length gap = utf8Length (taken ++ gap) := by
      rw [hpos, utf8Length_append]
      exact congrArg (· + utf8Length gap) (Nat.zero_add _)
    refine ⟨taken ++ gap, by rw [List.append_assoc, ← hrest]; exact htaken, fun span => ?_⟩
    rw [← hfront]
    constructor
    · intro h
      rcases hskipped with hlayout | ⟨gap', d, more, hlayout, hd⟩
      · obtain ⟨letter, hverdict, hspan⟩ := (Lexer.malformed_next_iff hfault hlayout).mp h
        obtain ⟨hletter, number, after, hlongest, htext⟩ := Lexeme.malformed_iff.mp hverdict
        rw [Lexeme.text_of_longest hlongest] at hspan
        exact ⟨number, letter, after, hlongest, htext, hletter, hspan⟩
      · obtain ⟨letter, hverdict, -⟩ := (Lexer.malformed_next_iff hfault hlayout).mp h
        cases (Lexeme.verdict_of_not_allowed hd more).symm.trans hverdict
    · rintro ⟨number, letter, after, hlongest, htext, hletter, hspan⟩
      have hlayout : layout false lexer.rest = (gap, c :: cs) :=
        layout_of_longest_number hgap hrest (hlongest.is.startsNumber hlongest.starts)
      rw [← Lexeme.text_of_longest hlongest] at hspan
      exact (Lexer.malformed_next_iff hfault hlayout).mpr
        ⟨letter, Lexeme.malformed_iff.mpr ⟨hletter, number, after, hlongest, htext⟩, hspan⟩

/-- Two points between digits belong to two numbers, of which the second is malformed. -/
theorem next_longest_points : ∃ first second : Lexer,
    (((Lexer.ofText ";é\n 1..5e+").calls 0).2 = first ∧ first.fault = none ∧
      LongestPrefix (IsLayout first.rest) first.rest [';', 'é', '\n', ' '] ∧
      first.next.1.kind = .number ∧ first.next.1.text.toList = ['1', '.'] ∧
      LongestPrefix IsSpelled ['1', '.', '.', '5', 'e', '+'] ['1', '.']) ∧
    (((Lexer.ofText ";é\n 1..5e+").calls 1).2 = second ∧ second.fault = none ∧
      LongestPrefix (IsLayout second.rest) second.rest [] ∧
      second.next.2.fault = some ⟨.malformedNumber, ⟨7, 10⟩⟩ ∧
      ∃ number letter after, LongestPrefix IsNumber ['.', '5', 'e', '+'] number ∧
        ['.', '5', 'e', '+'] = number ++ letter :: after ∧ isAlphabetic letter = true) := by
  refine ⟨_, _, ⟨rfl, ?_⟩, ⟨rfl, ?_⟩⟩
  · have hfault : ((Lexer.ofText ";é\n 1..5e+").calls 0).2.fault = none := by decide +kernel
    have hlayout : layout false ((Lexer.ofText ";é\n 1..5e+").calls 0).2.rest =
        ([';', 'é', '\n', ' '], ['1', '.', '.', '5', 'e', '+']) := by decide +kernel
    have hkind : ((Lexer.ofText ";é\n 1..5e+").calls 0).2.next.1.kind = .number := by
      decide +kernel
    have htext : ((Lexer.ofText ";é\n 1..5e+").calls 0).2.next.1.text.toList = ['1', '.'] := by
      decide +kernel
    generalize hcalls : ((Lexer.ofText ";é\n 1..5e+").calls 0).2 = lexer at *
    have hgap := longest_layout hlayout rfl
    have hrest := layout_append false lexer.rest
    rw [hlayout] at hrest
    obtain ⟨htoken, -⟩ := next_longest hcalls hfault hgap hrest.symm (List.cons_ne_nil _ _)
    obtain ⟨hlongest, -⟩ := htoken (by rw [hkind]; decide)
    rw [htext] at hlongest
    exact ⟨hfault, hgap, hkind, htext, hlongest⟩
  · have hfault : ((Lexer.ofText ";é\n 1..5e+").calls 1).2.fault = none := by decide +kernel
    have hlayout : layout false ((Lexer.ofText ";é\n 1..5e+").calls 1).2.rest =
        ([], ['.', '5', 'e', '+']) := by decide +kernel
    have hmalformed : ((Lexer.ofText ";é\n 1..5e+").calls 1).2.next.2.fault =
        some ⟨.malformedNumber, ⟨7, 10⟩⟩ := by decide +kernel
    generalize hcalls : ((Lexer.ofText ";é\n 1..5e+").calls 1).2 = lexer at *
    have hgap := longest_layout hlayout rfl
    have hrest := layout_append false lexer.rest
    rw [hlayout] at hrest
    obtain ⟨-, front, -, hspan⟩ :=
      next_longest hcalls hfault hgap hrest.symm (List.cons_ne_nil _ _)
    obtain ⟨number, letter, after, hlongest, htail, hletter, -⟩ := (hspan _).mp hmalformed
    exact ⟨hfault, hgap, hmalformed, number, letter, after, hlongest, htail, hletter⟩

end FormCalc
