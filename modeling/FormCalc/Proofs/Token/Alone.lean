import FormCalc.Proofs.Token.Quoted
import FormCalc.Proofs.Token.Spaced

/-!
# Tokens on their own

A reader takes what it can use and stops.  What it took it takes again when nothing comes
behind it, so the text of a token is a lexeme on its own, and of the same kind.

* `Lexeme.read_text`: one lexeme, read off its own text.
* `Lexer.isLexeme_of_mem_pulls`: every token but the end mark is a lexeme.
* `Lexer.exists_last`: a token takes at least one character, so the tokens come to an end.
-/

namespace FormCalc

open Text

/-! ### Numbers -/

section Number

variable {p : Char → Bool} {taken tail : List Char}

/-- Whether what comes behind cannot be taken. -/
abbrev Stops (p : Char → Bool) (tail : List Char) : Prop := ∀ d ∈ tail.head?, p d = false

theorem takeWhile_exact (htaken : ∀ c ∈ taken, p c = true) (htail : Stops p tail) :
    (taken ++ tail).takeWhile p = taken := by
  rw [List.takeWhile_append_of_pos htaken]
  cases tail with
  | nil => exact List.append_nil taken
  | cons d more => simp [htail d rfl]

theorem dropWhile_exact (htaken : ∀ c ∈ taken, p c = true) (htail : Stops p tail) :
    (taken ++ tail).dropWhile p = tail := by
  rw [List.dropWhile_append_of_pos htaken]
  cases tail with
  | nil => rfl
  | cons d more => simp [htail d rfl]

theorem takeWhile_all (h : ∀ c ∈ taken, p c = true) : taken.takeWhile p = taken := by
  simpa using @takeWhile_exact p taken [] h nofun

theorem dropWhile_all (h : ∀ c ∈ taken, p c = true) : taken.dropWhile p = [] := by
  simpa using @dropWhile_exact p taken [] h nofun

theorem of_mem_takeWhile (xs : List Char) : ∀ c ∈ xs.takeWhile p, p c = true :=
  List.all_eq_true.mp List.all_takeWhile

/-- A fraction is empty, or a point with digits behind it. -/
theorem fraction_cases (xs : List Char) :
    (fraction xs).1 = [] ∨
      ∃ cs : List Char, (fraction xs).1 = '.' :: cs.takeWhile Char.isDigit := by
  unfold fraction
  split
  · rename_i cs
    exact .inr ⟨cs, rfl⟩
  · exact .inl rfl

theorem fraction_taken (hdigit : Stops Char.isDigit tail) (hpoint : '.' ∉ tail.head?)
    (xs : List Char) : fraction ((fraction xs).1 ++ tail) = ((fraction xs).1, tail) := by
  rcases fraction_cases xs with hempty | ⟨cs, hcs⟩
  · rw [hempty, List.nil_append, fraction]
    intro cs heq
    exact hpoint (by rw [heq]; rfl)
  · rw [hcs, List.cons_append, fraction, takeWhile_exact (of_mem_takeWhile cs) hdigit,
      dropWhile_exact (of_mem_takeWhile cs) hdigit]

theorem exponentSign_taken (h : Stops (fun d => d == '+' || d == '-') tail) (xs : List Char) :
    exponentSign ((exponentSign xs).1 ++ tail) = ((exponentSign xs).1, tail) := by
  have hempty : exponentSign tail = ([], tail) := by
    cases tail with
    | nil => rfl
    | cons d more =>
      have hd : (d == '+' || d == '-') = false := h d rfl
      rw [exponentSign, hd]
      rfl
  cases xs with
  | nil => exact hempty
  | cons x xs =>
    rw [exponentSign]
    split
    · rename_i hsign
      rw [List.singleton_append, exponentSign, if_pos hsign]
    · exact hempty

/-- No digit is a sign. -/
theorem stops_sign {d : Char} (h : d.isDigit = true) (more : List Char) :
    Stops (fun c => c == '+' || c == '-') (d :: more) := by
  intro c hc
  obtain rfl := Option.some.inj hc
  rw [Bool.or_eq_false_iff, beq_eq_false_iff_ne, beq_eq_false_iff_ne]
  constructor <;> rintro rfl <;> revert h <;> decide

/-- An exponent is empty, or a mark and a sign with at least one digit behind them. -/
theorem exponent_cases (xs : List Char) :
    (exponent xs).1 = [] ∨ ∃ mark cs d ds, (mark = 'e' ∨ mark = 'E') ∧
      (exponent xs).1 = mark :: (exponentSign cs).1 ++ d :: ds ∧
        ∀ c ∈ d :: ds, c.isDigit = true := by
  cases xs with
  | nil => exact .inl rfl
  | cons mark cs =>
    rw [exponent]
    split
    · rename_i hmark
      dsimp only
      split
      · exact .inl rfl
      · rename_i hdigits
        obtain ⟨d, ds, hds⟩ := List.exists_cons_of_ne_nil hdigits
        refine .inr ⟨mark, cs, d, ds, by simpa using hmark, by rw [hds], ?_⟩
        rw [← hds]
        exact of_mem_takeWhile _
    · exact .inl rfl

theorem exponent_taken (xs : List Char) : exponent (exponent xs).1 = ((exponent xs).1, []) := by
  rcases exponent_cases xs with hempty | ⟨mark, cs, d, ds, hmark, hexponent, hdigits⟩
  · rw [hempty]
    rfl
  · rw [hexponent, List.cons_append, exponent, if_pos (by simpa using hmark),
      exponentSign_taken (stops_sign (hdigits d List.mem_cons_self) ds)]
    simp only [takeWhile_all hdigits, dropWhile_all hdigits, List.cons_append]

theorem numberText_taken (xs : List Char) :
    numberText (numberText xs).1 = ((numberText xs).1, []) := by
  have htext : (numberText xs).1 = xs.takeWhile Char.isDigit ++
      ((fraction (xs.dropWhile Char.isDigit)).1 ++
        (exponent (fraction (xs.dropWhile Char.isDigit)).2).1) := List.append_assoc ..
  have hfraction := fraction_cases (xs.dropWhile Char.isDigit)
  have hexponent := exponent_cases (fraction (xs.dropWhile Char.isDigit)).2
  have hpoint := fun tail hdigit hpoint =>
    @fraction_taken tail hdigit hpoint (xs.dropWhile Char.isDigit)
  have hpower := exponent_taken (fraction (xs.dropWhile Char.isDigit)).2
  generalize (fraction (xs.dropWhile Char.isDigit)).1 = point at *
  generalize (exponent (fraction (xs.dropWhile Char.isDigit)).2).1 = power at *
  have hmark : ∀ d ∈ power.head?, d = 'e' ∨ d = 'E' := by
    intro d hd
    rcases hexponent with rfl | ⟨mark, cs, _, _, hmark, rfl, -⟩
    · cases hd
    · obtain rfl := Option.some.inj hd
      exact hmark
  have hdigit : Stops Char.isDigit power := by
    intro d hd
    rcases hmark d hd with rfl | rfl <;> rfl
  have hdot : '.' ∉ power.head? := by
    intro hd
    rcases hmark _ hd with heq | heq <;> revert heq <;> decide
  -- The digits in front end where a point or an exponent begins.
  have hstops : Stops Char.isDigit (point ++ power) := by
    rcases hfraction with rfl | ⟨cs, rfl⟩
    · exact hdigit
    · intro d hd
      obtain rfl := Option.some.inj hd
      rfl
  rw [htext, numberText, takeWhile_exact (of_mem_takeWhile xs) hstops,
    dropWhile_exact (of_mem_takeWhile xs) hstops, hpoint power hdigit hdot]
  dsimp only
  rw [hpower, List.append_assoc]

end Number

/-! ### One lexeme -/

namespace Lexeme

/-- Nothing comes behind a lexeme that is read off its own text. -/
def alone (text : List Char) (kind : Kind) : Lexeme := ⟨text, [], .ok kind⟩

theorem text_number (cs : List Char) : (number cs).text = (numberText cs).1 := by
  unfold number
  dsimp only
  split <;> rfl

theorem number_kind {cs : List Char} {kind : Kind} (h : (number cs).verdict = .ok kind) :
    kind = .number := by
  unfold number at h
  dsimp only at h
  split at h
  · exact (Except.ok.inj h).symm
  · dsimp only at h
    split at h
    · cases h
    · exact (Except.ok.inj h).symm

theorem number_text {cs : List Char} {kind : Kind} (h : (number cs).verdict = .ok kind) :
    number (number cs).text = alone (number cs).text kind := by
  have hkind := number_kind h
  rw [text_number, hkind, number, numberText_taken]
  rfl

theorem quoted_interior {interior : List Char} (h : Interior interior) :
    quoted (interior ++ ['"']) = alone (interior ++ ['"']) .string := by
  induction h with
  | nil => rfl
  | pair rest ih =>
    rw [List.cons_append, List.cons_append, quoted, ih]
    rfl
  | @char c cs hquote hallowed rest ih =>
    rw [List.cons_append, quoted, if_pos hallowed, ih]
    · rfl
    · intro _ heq _
      exact hquote heq
    · exact hquote

theorem ended_verdict {kind kind' : Kind} {text rest : List Char}
    (h : (ended kind text rest).verdict = .ok kind') : kind' = kind := by
  unfold ended at h
  split at h
  · exact (Except.ok.inj h).symm
  · dsimp only at h
    split at h
    · exact (Except.ok.inj h).symm
    · cases h

theorem ended_text (kind : Kind) (text rest : List Char) : (ended kind text rest).text = text := by
  unfold ended
  split <;> rfl

theorem word_text {c : Char} {cs : List Char} {kind : Kind} (h : (word c cs).verdict = .ok kind) :
    ∃ taken, (word c cs).text = c :: taken ∧ word c taken = alone (c :: taken) kind := by
  obtain rfl := ended_verdict h
  refine ⟨_, ended_text .., ?_⟩
  rw [word, takeWhile_all (of_mem_takeWhile cs), dropWhile_all (of_mem_takeWhile cs)]
  rfl

theorem quoted_kind {cs : List Char} {kind : Kind} (h : (quoted cs).verdict = .ok kind) :
    kind = .string := by
  fun_induction quoted cs with
  | case1 => cases h
  | case2 cs ih => exact ih h
  | case3 cs _ => exact ended_verdict h
  | case4 c cs _ _ _ ih => exact ih h
  | case5 => cases h

theorem startsNumber_of_ne {c : Char} (h : c ≠ '.') (cs : List Char) :
    startsNumber (c :: cs) = c.isDigit := by
  rw [startsNumber]
  intro _ _ heq
  exact absurd heq h

/-- A number still begins with a digit, or with a point before one, when nothing comes behind
it. -/
theorem startsNumber_text {c : Char} {cs : List Char} (h : startsNumber (c :: cs) = true) :
    ∃ taken, (numberText (c :: cs)).1 = c :: taken ∧ startsNumber (c :: taken) = true := by
  by_cases hc : c = '.'
  · subst hc
    cases cs with
    | nil => cases h
    | cons d ds =>
      have hd : d.isDigit = true := h
      refine ⟨d :: ds.takeWhile Char.isDigit ++ (exponent (ds.dropWhile Char.isDigit)).1, ?_, hd⟩
      have hpoint : Char.isDigit '.' = false := rfl
      simp [numberText, fraction, hd, hpoint]
  · rw [startsNumber_of_ne hc] at h
    refine ⟨cs.takeWhile Char.isDigit ++ (fraction (cs.dropWhile Char.isDigit)).1 ++
      (exponent (fraction (cs.dropWhile Char.isDigit)).2).1, ?_, by rwa [startsNumber_of_ne hc]⟩
    simp [numberText, h]

/-- **A lexeme stands on its own**: its text, with nothing behind it, is read as before. -/
theorem read_text {c : Char} {cs : List Char} {kind : Kind} (h : (read c cs).verdict = .ok kind) :
    ∃ taken, (read c cs).text = c :: taken ∧ read c taken = alone (c :: taken) kind := by
  unfold read at h ⊢
  split at h
  · cases h
  rename_i hallowed
  simp only [if_neg hallowed]
  split at h
  · rename_i hquote
    simp only [if_pos hquote]
    obtain ⟨interior, htext, hinterior⟩ := exists_interior_quoted h
    obtain rfl := quoted_kind h
    obtain rfl := beq_iff_eq.mp hquote
    refine ⟨interior ++ ['"'], congrArg (['"'] ++ ·) htext, ?_⟩
    rw [quoted_interior hinterior]
    rfl
  rename_i hquote
  simp only [if_neg hquote]
  split at h
  · rename_i hnumber
    obtain ⟨taken, htaken, hstarts⟩ := startsNumber_text hnumber
    have htext : (number (c :: cs)).text = c :: taken := by rw [text_number, htaken]
    have hread := number_text h
    rw [htext] at hread
    exact ⟨taken, by rw [if_pos hnumber, htext], by rw [if_pos hstarts, hread]⟩
  rename_i hnumber
  simp only [if_neg hnumber]
  split at h
  · rename_i s hs
    obtain rfl := Except.ok.inj h
    have happend := append_drop_of_symbolAt hs
    cases s <;> obtain ⟨rfl, -⟩ := List.cons.inj happend <;> exact ⟨_, rfl, rfl⟩
  · split at h
    · rename_i hnone hstart
      obtain ⟨taken, htext, hword⟩ := word_text h
      have hpoint : c ≠ '.' := by
        rintro rfl
        revert hstart
        decide
      rw [startsNumber_of_ne hpoint] at hnumber
      refine ⟨taken, by rw [if_pos hstart, htext], ?_⟩
      rw [startsNumber_of_ne hpoint, if_neg hnumber, symbolAt_of_isIdentifierStart hstart]
      simp only [if_pos hstart, hword]
    · cases h

end Lexeme

/-! ### Tokens -/

namespace Lexer

variable {lexer : Lexer}

theorem Step.isLexeme {token : Token} {after : Lexer} (h : Step lexer token after)
    (hfault : after.fault = none) (hkind : token.kind ≠ .endOfInput) :
    IsLexeme token.kind token.text := by
  cases h with
  | stopped h =>
    rw [h] at hfault
    cases hfault
  | finished => exact absurd rfl hkind
  | @read gap cs c kind _ _ hverdict =>
    obtain ⟨taken, htaken, hread⟩ := Lexeme.read_text hverdict
    exact ⟨c, taken, by rw [String.toList_ofList, htaken], hread⟩
  | refused => cases hfault

/-- A token takes at least one character. -/
theorem Step.length_lt {token : Token} {after : Lexer} (h : Step lexer token after)
    (hfault : after.fault = none) (hkind : token.kind ≠ .endOfInput) :
    after.rest.length < lexer.rest.length := by
  cases h with
  | stopped h =>
    rw [h] at hfault
    cases hfault
  | finished => exact absurd rfl hkind
  | @read gap cs c kind _ hlayout hverdict =>
    obtain ⟨taken, htaken, -⟩ := Lexeme.read_text hverdict
    have hread := congrArg List.length (Lexeme.read_append c cs)
    have hgap := congrArg List.length (layout_append false lexer.rest)
    rw [hlayout] at hgap
    rw [htaken] at hread
    simp only [List.length_append, List.length_cons] at hread hgap ⊢
    omega
  | refused => cases hfault

theorem isLexeme_of_mem_pullsWithin {count : Nat} {token : Token}
    (h : .ok token ∈ pullsWithin count lexer) (hkind : token.kind ≠ .endOfInput) :
    IsLexeme token.kind token.text := by
  induction count generalizing lexer with
  | zero => cases h
  | succ count ih =>
    rw [pullsWithin_succ] at h
    split at h
    · simp at h
    · rename_i hfault
      split at h
      · rename_i hend
        simp only [List.mem_singleton, Except.ok.injEq] at h
        rw [h] at hkind
        exact absurd hend hkind
      · simp only [List.mem_cons, Except.ok.injEq] at h
        rcases h with rfl | h
        · exact lexer.step_next.isLexeme hfault hkind
        · exact ih h

/-- **Tokens are lexemes**, each of its own kind. -/
theorem isLexeme_of_mem_pulls {token : Token} (h : .ok token ∈ lexer.pulls)
    (hkind : token.kind ≠ .endOfInput) : IsLexeme token.kind token.text :=
  isLexeme_of_mem_pullsWithin h hkind

/-- Whether pulling tokens ends here: with a fault or with an end mark. -/
def IsLast : Except (Fault LexicalCause) Token → Prop
  | .error _ => True
  | .ok mark => mark.kind = .endOfInput

theorem exists_last_pullsWithin {count : Nat} (h : lexer.rest.length < count) :
    ∃ (tokens : List Token) (last : _),
      pullsWithin count lexer = tokens.map .ok ++ [last] ∧ IsLast last := by
  induction count generalizing lexer with
  | zero => exact absurd h (Nat.not_lt_zero _)
  | succ count ih =>
    rw [pullsWithin_succ]
    split
    · exact ⟨[], _, rfl, trivial⟩
    · rename_i hfault
      split
      · rename_i hend
        exact ⟨[], _, rfl, hend⟩
      · rename_i hkind
        have hshorter := lexer.step_next.length_lt hfault hkind
        have hcount : lexer.next.2.rest.length < count := by omega
        obtain ⟨tokens, last, hpulls, hlast⟩ := ih hcount
        exact ⟨lexer.next.1 :: tokens, last, by rw [hpulls]; rfl, hlast⟩

/-- Pulling tokens always comes to an end. -/
theorem exists_last (lexer : Lexer) :
    ∃ (tokens : List Token) (last : _), lexer.pulls = tokens.map .ok ++ [last] ∧ IsLast last :=
  exists_last_pullsWithin (Nat.lt_succ_self _)

end Lexer

end FormCalc
