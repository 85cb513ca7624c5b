import FormCalc.Proofs.Token.Stream
import FormCalc.Proofs.Tree.Printed

/-!
# Lexemes with blanks between them

A lexeme that is read off a text of its own is also read off the front of a longer text if a
blank comes behind it (`Lexeme.read_append_blank`).  So texts that are lexemes, with spaces
between them, lex to just these lexemes (`pulls_spaced`).
-/

namespace FormCalc

open Text

/-! ### Blanks -/

/-- The blanks. -/
def blanks : List Char := ['\n', '\r', '\t', '\x0b', '\x0c', ' ']

theorem mem_blanks {d : Char} (h : isBlank d = true) : d ∈ blanks := by
  unfold isBlank isTerminator at h
  simp only [Bool.or_eq_true, beq_iff_eq] at h
  simp only [blanks, List.mem_cons, List.not_mem_nil, or_false]
  simpa only [or_assoc] using h

section Blank

variable {d : Char} {more : List Char}

theorem isAllowed_of_isBlank (h : isBlank d = true) : isAllowed d = true := by
  have hall : blanks.all isAllowed = true := by decide
  exact List.all_eq_true.mp hall d (mem_blanks h)

theorem isDigit_of_isBlank (h : isBlank d = true) : d.isDigit = false := by
  have hnone : blanks.any Char.isDigit = false := by decide
  exact Bool.eq_false_iff.mpr (List.any_eq_false.mp hnone d (mem_blanks h))

theorem isAlphabetic_of_isBlank (h : isBlank d = true) : isAlphabetic d = false := by
  have hnone : blanks.any isAlphabetic = false := by decide
  exact Bool.eq_false_iff.mpr (List.any_eq_false.mp hnone d (mem_blanks h))

theorem isIdentifierPart_of_isBlank (h : isBlank d = true) : isIdentifierPart d = false := by
  have hnone : blanks.any isIdentifierPart = false := by decide
  exact Bool.eq_false_iff.mpr (List.any_eq_false.mp hnone d (mem_blanks h))

theorem ne_of_isBlank (h : isBlank d = true) {c : Char} (hc : isBlank c = false) : d ≠ c := by
  rintro rfl
  exact nomatch h.symm.trans hc

/-! ### Numbers -/

theorem takeWhile_append_stop {p : Char → Bool} (hd : p d = false) (xs : List Char) :
    (xs ++ d :: more).takeWhile p = xs.takeWhile p := by
  induction xs with
  | nil => simp [hd]
  | cons x xs ih =>
    rw [List.cons_append, List.takeWhile_cons, List.takeWhile_cons, ih]

theorem dropWhile_append_stop {p : Char → Bool} (hd : p d = false) (xs : List Char) :
    (xs ++ d :: more).dropWhile p = xs.dropWhile p ++ d :: more := by
  induction xs with
  | nil => simp [hd]
  | cons x xs ih =>
    rw [List.cons_append, List.dropWhile_cons, List.dropWhile_cons, ih]
    split <;> rfl

theorem fraction_append_blank (hd : isBlank d = true) (xs : List Char) :
    fraction (xs ++ d :: more) = ((fraction xs).1, (fraction xs).2 ++ d :: more) := by
  have hdigit := isDigit_of_isBlank hd
  have hpoint := ne_of_isBlank hd (c := '.') (by decide)
  cases xs with
  | nil =>
    rw [List.nil_append, fraction]
    · rfl
    · intro cs heq
      exact hpoint (List.cons.inj heq).1
  | cons x xs =>
    by_cases hx : x = '.'
    · subst hx
      rw [List.cons_append, fraction, fraction, takeWhile_append_stop hdigit,
        dropWhile_append_stop hdigit]
    · have hother : ∀ ys, fraction (x :: ys) = ([], x :: ys) := by
        intro ys
        rw [fraction]
        intro cs heq
        exact hx (List.cons.inj heq).1
      rw [List.cons_append, hother, hother]
      rfl

theorem exponentSign_append_blank (hd : isBlank d = true) (xs : List Char) :
    exponentSign (xs ++ d :: more) =
      ((exponentSign xs).1, (exponentSign xs).2 ++ d :: more) := by
  have hplus := ne_of_isBlank hd (c := '+') (by decide)
  have hminus := ne_of_isBlank hd (c := '-') (by decide)
  cases xs with
  | nil => simp [exponentSign, hplus, hminus]
  | cons x xs =>
    rw [List.cons_append, exponentSign, exponentSign]
    split <;> rfl

theorem exponent_append_blank (hd : isBlank d = true) (xs : List Char) :
    exponent (xs ++ d :: more) = ((exponent xs).1, (exponent xs).2 ++ d :: more) := by
  have hdigit := isDigit_of_isBlank hd
  have hlower := ne_of_isBlank hd (c := 'e') (by decide)
  have hupper := ne_of_isBlank hd (c := 'E') (by decide)
  cases xs with
  | nil => simp [exponent, hlower, hupper]
  | cons x xs =>
    rw [List.cons_append, exponent, exponent, exponentSign_append_blank hd]
    dsimp only
    rw [takeWhile_append_stop hdigit, dropWhile_append_stop hdigit]
    split
    · split <;> rfl
    · rfl

theorem numberText_append_blank (hd : isBlank d = true) (xs : List Char) :
    numberText (xs ++ d :: more) = ((numberText xs).1, (numberText xs).2 ++ d :: more) := by
  have hdigit := isDigit_of_isBlank hd
  unfold numberText
  rw [takeWhile_append_stop hdigit, dropWhile_append_stop hdigit, fraction_append_blank hd]
  dsimp only
  rw [exponent_append_blank hd]

theorem Lexeme.number_append_blank (hd : isBlank d = true) {cs : List Char} {kind : Kind}
    (h : Lexeme.number cs = ⟨cs, [], .ok kind⟩) :
    Lexeme.number (cs ++ d :: more) = ⟨cs, d :: more, .ok kind⟩ := by
  have hletter := isAlphabetic_of_isBlank hd
  unfold Lexeme.number at h ⊢
  rw [numberText_append_blank hd]
  dsimp only at h ⊢
  split at h
  · rename_i hrest
    obtain ⟨htext, -, hkind⟩ := Lexeme.mk.inj h
    rw [hrest, htext, ← hkind]
    simp [hletter]
  · exact nomatch (Lexeme.mk.inj h).2.1

/-! ### Strings, symbols and words -/

theorem Lexeme.after_eq {taken : List Char} {lexeme : Lexeme} {text rest : List Char}
    {verdict : Except Trouble Kind}
    (h : lexeme.after taken = ⟨taken ++ text, rest, verdict⟩) : lexeme = ⟨text, rest, verdict⟩ := by
  obtain ⟨htext, hrest, hverdict⟩ := Lexeme.mk.inj h
  rw [← List.append_cancel_left htext, ← hrest, ← hverdict]

/-- A lexeme that ends where the text does can also end at a blank. -/
theorem Lexeme.ended_blank (hd : isBlank d = true) {kind kind' : Kind}
    {text text' rest : List Char} (h : Lexeme.ended kind text rest = ⟨text', [], .ok kind'⟩) :
    rest = [] ∧ Lexeme.ended kind text (d :: more) = ⟨text', d :: more, .ok kind'⟩ := by
  cases rest with
  | nil =>
    obtain ⟨rfl, -, hkind⟩ := Lexeme.mk.inj h
    obtain rfl := Except.ok.inj hkind
    refine ⟨rfl, ?_⟩
    simp [Lexeme.ended, isAllowed_of_isBlank hd]
  | cons c cs => exact nomatch (Lexeme.mk.inj h).2.1

theorem Lexeme.quoted_append_blank (hd : isBlank d = true) {cs : List Char} {kind : Kind}
    (h : Lexeme.quoted cs = ⟨cs, [], .ok kind⟩) :
    Lexeme.quoted (cs ++ d :: more) = ⟨cs, d :: more, .ok kind⟩ := by
  have hquote := ne_of_isBlank hd (c := '"') (by decide)
  induction cs using Lexeme.quoted.induct with
  | case1 => cases (Lexeme.mk.inj h).2.2
  | case2 cs ih =>
    rw [Lexeme.quoted] at h
    rw [List.cons_append, List.cons_append, Lexeme.quoted, ih (Lexeme.after_eq h)]
    rfl
  | case3 cs hcs =>
    rw [Lexeme.quoted] at h
    · obtain ⟨rfl, hended⟩ := Lexeme.ended_blank hd h
      rw [List.singleton_append, Lexeme.quoted, hended]
      intro cs' heq
      exact hquote (List.cons.inj heq).1
    · exact hcs
  | case4 c cs hdouble hsingle hc ih =>
    rw [Lexeme.quoted, if_pos hc] at h
    · rw [List.cons_append, Lexeme.quoted, if_pos hc, ih (Lexeme.after_eq h)]
      · rfl
      · intro cs' heq _
        exact hsingle heq
      · exact hsingle
    · exact hdouble
    · exact hsingle
  | case5 c cs hdouble hsingle hc =>
    rw [Lexeme.quoted, if_neg hc] at h
    · cases (Lexeme.mk.inj h).2.2
    · exact hdouble
    · exact hsingle

theorem symbolAt_append_blank (hd : isBlank d = true) (s : Symbol) :
    symbolAt (s.text.toList ++ d :: more) = some s := by
  have hall : ∀ d ∈ blanks, symbolAt (s.text.toList ++ d :: more) = some s := by
    intro d hd
    simp only [blanks, List.mem_cons, List.not_mem_nil, or_false] at hd
    rcases hd with rfl | rfl | rfl | rfl | rfl | rfl <;> cases s <;> rfl
  exact hall d (mem_blanks hd)

/-- No symbol begins like a word. -/
theorem symbolAt_of_isIdentifierStart {c : Char} (h : isIdentifierStart c = true)
    (cs : List Char) : symbolAt (c :: cs) = none := by
  unfold symbolAt
  split <;> first | rfl | (rename_i heq; obtain ⟨rfl, -⟩ := List.cons.inj heq; revert h; decide)

theorem Lexeme.word_append_blank (hd : isBlank d = true) {c : Char} {cs : List Char} {kind : Kind}
    (h : Lexeme.word c cs = ⟨c :: cs, [], .ok kind⟩) :
    Lexeme.word c (cs ++ d :: more) = ⟨c :: cs, d :: more, .ok kind⟩ := by
  have hpart : (isAllowed d && isIdentifierPart d) = false := by
    rw [isIdentifierPart_of_isBlank hd, Bool.and_false]
  unfold Lexeme.word at h ⊢
  dsimp only at h ⊢
  obtain ⟨hrest, hended⟩ : _ ∧ Lexeme.ended _ _ (d :: more) = _ := Lexeme.ended_blank hd h
  rw [takeWhile_append_stop hpart, dropWhile_append_stop hpart, hrest, List.nil_append, hended]

/-! ### One lexeme -/

theorem startsNumber_append_blank (hd : isBlank d = true) (c : Char) (cs : List Char) :
    startsNumber (c :: (cs ++ d :: more)) = startsNumber (c :: cs) := by
  have hdigit := isDigit_of_isBlank hd
  by_cases hc : c = '.'
  · subst hc
    cases cs with
    | nil => exact hdigit
    | cons c' cs => rfl
  · have hother : ∀ ys, startsNumber (c :: ys) = c.isDigit := by
      intro ys
      rw [startsNumber]
      intro c' cs' heq
      exact absurd heq hc
    rw [hother, hother]

/-- **A lexeme may end at a blank** if it may end where the text does. -/
theorem Lexeme.read_append_blank (hd : isBlank d = true) {c : Char} {cs : List Char} {kind : Kind}
    (h : Lexeme.read c cs = ⟨c :: cs, [], .ok kind⟩) :
    Lexeme.read c (cs ++ d :: more) = ⟨c :: cs, d :: more, .ok kind⟩ := by
  unfold Lexeme.read at h ⊢
  split at h
  · exact nomatch (Lexeme.mk.inj h).2.2
  · rename_i hallowed
    rw [if_neg hallowed]
    split at h
    · rename_i hquote
      rw [if_pos hquote]
      obtain rfl := beq_iff_eq.mp hquote
      rw [Lexeme.quoted_append_blank hd (Lexeme.after_eq h)]
      rfl
    · rename_i hquote
      rw [if_neg hquote, startsNumber_append_blank hd]
      split at h
      · rename_i hnumber
        rw [if_pos hnumber]
        exact Lexeme.number_append_blank hd h
      · rename_i hnumber
        rw [if_neg hnumber]
        split at h
        · rename_i s hs
          obtain ⟨htext, hrest, hkind⟩ := Lexeme.mk.inj h
          have hsymbol : symbolAt (s.text.toList ++ d :: more) = some s :=
            symbolAt_append_blank hd s
          rw [htext, List.cons_append] at hsymbol
          rw [hsymbol]
          dsimp only
          rw [htext, hkind]
          have hdrop := append_drop_of_symbolAt hsymbol
          rw [htext, List.cons_append, List.cons_inj_right] at hdrop
          rw [List.append_cancel_left hdrop]
        · split at h
          · rename_i hstart
            rw [symbolAt_of_isIdentifierStart hstart, if_pos hstart]
            exact Lexeme.word_append_blank hd h
          · exact nomatch (Lexeme.mk.inj h).2.2

/-- No lexeme begins with a blank or a semicolon. -/
theorem Lexeme.read_ne_ok {c : Char} (hc : c ∈ ';' :: blanks) (cs : List Char) (kind : Kind) :
    (Lexeme.read c cs).verdict ≠ .ok kind := by
  have herror : (Lexeme.read c cs).verdict = .error (.unexpected c) := by
    simp only [blanks, List.mem_cons, List.not_mem_nil, or_false] at hc
    rcases hc with rfl | rfl | rfl | rfl | rfl | rfl | rfl <;> rfl
  rw [herror]
  exact nofun

end Blank

/-! ### Layout in front of a lexeme -/

/-- Whether a text is over or goes on with a blank. -/
def EndsLexeme (tail : List Char) : Prop := ∀ d ∈ tail.head?, isBlank d = true

theorem Lexeme.read_append_tail {c : Char} {cs tail : List Char} {kind : Kind}
    (h : Lexeme.read c cs = ⟨c :: cs, [], .ok kind⟩) (htail : EndsLexeme tail) :
    Lexeme.read c (cs ++ tail) = ⟨c :: cs, tail, .ok kind⟩ := by
  cases tail with
  | nil => rw [List.append_nil, h]
  | cons d more => exact read_append_blank (htail d rfl) h

theorem startsComment_of_read {c : Char} {cs tail : List Char} {kind : Kind}
    (h : Lexeme.read c cs = ⟨c :: cs, [], .ok kind⟩) (htail : EndsLexeme tail) :
    startsComment c (cs ++ tail) = false := by
  have hsemicolon : c ≠ ';' := by
    rintro rfl
    exact absurd (congrArg Lexeme.verdict h) (Lexeme.read_ne_ok List.mem_cons_self cs kind)
  rw [startsComment, beq_false_of_ne hsemicolon, Bool.false_or, Bool.and_eq_false_iff]
  by_cases hslash : c = '/'
  · subst hslash
    -- The lexeme is a single slash, so what follows it is not another one.
    obtain rfl : cs = [] := (List.cons.inj (congrArg Lexeme.text h)).2.symm
    right
    cases tail with
    | nil => rfl
    | cons d more => exact beq_false_of_ne fun heq =>
        ne_of_isBlank (htail d rfl) (c := '/') (by decide) (Option.some.inj heq)
  · left
    exact beq_false_of_ne hslash

/-- There is no layout in front of a lexeme. -/
theorem layout_of_read {c : Char} {cs tail : List Char} {kind : Kind}
    (h : Lexeme.read c cs = ⟨c :: cs, [], .ok kind⟩) (htail : EndsLexeme tail) :
    layout false (c :: (cs ++ tail)) = ([], c :: (cs ++ tail)) := by
  have hallowed : isAllowed c = true := by
    cases hc : isAllowed c with
    | true => rfl
    | false =>
      rw [Lexeme.read, hc] at h
      exact nomatch (Lexeme.mk.inj h).2.2
  have hblank : isBlank c = false := by
    cases hc : isBlank c with
    | false => rfl
    | true =>
      have hmem := List.mem_cons_of_mem ';' (mem_blanks hc)
      exact absurd (congrArg Lexeme.verdict h) (Lexeme.read_ne_ok hmem cs kind)
  rw [layout, if_neg (by simp [hallowed]), if_neg (by simp),
    if_neg (by simp [hblank, startsComment_of_read h htail])]

theorem layout_append_blanks {gap rest : List Char} (hgap : ∀ d ∈ gap, isBlank d = true)
    (h : layout false rest = ([], rest)) : layout false (gap ++ rest) = (gap, rest) := by
  induction gap with
  | nil => exact h
  | cons d gap ih =>
    have hd := hgap d List.mem_cons_self
    have hcomment : ∀ cs, startsComment d cs = false := by
      intro cs
      rw [startsComment, beq_false_of_ne (ne_of_isBlank hd (by decide)),
        beq_false_of_ne (ne_of_isBlank hd (by decide))]
      rfl
    rw [List.cons_append, layout, if_neg (by simp [isAllowed_of_isBlank hd]), if_neg (by simp),
      if_pos (by simp [hd]), hcomment, ih fun d' hd' => hgap d' (List.mem_cons_of_mem _ hd')]

/-- One lexeme behind layout is one token. -/
theorem Lexer.next_of_read {pos : Nat} {gap tail cs : List Char} {c : Char} {kind : Kind}
    (hgap : layout false (gap ++ c :: (cs ++ tail)) = (gap, c :: (cs ++ tail)))
    (h : Lexeme.read c cs = ⟨c :: cs, [], .ok kind⟩) (htail : EndsLexeme tail) :
    Lexer.next ⟨pos, gap ++ c :: (cs ++ tail), none⟩ =
      (⟨kind, String.ofList (c :: cs), ⟨pos + utf8Length gap,
          pos + utf8Length gap + utf8Length (c :: cs)⟩⟩,
        ⟨pos + utf8Length gap + utf8Length (c :: cs), tail, none⟩) := by
  rw [Lexer.next]
  simp only [hgap, Lexeme.read_append_tail h htail]

/-! ### Terminals with spaces between them -/

/-- Whether a terminal is written as a lexeme of its kind, and holds no text otherwise. -/
structure Terminal.Spelled (t : Terminal) : Prop where
  lexeme : IsLexeme t.kind t.spelling
  text : t.kind.varies = false → t.text = ""

theorem Terminal.Spelled.ne_endOfInput {t : Terminal} (h : t.Spelled) :
    t.kind ≠ .endOfInput := by
  intro hkind
  obtain ⟨c, cs, hcs, -⟩ := h.lexeme
  have htext : t.text = "" := h.text (by rw [hkind]; rfl)
  have hspelling : t.spelling = t.text := by rw [Terminal.spelling, hkind]
  rw [hspelling, htext] at hcs
  exact nomatch hcs

/-- A token with the spelling of a terminal is that terminal. -/
theorem Terminal.Spelled.terminal_eq {t : Terminal} (h : t.Spelled) (span : Span) :
    (Token.mk t.kind t.spelling span).terminal = t := by
  obtain ⟨kind, text⟩ := t
  rw [Token.terminal, Terminal.mk.injEq]
  refine ⟨rfl, ?_⟩
  cases hvaries : kind.varies with
  | false => exact (h.text hvaries).symm
  | true => cases kind <;> first | rfl | exact nomatch hvaries

/-- What is written of terminals behind others. -/
def behind : List Terminal → List Char
  | [] => []
  | t :: ts => ' ' :: (t.spelling.toList ++ behind ts)

theorem endsLexeme_behind (ts : List Terminal) : EndsLexeme (behind ts) := by
  intro d hd
  cases ts with
  | nil => exact nomatch hd
  | cons t ts =>
    obtain rfl := Option.some.inj hd
    rfl

theorem toList_spaced (t : Terminal) (ts : List Terminal) :
    (spaced ((t :: ts).map Terminal.spelling)).toList = t.spelling.toList ++ behind ts := by
  induction ts generalizing t with
  | nil => simp [spaced, behind]
  | cons u us ih =>
    have hspaced : spaced ((t :: u :: us).map Terminal.spelling) =
        t.spelling ++ " " ++ spaced ((u :: us).map Terminal.spelling) := rfl
    rw [hspaced, String.toList_append, ih, behind]
    simp

/-- What pulling tokens gives: these terminals and an end mark at this offset. -/
def PullsTo (pulls : List (Except (Fault LexicalCause) Token)) (ts : List Terminal)
    (stop : Nat) : Prop :=
  ∃ (tokens : List Token) (mark : Token), pulls = tokens.map .ok ++ [.ok mark] ∧
    tokens.map Token.terminal = ts ∧ mark.kind = .endOfInput ∧ mark.span.stop = stop

theorem PullsTo.cons {pulls : List (Except (Fault LexicalCause) Token)} {ts : List Terminal}
    {stop : Nat} (h : PullsTo pulls ts stop) (token : Token) :
    PullsTo (.ok token :: pulls) (token.terminal :: ts) stop := by
  obtain ⟨tokens, mark, rfl, rfl, hmark, hstop⟩ := h
  exact ⟨token :: tokens, mark, rfl, rfl, hmark, hstop⟩

/-- One terminal behind blanks, and then the others. -/
theorem pullsWithin_cons {t : Terminal} {ts : List Terminal} (ht : t.Spelled) {count pos stop : Nat}
    (gap : List Char) (hgap : ∀ d ∈ gap, isBlank d = true)
    (h : ∀ pos', pos' = pos + utf8Length gap + utf8Length t.spelling.toList →
      PullsTo (Lexer.pullsWithin count ⟨pos', behind ts, none⟩) ts stop) :
    PullsTo (Lexer.pullsWithin (count + 1) ⟨pos, gap ++ (t.spelling.toList ++ behind ts), none⟩)
      (t :: ts) stop := by
  obtain ⟨c, cs, hcs, hread⟩ := ht.lexeme
  have hlayout := layout_append_blanks hgap (layout_of_read hread (endsLexeme_behind ts))
  have hnext : Lexer.next ⟨pos, gap ++ c :: (cs ++ behind ts), none⟩ = _ :=
    Lexer.next_of_read hlayout hread (endsLexeme_behind ts)
  have htext : String.ofList (c :: cs) = t.spelling := by rw [← hcs, String.ofList_toList]
  rw [Lexer.pullsWithin_succ, hcs, List.cons_append, hnext]
  simp only [if_neg ht.ne_endOfInput]
  rw [htext]
  have hrest := (h _ (by rw [hcs])).cons
    ⟨t.kind, t.spelling, ⟨pos + utf8Length gap, pos + utf8Length gap + utf8Length (c :: cs)⟩⟩
  rw [ht.terminal_eq] at hrest
  exact hrest

theorem pullsWithin_behind {ts : List Terminal} (hts : ∀ t ∈ ts, t.Spelled) {count : Nat}
    (hcount : ts.length < count) (pos : Nat) :
    PullsTo (Lexer.pullsWithin count ⟨pos, behind ts, none⟩) ts
      (pos + utf8Length (behind ts)) := by
  induction ts generalizing count pos with
  | nil =>
    obtain ⟨count, rfl⟩ := Nat.exists_eq_add_one_of_ne_zero (Nat.ne_of_gt hcount)
    exact ⟨[], _, rfl, rfl, rfl, rfl⟩
  | cons t ts ih =>
    obtain ⟨count, rfl⟩ :=
      Nat.exists_eq_add_one_of_ne_zero (Nat.ne_of_gt (Nat.zero_lt_of_lt hcount))
    have hgap : ∀ d ∈ [' '], isBlank d = true := List.all_eq_true.mp rfl
    refine pullsWithin_cons (hts t List.mem_cons_self) [' '] hgap fun pos' hpos => ?_
    have hrest := ih (fun u hu => hts u (List.mem_cons_of_mem t hu))
      (Nat.lt_of_succ_lt_succ hcount) pos'
    have hstop : pos' + utf8Length (behind ts) = pos + utf8Length (behind (t :: ts)) := by
      simp only [hpos, behind, utf8Length_cons, utf8Length_append, utf8Length_nil]
      omega
    rwa [hstop] at hrest

/-- **Spaces keep lexemes apart**: terminals that are written with a space between them are
what the text lexes to. -/
theorem pulls_spaced {ts : List Terminal} (hts : ∀ t ∈ ts, t.Spelled) :
    PullsTo (Lexer.ofText (spaced (ts.map Terminal.spelling))).pulls ts
      (spaced (ts.map Terminal.spelling)).utf8ByteSize := by
  cases ts with
  | nil => exact ⟨[], _, rfl, rfl, rfl, rfl⟩
  | cons t ts =>
    have hlength : ∀ us : List Terminal, us.length ≤ (behind us).length := by
      intro us
      induction us with
      | nil => exact Nat.le_refl 0
      | cons u us ih =>
        simp only [behind, List.length_cons, List.length_append]
        omega
    obtain ⟨c, cs, hcs, -⟩ := (hts t List.mem_cons_self).lexeme
    have hcount : ts.length < (t.spelling.toList ++ behind ts).length := by
      have := hlength ts
      rw [hcs, List.length_append, List.length_cons]
      omega
    rw [Lexer.pulls, Lexer.ofText, ← utf8Length_toList, toList_spaced]
    refine pullsWithin_cons (hts t List.mem_cons_self) [] (by simp) fun pos' hpos => ?_
    have hrest := pullsWithin_behind (fun u hu => hts u (List.mem_cons_of_mem t hu)) hcount pos'
    rw [utf8Length_append]
    rw [utf8Length_nil, Nat.add_zero, Nat.zero_add] at hpos
    rwa [← hpos]

end FormCalc
