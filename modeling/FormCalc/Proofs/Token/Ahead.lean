import FormCalc.Proofs.Token.Longest

/-!
# Lexing looks one character ahead

What a lexer does with the front of a script depends on what comes behind only through the next
character.  So a script may be changed behind a token without a change of the tokens up to there,
as long as the next character stays the same.  Behind the word `eof` even this character may
change, into any other that ends a word.

* `Lexeme.read_ahead`: one lexeme, before another text that starts like the one behind it.
* `Lexer.Step.ahead`: one call of a lexer.
* `Lexer.calls_before_mark`: all calls up to a word that ends the input, before any text that
  ends the word.
-/

namespace FormCalc

open Text

/-! ### Shapes -/

section Shapes

variable {p : Char → Bool} {tail other : List Char}

theorem head_append (h : tail.head? = other.head?) (front : List Char) :
    (front ++ tail).head? = (front ++ other).head? := by
  cases front with
  | nil => exact h
  | cons c cs => rfl

theorem not_cons_of_head (h : tail.head? = other.head?) {c : Char}
    (hother : ∀ cs, other = c :: cs → False) : ∀ cs, tail = c :: cs → False := by
  rintro cs rfl
  cases other with
  | nil => cases h
  | cons d ds =>
    obtain rfl := Option.some.inj h
    exact hother ds rfl

theorem stops_dropWhile (xs : List Char) : Stops p (xs.dropWhile p) := by
  intro d hd
  have hstop := List.head?_dropWhile_not p xs
  rw [Option.mem_def.mp hd] at hstop
  exact hstop

theorem Stops.of_head (h : Stops p other) (hhead : tail.head? = other.head?) : Stops p tail := by
  rw [Stops, hhead]
  exact h

theorem takeWhile_ahead {xs : List Char} (h : tail.head? = (xs.dropWhile p).head?) :
    (xs.takeWhile p ++ tail).takeWhile p = xs.takeWhile p :=
  takeWhile_exact (of_mem_takeWhile xs) ((stops_dropWhile xs).of_head h)

theorem dropWhile_ahead {xs : List Char} (h : tail.head? = (xs.dropWhile p).head?) :
    (xs.takeWhile p ++ tail).dropWhile p = tail :=
  dropWhile_exact (of_mem_takeWhile xs) ((stops_dropWhile xs).of_head h)

theorem fraction_ahead {xs : List Char} (h : tail.head? = (fraction xs).2.head?) :
    fraction ((fraction xs).1 ++ tail) = ((fraction xs).1, tail) := by
  by_cases hpoint : ∃ cs, xs = '.' :: cs
  · obtain ⟨cs, rfl⟩ := hpoint
    have hdigits : tail.head? = (cs.dropWhile Char.isDigit).head? := h
    show fraction ('.' :: (cs.takeWhile Char.isDigit ++ tail)) = _
    rw [fraction, takeWhile_ahead hdigits, dropWhile_ahead hdigits]
    rfl
  · have hnone : ∀ cs, xs = '.' :: cs → False := fun cs heq => hpoint ⟨cs, heq⟩
    have hxs : fraction xs = ([], xs) := by
      rw [fraction]
      exact hnone
    rw [hxs] at h ⊢
    rw [List.nil_append, fraction]
    exact not_cons_of_head h hnone

theorem exponent_nil (h : Stops isAlphabetic tail) : exponent tail = ([], tail) := by
  cases tail with
  | nil => rfl
  | cons d ds =>
    have hd := h d rfl
    have hmark : (d == 'e' || d == 'E') = false := by
      rw [Bool.or_eq_false_iff, beq_eq_false_iff_ne, beq_eq_false_iff_ne]
      constructor <;> rintro rfl <;> revert hd <;> decide
    rw [exponent, hmark]
    rfl

/-- There is no exponent, or a mark and a sign with digits behind them. -/
theorem exponent_eq (xs : List Char) :
    exponent xs = ([], xs) ∨ ∃ mark cs, (mark == 'e' || mark == 'E') = true ∧
      (exponentSign cs).2.takeWhile Char.isDigit ≠ [] ∧
      exponent xs = (mark :: (exponentSign cs).1 ++ (exponentSign cs).2.takeWhile Char.isDigit,
        (exponentSign cs).2.dropWhile Char.isDigit) := by
  cases xs with
  | nil => exact .inl rfl
  | cons mark cs =>
    rw [exponent]
    split
    · rename_i hmark
      dsimp only
      split
      · exact .inl rfl
      · rename_i hdigits
        exact .inr ⟨mark, cs, hmark, hdigits, rfl⟩
    · exact .inl rfl

theorem exponent_ahead {xs : List Char} (h : tail.head? = (exponent xs).2.head?)
    (hletter : Stops isAlphabetic tail) :
    exponent ((exponent xs).1 ++ tail) = ((exponent xs).1, tail) := by
  rcases exponent_eq xs with hnone | ⟨mark, cs, hmark, hdigits, hsome⟩
  · rw [hnone]
    exact exponent_nil hletter
  · rw [hsome] at h ⊢
    have hsign : exponentSign ((exponentSign cs).1 ++
        ((exponentSign cs).2.takeWhile Char.isDigit ++ tail)) =
        ((exponentSign cs).1, (exponentSign cs).2.takeWhile Char.isDigit ++ tail) := by
      obtain ⟨d, ds, hds⟩ := List.exists_cons_of_ne_nil hdigits
      have hd : d.isDigit = true := of_mem_takeWhile _ d (hds ▸ List.mem_cons_self)
      refine exponentSign_taken ?_ cs
      rw [hds]
      exact stops_sign hd _
    rw [List.append_assoc, List.cons_append, exponent, if_pos hmark, hsign]
    dsimp only
    rw [takeWhile_ahead h, dropWhile_ahead h]
    split
    · rename_i hnone
      exact absurd hnone hdigits
    · rfl

/-- A number ends the same before another text, if no letter comes behind it. -/
theorem numberText_ahead {xs : List Char} (h : tail.head? = (numberText xs).2.head?)
    (hletter : Stops isAlphabetic tail) :
    numberText ((numberText xs).1 ++ tail) = ((numberText xs).1, tail) := by
  have htext : (numberText xs).1 = xs.takeWhile Char.isDigit ++
      ((fraction (xs.dropWhile Char.isDigit)).1 ++
        (exponent (fraction (xs.dropWhile Char.isDigit)).2).1) := List.append_assoc ..
  have hpower := @exponent_ahead tail (fraction (xs.dropWhile Char.isDigit)).2 h hletter
  have hafter := head_append h (exponent (fraction (xs.dropWhile Char.isDigit)).2).1
  have hmore : (numberText xs).2 = (exponent (fraction (xs.dropWhile Char.isDigit)).2).2 := rfl
  rw [hmore, exponent_append] at hafter
  have hpoint := fraction_ahead hafter
  have hdigits := head_append hafter (fraction (xs.dropWhile Char.isDigit)).1
  rw [fraction_append] at hdigits
  rw [htext, numberText, List.append_assoc, List.append_assoc, takeWhile_ahead hdigits,
    dropWhile_ahead hdigits, hpoint]
  dsimp only
  rw [hpower, List.append_assoc]

theorem startsNumber_ahead (h : tail.head? = other.head?) (c : Char) :
    startsNumber (c :: tail) = startsNumber (c :: other) := by
  by_cases hc : c = '.'
  · subst hc
    cases tail with
    | nil =>
      cases other with
      | nil => rfl
      | cons d ds => cases h
    | cons d ds =>
      cases other with
      | nil => cases h
      | cons e es =>
        obtain rfl := Option.some.inj h
        rfl
  · rw [Lexeme.startsNumber_of_ne hc, Lexeme.startsNumber_of_ne hc]

theorem startsComment_ahead (h : tail.head? = other.head?) (c : Char) :
    startsComment c tail = startsComment c other := by
  rw [startsComment, startsComment, h]

/-- A symbol is the longest one also before another text. -/
theorem symbolAt_ahead {cs : List Char} {s : Symbol} (hs : symbolAt cs = some s)
    (h : tail.head? = (cs.drop s.text.length).head?) :
    symbolAt (s.text.toList ++ tail) = some s := by
  unfold symbolAt at hs
  -- only a sign that could be the first of two looks at what comes behind it
  split at hs <;> cases hs <;> try rfl
  · rename_i hequal
    show symbolAt ('=' :: tail) = some .assign
    rw [symbolAt]
    exact not_cons_of_head h hequal
  · rename_i hequal hgreater
    show symbolAt ('<' :: tail) = some .less
    rw [symbolAt]
    · exact not_cons_of_head h hequal
    · exact not_cons_of_head h hgreater
  · rename_i hequal
    show symbolAt ('>' :: tail) = some .greater
    rw [symbolAt]
    exact not_cons_of_head h hequal
  · rename_i hdot hstar hhash
    show symbolAt ('.' :: tail) = some .dot
    rw [symbolAt]
    · exact not_cons_of_head h hdot
    · exact not_cons_of_head h hstar
    · exact not_cons_of_head h hhash

end Shapes

/-! ### One lexeme -/

/-- Whether a word ends before a text: something comes, it may stand in a script, and it is no
part of an identifier. -/
def EndsWord (tail : List Char) : Prop :=
  ∃ c cs, tail = c :: cs ∧ isAllowed c = true ∧ isIdentifierPart c = false

namespace Lexeme

variable {c : Char} {cs tail taken : List Char} {kind kind' : Kind}

theorem ended_ahead {text rest : List Char} (h : (ended kind text rest).verdict = .ok kind')
    (htail : tail.head? = rest.head?) : ended kind text tail = ⟨text, tail, .ok kind'⟩ := by
  obtain rfl := ended_verdict h
  cases tail with
  | nil => rfl
  | cons d ds =>
    cases rest with
    | nil => cases htail
    | cons e es =>
      obtain rfl := Option.some.inj htail
      have hallowed : isAllowed d = true := by
        cases hd : isAllowed d with
        | true => rfl
        | false => simp [ended, hd] at h
      simp [ended, hallowed]

theorem rest_ended (kind : Kind) (text rest : List Char) : (ended kind text rest).rest = rest := by
  unfold ended
  split <;> rfl

theorem quoted_ahead (h : (quoted cs).verdict = .ok kind)
    (htail : tail.head? = (quoted cs).rest.head?) :
    quoted ((quoted cs).text ++ tail) = ⟨(quoted cs).text, tail, .ok kind⟩ := by
  fun_induction quoted cs with
  | case1 => cases h
  | case2 cs ih =>
    show (quoted ((quoted cs).text ++ tail)).after ['"', '"'] = _
    rw [ih h htail]
    rfl
  | case3 cs hquote =>
    rw [rest_ended] at htail
    rw [ended_text]
    show quoted ('"' :: tail) = _
    rw [quoted]
    · exact ended_ahead h htail
    · exact not_cons_of_head htail hquote
  | case4 c cs hpair hquote hc ih =>
    show quoted (c :: ((quoted cs).text ++ tail)) = _
    rw [quoted, if_pos hc, ih h htail]
    · rfl
    · exact fun _ heq _ => hquote heq
    · exact hquote
  | case5 => cases h

/-- A number is read where no letter comes behind it. -/
theorem number_of_stops {text rest : List Char} (h : numberText cs = (text, rest))
    (hletter : Stops isAlphabetic rest) : number cs = ⟨text, rest, .ok .number⟩ := by
  rw [number, h]
  cases rest with
  | nil => rfl
  | cons d ds => simp [hletter d rfl]

theorem rest_number (cs : List Char) : (number cs).rest = (numberText cs).2 := by
  unfold number
  dsimp only
  split <;> rename_i hrest <;> exact hrest.symm

theorem stops_of_number (h : (number cs).verdict = .ok kind) :
    Stops isAlphabetic (number cs).rest := by
  intro d hd
  unfold number at h hd
  dsimp only at h hd
  split at hd
  · cases hd
  · rename_i c after hrest
    obtain rfl := Option.some.inj hd
    rw [hrest] at h
    cases hletter : isAlphabetic c with
    | false => rfl
    | true => simp [hletter] at h

theorem number_ahead (h : (number cs).verdict = .ok kind)
    (htail : tail.head? = (number cs).rest.head?) :
    number ((number cs).text ++ tail) = ⟨(number cs).text, tail, .ok kind⟩ := by
  obtain rfl := number_kind h
  have hletter := (stops_of_number h).of_head htail
  rw [rest_number] at htail
  rw [text_number]
  exact number_of_stops (numberText_ahead htail hletter) hletter

/-- A word is as long as the characters of identifiers behind its first. -/
theorem word_exact (htaken : ∀ d ∈ taken, (isAllowed d && isIdentifierPart d) = true)
    (htail : Stops (fun d => isAllowed d && isIdentifierPart d) tail) :
    word c (taken ++ tail) =
      ended (.ofWord (String.ofList (c :: taken))) (c :: taken) tail := by
  rw [word, takeWhile_exact htaken htail, dropWhile_exact htaken htail]

theorem word_ahead (h : (word c cs).verdict = .ok kind)
    (htail : tail.head? = (word c cs).rest.head?) (htaken : (word c cs).text = c :: taken) :
    word c (taken ++ tail) = ⟨c :: taken, tail, .ok kind⟩ := by
  rw [word, rest_ended] at htail
  rw [word, ended_text] at htaken
  obtain rfl := (List.cons.inj htaken).2
  rw [word_exact (of_mem_takeWhile cs) ((stops_dropWhile cs).of_head htail)]
  exact ended_ahead h htail

theorem read_of_symbolAt {s : Symbol} (hc : isAllowed c = true) (hquote : c ≠ '"')
    (hnumber : startsNumber (c :: cs) = false) (hs : symbolAt (c :: cs) = some s) :
    read c cs = ⟨s.text.toList, (c :: cs).drop s.text.length, .ok (.symbol s)⟩ := by
  rw [read, if_neg (by simp [hc]), if_neg (by simp [hquote]), if_neg (by simp [hnumber]), hs]

theorem read_of_isIdentifierStart (hc : isAllowed c = true) (hquote : c ≠ '"')
    (hnumber : startsNumber (c :: cs) = false) (hstart : isIdentifierStart c = true) :
    read c cs = word c cs := by
  rw [read, if_neg (by simp [hc]), if_neg (by simp [hquote]), if_neg (by simp [hnumber]),
    symbolAt_of_isIdentifierStart hstart]
  exact if_pos hstart

theorem isAllowed_of_read (h : (read c cs).verdict = .ok kind) : isAllowed c = true := by
  cases hc : isAllowed c with
  | true => rfl
  | false => cases (verdict_of_not_allowed hc cs).symm.trans h

/-- **A lexeme is read one character ahead**: before another text that starts like the one
behind it, it is read the same. -/
theorem read_ahead (h : (read c cs).verdict = .ok kind) (htaken : (read c cs).text = c :: taken)
    (htail : tail.head? = (read c cs).rest.head?) :
    read c (taken ++ tail) = ⟨c :: taken, tail, .ok kind⟩ := by
  have hnumber : startsNumber (c :: (taken ++ tail)) = startsNumber (c :: cs) := by
    have happend := read_append c cs
    rw [htaken, List.cons_append] at happend
    refine startsNumber_ahead ?_ c
    rw [← (List.cons.inj happend).2]
    exact head_append htail taken
  have hreads := reads c cs
  generalize read c cs = lexeme at h htaken htail hreads
  cases hreads with
  | forbidden | unexpected => cases h
  | string hc hquote =>
    subst hquote
    obtain rfl : (quoted cs).text = taken := (List.cons.inj htaken).2
    show (quoted ((quoted cs).text ++ tail)).after ['"'] = _
    rw [quoted_ahead h htail]
    rfl
  | number hc hquote hstarts =>
    rw [read_of_startsNumber (hnumber.trans hstarts), ← List.cons_append, ← htaken]
    exact number_ahead h htail
  | @symbol s hc hquote hstarts hs =>
    obtain rfl := Except.ok.inj h
    have htext : s.text.toList = c :: taken := htaken
    have hlength : s.text.length = (c :: taken).length := by rw [← htext, String.length_toList]
    have hagain := symbolAt_ahead hs htail
    rw [htext, List.cons_append] at hagain
    rw [read_of_symbolAt hc hquote (hnumber.trans hstarts) hagain, htext, hlength,
      ← List.cons_append, List.drop_left]
  | word hc hquote hstarts hs hstart =>
    rw [read_of_isIdentifierStart hc hquote (hnumber.trans hstarts) hstart]
    exact word_ahead h htail htaken

/-! ### The word that ends the input -/

/-- No other lexeme than the word `eof` ends the input. -/
theorem text_of_endOfInput (h : (read c cs).verdict = .ok .endOfInput) :
    (read c cs).text = ['e', 'o', 'f'] := by
  have hreads := reads c cs
  generalize read c cs = lexeme at h hreads
  cases hreads with
  | forbidden | symbol | unexpected => cases h
  | string => cases quoted_kind h
  | number => cases number_kind h
  | word =>
    have hword := Option.some.inj (Kind.word?_eq_some (ended_verdict h) nofun)
    have htext := congrArg String.toList hword.symm
    rw [String.toList_ofList] at htext
    rw [word, ended_text, htext]
    rfl

/-- The word `eof` is read before any text that ends it. -/
theorem read_eof (h : EndsWord tail) :
    read 'e' ('o' :: 'f' :: tail) = ⟨['e', 'o', 'f'], tail, .ok .endOfInput⟩ := by
  obtain ⟨d, ds, rfl, hallowed, hpart⟩ := h
  have hall : ['o', 'f'].all (fun c => isAllowed c && isIdentifierPart c) = true := by
    decide +kernel
  have hword := List.all_eq_true.mp hall
  have htail : Stops (fun c => isAllowed c && isIdentifierPart c) (d :: ds) := by
    intro c hc
    obtain rfl := Option.some.inj hc
    simp [hpart]
  refine (read_of_isIdentifierStart rfl (by decide) rfl (by decide +kernel)).trans ?_
  refine (word_exact hword htail).trans ?_
  rw [ended, if_pos hallowed]
  rfl

end Lexeme

/-! ### Layout -/

/-- Layout ends the same before another text, if a token starts behind it. -/
theorem layout_ahead {cs gap more tail : List Char} {c : Char}
    (h : layout false cs = (gap, c :: more)) (hc : isAllowed c = true)
    (hcomment : startsComment c tail = startsComment c more) :
    layout false (gap ++ c :: tail) = (gap, c :: tail) := by
  have hgap : IsGap gap := (isSkipped_layout h).2 c rfl hc
  have happend := layout_append false cs
  rw [h] at happend
  have hnone : layout false (c :: more) = ([], c :: more) := by
    rw [← happend, layout_gap hgap] at h
    obtain ⟨hfirst, hsecond⟩ := Prod.mk.inj h
    exact Prod.ext (List.append_cancel_left (hfirst.trans (List.append_nil gap).symm)) hsecond
  have hstart : (isBlank c || startsComment c more) = false := by
    cases hblank : (isBlank c || startsComment c more) with
    | false => rfl
    | true =>
      rw [layout, if_neg (by simp [hc]), if_neg (by simp), if_pos hblank] at hnone
      cases hnone
  have htail : layout false (c :: tail) = ([], c :: tail) := by
    rw [layout, if_neg (by simp [hc]), if_neg (by simp), if_neg]
    rw [hcomment, hstart]
    simp
  rw [layout_gap hgap, htail, List.append_nil]

/-! ### Calls -/

namespace Lexer

variable {lexer after last : Lexer} {token mark : Token} {tokens : List Token}

theorem next_of_lexeme {pos : Nat} {rest gap cs text tail : List Char} {c : Char} {kind : Kind}
    (hlayout : layout false rest = (gap, c :: cs))
    (hread : Lexeme.read c cs = ⟨text, tail, .ok kind⟩) :
    next ⟨pos, rest, none⟩ =
      (⟨kind, String.ofList text, ⟨pos + utf8Length gap,
        pos + utf8Length gap + utf8Length text⟩⟩,
        ⟨pos + utf8Length gap + utf8Length text, tail, none⟩) := by
  rw [next]
  simp only [hlayout, hread]

/-- Where calls meet no fault, the first of them does not. -/
theorem fault_next {count : Nat} (h : (calls count lexer.next.2).2.fault = none) :
    lexer.next.2.fault = none := by
  cases hnext : lexer.next.2.fault with
  | none => rfl
  | some fault => cases (fault_calls hnext count).symm.trans h

/-- A call gives the same before another text that starts like the one behind its token. -/
theorem Step.ahead (h : Step lexer token after) (hfault : after.fault = none)
    (hsome : after.rest ≠ []) :
    ∃ front, lexer.rest = front ++ after.rest ∧ ∀ tail, tail.head? = after.rest.head? →
      next ⟨lexer.pos, front ++ tail, none⟩ = (token, ⟨after.pos, tail, none⟩) := by
  cases h with
  | stopped h => cases h.symm.trans hfault
  | finished => exact absurd rfl hsome
  | refused => cases hfault
  | @read gap cs c kind _ hlayout hverdict =>
    obtain ⟨taken, htaken, -⟩ := Lexeme.read_text hverdict
    have happend := Lexeme.read_append c cs
    rw [htaken, List.cons_append] at happend
    have hcs := (List.cons.inj happend).2
    have hrest := layout_append false lexer.rest
    rw [hlayout] at hrest
    refine ⟨gap ++ c :: taken, ?_, fun tail htail => ?_⟩
    · rw [← hrest, List.append_assoc, List.cons_append, hcs]
    · have hhead := head_append htail taken
      rw [hcs] at hhead
      rw [List.append_assoc, List.cons_append, htaken]
      exact next_of_lexeme
        (layout_ahead hlayout (Lexeme.isAllowed_of_read hverdict) (startsComment_ahead hhead c))
        (Lexeme.read_ahead hverdict htaken htail)

/-- A call gives the word `eof` before any text that ends the word. -/
theorem Step.ahead_mark (h : Step lexer mark after) (hfault : after.fault = none)
    (hsome : after.rest ≠ []) (hkind : mark.kind = .endOfInput) :
    ∃ front, front ≠ [] ∧ lexer.rest = front ++ after.rest ∧ ∀ tail, EndsWord tail →
      next ⟨lexer.pos, front ++ tail, none⟩ = (mark, ⟨after.pos, tail, none⟩) := by
  cases h with
  | stopped h => cases h.symm.trans hfault
  | finished => exact absurd rfl hsome
  | refused => cases hfault
  | @read gap cs c kind _ hlayout hverdict =>
    obtain rfl : kind = .endOfInput := hkind
    have htext := Lexeme.text_of_endOfInput hverdict
    have happend := Lexeme.read_append c cs
    rw [htext] at happend
    obtain ⟨rfl, hcs⟩ := List.cons.inj happend
    have hrest := layout_append false lexer.rest
    rw [hlayout] at hrest
    refine ⟨gap ++ ['e', 'o', 'f'], by simp, ?_, fun tail htail => ?_⟩
    · rw [List.append_assoc, ← hrest]
      exact congrArg (fun more => gap ++ 'e' :: more) hcs.symm
    · rw [List.append_assoc, htext]
      exact next_of_lexeme (layout_ahead hlayout rfl rfl) (Lexeme.read_eof htail)

/-- **What is behind the word `eof` has no part in the calls up to there**, as long as it ends
the word. -/
theorem calls_before_mark {count : Nat} (h : lexer.calls count = (tokens ++ [mark], last))
    (hfault : last.fault = none) (hsome : last.rest ≠ []) (hkind : mark.kind = .endOfInput) :
    ∃ front, front ≠ [] ∧ lexer.rest = front ++ last.rest ∧ ∀ tail, EndsWord tail →
      calls count ⟨lexer.pos, front ++ tail, none⟩ =
        (tokens ++ [mark], ⟨last.pos, tail, none⟩) := by
  induction count generalizing lexer tokens with
  | zero => simp [calls] at h
  | succ count ih =>
    obtain ⟨htokens, hlast⟩ : lexer.next.1 :: (calls count lexer.next.2).1 = tokens ++ [mark] ∧
      (calls count lexer.next.2).2 = last := Prod.mk.inj h
    cases tokens with
    | nil =>
      -- the word comes with the only call
      obtain ⟨hmark, hnone⟩ := List.cons.inj htokens
      obtain rfl : count = 0 := by rw [← length_calls lexer.next.2 count, hnone]; rfl
      obtain rfl : lexer.next.2 = last := hlast
      obtain ⟨front, hfront, hrest, hnext⟩ :=
        (hmark ▸ lexer.step_next).ahead_mark hfault hsome hkind
      refine ⟨front, hfront, hrest, fun tail htail => ?_⟩
      rw [calls, hnext tail htail]
      rfl
    | cons first tokens =>
      obtain ⟨hfirst, hmore⟩ := List.cons.inj htokens
      obtain ⟨front, hfront, hrest, hcalls⟩ := ih (Prod.ext hmore hlast)
      have hnofault := fault_next (hlast ▸ hfault)
      -- the first token is followed by a part of what is read up to the word
      have hne : lexer.next.2.rest ≠ [] := by simp [hrest, hfront]
      obtain ⟨taken, htaken, hahead⟩ := lexer.step_next.ahead hnofault hne
      refine ⟨taken ++ front, by simp [hfront], ?_, fun tail htail => ?_⟩
      · rw [htaken, hrest, List.append_assoc]
      · have hhead : (front ++ tail).head? = lexer.next.2.rest.head? := by
          obtain ⟨d, ds, rfl⟩ := List.exists_cons_of_ne_nil hfront
          rw [hrest]
          rfl
        rw [List.append_assoc, calls, hahead _ hhead]
        simp only [hcalls tail htail, hfirst, List.cons_append]

/-! ### Tokens up to a mark -/

/-- The tokens up to the first end mark. -/
def upToMark : List Token → List Token
  | [] => []
  | token :: tokens => if token.kind = .endOfInput then [token] else token :: upToMark tokens

/-- There is one mark in them, and it is the last. -/
theorem exists_upToMark (h : ∃ token ∈ tokens, token.kind = .endOfInput) :
    ∃ front mark, upToMark tokens = front ++ [mark] ∧ mark ∈ tokens ∧ mark.kind = .endOfInput := by
  induction tokens with
  | nil =>
    obtain ⟨token, hmem, -⟩ := h
    cases hmem
  | cons first tokens ih =>
    rw [upToMark]
    split
    · rename_i hkind
      exact ⟨[], first, rfl, List.mem_cons_self, hkind⟩
    · rename_i hkind
      obtain ⟨front, mark, hmore, hmark, hmarks⟩ := ih (by simpa [hkind] using h)
      exact ⟨first :: front, mark, by rw [hmore]; rfl, List.mem_cons_of_mem _ hmark, hmarks⟩

theorem pullsWithin_of_calls {fuel count : Nat} (h : lexer.calls count = (tokens, last))
    (hfault : last.fault = none) (hmark : ∃ token ∈ tokens, token.kind = .endOfInput)
    (hfuel : lexer.rest.length < fuel) :
    pullsWithin fuel lexer = (upToMark tokens).map .ok := by
  induction count generalizing lexer tokens fuel with
  | zero =>
    obtain ⟨rfl, -⟩ := Prod.mk.inj h
    obtain ⟨token, hmem, -⟩ := hmark
    cases hmem
  | succ count ih =>
    obtain ⟨rfl, hlast⟩ : lexer.next.1 :: (calls count lexer.next.2).1 = tokens ∧
      (calls count lexer.next.2).2 = last := Prod.mk.inj h
    have hnofault := fault_next (hlast ▸ hfault)
    obtain ⟨fuel, rfl⟩ := Nat.exists_eq_succ_of_ne_zero (Nat.ne_zero_of_lt hfuel)
    rw [Nat.succ_eq_add_one, pullsWithin_succ, hnofault, upToMark]
    dsimp only
    split
    · rfl
    · rename_i hkind
      have hlength := lexer.step_next.length_lt hnofault hkind
      rw [ih (Prod.ext rfl hlast) (by simpa [hkind] using hmark) (by omega)]
      rfl

/-- **What is pulled**: the tokens of any calls that meet no fault, up to the first end mark. -/
theorem pulls_of_calls {count : Nat} (h : lexer.calls count = (tokens, last))
    (hfault : last.fault = none) (hmark : ∃ token ∈ tokens, token.kind = .endOfInput) :
    lexer.pulls = (upToMark tokens).map .ok :=
  pullsWithin_of_calls h hfault hmark (Nat.lt_succ_self _)

end Lexer

end FormCalc
