import FormCalc.Proofs.Token.Alone

/-!
# Layout

Between the tokens of a script stand blanks and comments.  What they are makes no difference:
tokens that are laid out in another way, with a blank behind each of them, are the same tokens
(`LexesTo.of_laidOut`).

* `IsGap`: what may stand between two tokens.
* `IsLastGap`: what may stand behind all tokens, where a comment may end with the text.
* `LaidOut`: a text with given tokens and some layout around them.
* `LexesTo`: a text lexes up to its end, and these are the kinds and texts of its tokens.
-/

namespace FormCalc

open Text

/-! ### Gaps -/

/-- Whether characters are a comment up to the end of its line. -/
structure IsComment (cs : List Char) : Prop where
  opens : ∃ body, cs = ';' :: body ∨ cs = '/' :: '/' :: body
  allowed : ∀ c ∈ cs, isAllowed c = true
  line : ∀ c ∈ cs, isTerminator c = false

theorem IsComment.of_all {cs : List Char}
    (hopens : ∃ body, cs = ';' :: body ∨ cs = '/' :: '/' :: body)
    (hall : (cs.all fun c => isAllowed c && !isTerminator c) = true) : IsComment cs := by
  have hboth := List.all_eq_true.mp hall
  simp only [Bool.and_eq_true, Bool.not_eq_true'] at hboth
  exact ⟨hopens, fun c hc => (hboth c hc).1, fun c hc => (hboth c hc).2⟩

/-- Whether characters can stand between two tokens: blanks, and comments with the terminators
of their lines. -/
inductive IsGap : List Char → Prop
  | nil : IsGap []
  | blank {c : Char} {cs : List Char} (hc : isBlank c = true) (rest : IsGap cs) : IsGap (c :: cs)
  | comment {text cs : List Char} {c : Char} (htext : IsComment text)
      (hc : isTerminator c = true) (rest : IsGap cs) : IsGap (text ++ c :: cs)

/-- Whether characters can stand behind all tokens: the last comment may end with the text. -/
inductive IsLastGap : List Char → Prop
  | ended {gap : List Char} (h : IsGap gap) : IsLastGap gap
  | comment {gap text : List Char} (h : IsGap gap) (htext : IsComment text) :
      IsLastGap (gap ++ text)

/-- Whether some characters are these texts with layout around them.  Behind a text, as told by
`behind`, the layout begins with a blank, and it may be missing only at the end. -/
inductive LaidOut : (behind : Bool) → List String → List Char → Prop
  | finish {behind : Bool} {gap : List Char} (hgap : IsLastGap gap)
      (hblank : behind = true → ∀ d ∈ gap.head?, isBlank d = true) : LaidOut behind [] gap
  | token {behind : Bool} {text : String} {texts : List String} {gap tail : List Char}
      (hgap : IsGap gap) (hblank : behind = true → ∃ d ∈ gap.head?, isBlank d = true)
      (rest : LaidOut true texts tail) :
      LaidOut behind (text :: texts) (gap ++ (text.toList ++ tail))

/-! ### Skipping gaps -/

theorem layout_inside_line {line : List Char} (hallowed : ∀ c ∈ line, isAllowed c = true)
    (hline : ∀ c ∈ line, isTerminator c = false) (rest : List Char) :
    layout true (line ++ rest) = (line ++ (layout true rest).1, (layout true rest).2) := by
  induction line with
  | nil => rfl
  | cons c cs ih =>
    have hc := hallowed c List.mem_cons_self
    have hnext := ih (fun d hd => hallowed d (List.mem_cons_of_mem c hd))
      fun d hd => hline d (List.mem_cons_of_mem c hd)
    rw [List.cons_append, layout, if_neg (by simp [hc]), if_pos rfl, hline c List.mem_cons_self]
    simp only [Bool.not_false, hnext, List.cons_append]

theorem layout_terminator {c : Char} (h : isTerminator c = true) (rest : List Char) :
    layout true (c :: rest) = (c :: (layout false rest).1, (layout false rest).2) := by
  have hblank : isBlank c = true := by
    rw [isBlank, h]
    rfl
  rw [layout, if_neg (by simp [isAllowed_of_isBlank hblank]), if_pos rfl, h]
  rfl

theorem layout_comment {text : List Char} (h : IsComment text) (rest : List Char) :
    layout false (text ++ rest) = (text ++ (layout true rest).1, (layout true rest).2) := by
  obtain ⟨body, hbody⟩ := h.opens
  have hopen : ∃ c cs, text = c :: cs ∧ startsComment c (cs ++ rest) = true := by
    rcases hbody with rfl | rfl
    · exact ⟨';', body, rfl, rfl⟩
    · exact ⟨'/', '/' :: body, rfl, rfl⟩
  obtain ⟨c, cs, rfl, hstarts⟩ := hopen
  have hc := h.allowed c List.mem_cons_self
  have hinside := layout_inside_line (fun d hd => h.allowed d (List.mem_cons_of_mem c hd))
    (fun d hd => h.line d (List.mem_cons_of_mem c hd)) rest
  rw [List.cons_append, layout, if_neg (by simp [hc]), if_neg (by simp),
    if_pos (by simp [hstarts]), hstarts, hinside]
  rfl

/-- A gap is skipped as a whole. -/
theorem layout_gap {gap : List Char} (h : IsGap gap) (rest : List Char) :
    layout false (gap ++ rest) = (gap ++ (layout false rest).1, (layout false rest).2) := by
  induction h with
  | nil => rfl
  | @blank c cs hc _ ih =>
    have hcomment : startsComment c (cs ++ rest) = false := by
      rw [startsComment, beq_false_of_ne (ne_of_isBlank hc (by decide)),
        beq_false_of_ne (ne_of_isBlank hc (by decide))]
      rfl
    rw [List.cons_append, layout, if_neg (by simp [isAllowed_of_isBlank hc]), if_neg (by simp),
      if_pos (by simp [hc]), hcomment, ih]
    rfl
  | @comment text cs c htext hc _ ih =>
    rw [List.append_assoc, List.cons_append, layout_comment htext, layout_terminator hc, ih]
    simp

theorem layout_lastGap {gap : List Char} (h : IsLastGap gap) : layout false gap = (gap, []) := by
  cases h with
  | ended h => simpa [layout] using layout_gap h []
  | @comment gap text h htext =>
    have hcomment := layout_comment htext []
    rw [List.append_nil] at hcomment
    rw [layout_gap h, hcomment]
    simp [layout]

/-! ### Tokens in their layout -/

/-- What a token is, wherever it stands: its kind and its text. -/
def Token.face (token : Token) : Kind × String := (token.kind, token.text)

/-- The mark at the end of a text of this many bytes. -/
def endMark (stop : Nat) : Token := ⟨.endOfInput, "", .emptyAt stop⟩

/-- Whether pulling tokens gives tokens with these faces and then the end of the text. -/
def PullsFaces (pulls : List (Except (Fault LexicalCause) Token)) (faces : List (Kind × String))
    (stop : Nat) : Prop :=
  ∃ tokens : List Token, pulls = tokens.map .ok ++ [.ok (endMark stop)] ∧
    tokens.map Token.face = faces

/-- Whether a text lexes up to its end without a fault, to tokens with these faces.  A word that
ends the input before the text does is no end of the text. -/
def LexesTo (text : String) (faces : List (Kind × String)) : Prop :=
  PullsFaces (Lexer.ofText text).pulls faces text.utf8ByteSize

theorem endsLexeme_of_laidOut {texts : List String} {cs : List Char} (h : LaidOut true texts cs) :
    EndsLexeme cs := by
  intro d hd
  cases h with
  | finish _ hblank => exact hblank rfl d hd
  | token _ hblank _ =>
    obtain ⟨d', hd', hblank⟩ := hblank rfl
    rw [List.head?_append, hd'] at hd
    obtain rfl := Option.some.inj hd
    exact hblank

/-- Whether these are the faces of tokens: lexemes that do not end the input. -/
def AreTokens (faces : List (Kind × String)) : Prop :=
  ∀ face ∈ faces, face.1 ≠ .endOfInput ∧ IsLexeme face.1 face.2

theorem length_le_of_laidOut {behind : Bool} {faces : List (Kind × String)} {cs : List Char}
    (hfaces : AreTokens faces) (h : LaidOut behind (faces.map Prod.snd) cs) :
    faces.length ≤ cs.length := by
  induction faces generalizing behind cs with
  | nil => exact Nat.zero_le _
  | cons face faces ih =>
    cases h with
    | @token _ _ _ gap tail _ _ rest =>
      obtain ⟨-, c, taken, htext, -⟩ := hfaces face List.mem_cons_self
      have htail := ih (fun face hface => hfaces face (List.mem_cons_of_mem _ hface)) rest
      rw [htext]
      simp only [List.length_append, List.length_cons]
      omega

theorem pullsWithin_laidOut {behind : Bool} {faces : List (Kind × String)} {cs : List Char}
    (hfaces : AreTokens faces) (h : LaidOut behind (faces.map Prod.snd) cs) {count : Nat}
    (hcount : faces.length < count) (pos : Nat) :
    PullsFaces (Lexer.pullsWithin count ⟨pos, cs, none⟩) faces (pos + utf8Length cs) := by
  obtain ⟨count, rfl⟩ := Nat.exists_eq_add_one_of_ne_zero (Nat.ne_of_gt (Nat.zero_lt_of_lt hcount))
  induction faces generalizing behind cs count pos with
  | nil =>
    cases h with
    | finish hgap _ =>
      refine ⟨[], ?_, rfl⟩
      rw [Lexer.pullsWithin_succ, Lexer.next]
      simp only [layout_lastGap hgap]
      rfl
  | cons face faces ih =>
    cases h with
    | @token _ _ _ gap tail hgap _ rest =>
      obtain ⟨hkind, c, taken, htext, hread⟩ := hfaces face List.mem_cons_self
      have htail := endsLexeme_of_laidOut rest
      have hlayout : layout false (gap ++ c :: (taken ++ tail)) = (gap, c :: (taken ++ tail)) := by
        rw [layout_gap hgap, layout_of_read hread htail, List.append_nil]
      have hnext : Lexer.next ⟨pos, gap ++ c :: (taken ++ tail), none⟩ = _ :=
        Lexer.next_of_read hlayout hread htail
      rw [htext, List.cons_append, Lexer.pullsWithin_succ, hnext]
      simp only [if_neg hkind]
      -- The rest is laid out behind this token.
      obtain ⟨count, rfl⟩ := Nat.exists_eq_add_one_of_ne_zero (Nat.ne_of_gt
        (Nat.zero_lt_of_lt (Nat.lt_of_succ_lt_succ hcount)))
      obtain ⟨tokens, hpulls, htokens⟩ := ih
        (fun face hface => hfaces face (List.mem_cons_of_mem _ hface)) rest
        (pos + utf8Length gap + utf8Length (c :: taken)) count (Nat.lt_of_succ_lt_succ hcount)
      have hstop : pos + utf8Length gap + utf8Length (c :: taken) + utf8Length tail =
          pos + utf8Length (gap ++ c :: (taken ++ tail)) := by
        simp only [utf8Length_append, utf8Length_cons]
        omega
      rw [hstop] at hpulls
      refine ⟨⟨face.1, String.ofList (c :: taken), _⟩ :: tokens, by rw [hpulls]; rfl, ?_⟩
      rw [List.map_cons, htokens, Token.face, ← htext, String.ofList_toList]

/-- **Layout makes no difference to the tokens**: what a text lexes to, a text lexes to in which
the same tokens are laid out. -/
theorem LexesTo.of_laidOut {text text' : String} {faces : List (Kind × String)}
    (h : LexesTo text faces) (hlaid : LaidOut false (faces.map Prod.snd) text'.toList) :
    LexesTo text' faces := by
  have hfaces : AreTokens faces := by
    obtain ⟨tokens, hpulls, rfl⟩ := h
    intro face hface
    obtain ⟨token, htoken, rfl⟩ := List.mem_map.mp hface
    have hkind := Lexer.kind_of_pulls hpulls htoken
    have hmem : .ok token ∈ (Lexer.ofText text).pulls := by
      rw [hpulls]
      exact List.mem_append_left _ (List.mem_map_of_mem htoken)
    exact ⟨hkind, Lexer.isLexeme_of_mem_pulls hmem hkind⟩
  have hcount := Nat.lt_succ_of_le (length_le_of_laidOut hfaces hlaid)
  have hpulls := pullsWithin_laidOut hfaces hlaid hcount 0
  rwa [Nat.zero_add, utf8Length_toList] at hpulls

end FormCalc
