import FormCalc.Proofs.Token.Stream

/-!
# Words and strings

Which words are no names, what a string token looks like, and what it stands for.

* `Kind.word?`: the word that is read as a token of a kind.  The table of words has these words and
  no others (`Kind.ofWord?_eq_some_iff`).
* `Interior`: what can stand between the quotes.
* `Lexer.exists_interior`: every string token that a lexer gives is an interior in quotes.
* `stringValue`: the value of a string token.
-/

namespace FormCalc

open Text

/-- Whether characters can stand between the quotes of a string: quotes come in pairs, and all
others may stand in a script. -/
inductive Interior : List Char → Prop
  | nil : Interior []
  | pair {cs : List Char} (rest : Interior cs) : Interior ('"' :: '"' :: cs)
  | char {c : Char} {cs : List Char} (hquote : c ≠ '"') (hallowed : isAllowed c = true)
      (rest : Interior cs) : Interior (c :: cs)

/-- What an interior stands for: a doubled quote is one quote, and carriage returns do not
count. -/
def interiorValue : List Char → List Char
  | [] => []
  | '"' :: '"' :: cs => '"' :: interiorValue cs
  | c :: cs => if c = '\r' then interiorValue cs else c :: interiorValue cs

/-- What a string token stands for. -/
def stringValue (raw : String) : List Char := interiorValue (raw.toList.drop 1).dropLast

theorem interiorValue_char {c : Char} (hquote : c ≠ '"') (cs : List Char) :
    interiorValue (c :: cs) = if c = '\r' then interiorValue cs else c :: interiorValue cs := by
  rw [interiorValue]
  intro _ heq
  exact absurd heq hquote

/-- Of an ordinary character the value keeps what the interior has. -/
theorem Interior.mem_value {cs : List Char} (h : Interior cs) {c : Char} (hquote : c ≠ '"')
    (hreturn : c ≠ '\r') : c ∈ interiorValue cs ↔ c ∈ cs := by
  induction h with
  | nil => rfl
  | pair rest ih => simp [interiorValue, hquote, ih]
  | @char d cs hd _ rest ih =>
    rw [interiorValue_char hd]
    split
    · rename_i heq
      rw [ih, heq]
      simp [hreturn]
    · simp [ih]

theorem Interior.return_not_mem_value {cs : List Char} (h : Interior cs) :
    '\r' ∉ interiorValue cs := by
  induction h with
  | nil => exact List.not_mem_nil
  | pair rest ih => simp [interiorValue, ih]
  | char hd _ rest ih =>
    rw [interiorValue_char hd]
    split
    · exact ih
    · rename_i hne
      simp [ih, Ne.symm hne]

/-! ### The tokens of a lexer -/

/-- A string goes on to its closing quote. -/
theorem Lexeme.exists_interior_quoted {cs : List Char} {kind : Kind}
    (h : (quoted cs).verdict = .ok kind) :
    ∃ interior, (quoted cs).text = interior ++ ['"'] ∧ Interior interior := by
  fun_induction quoted cs with
  | case1 => cases h
  | case2 cs ih =>
    obtain ⟨interior, htext, hinterior⟩ := ih h
    exact ⟨'"' :: '"' :: interior, congrArg (['"', '"'] ++ ·) htext, .pair hinterior⟩
  | case3 cs _ =>
    refine ⟨[], ?_, .nil⟩
    cases cs <;> rfl
  | case4 c cs hpair hclose hc ih =>
    obtain ⟨interior, htext, hinterior⟩ := ih h
    exact ⟨c :: interior, congrArg ([c] ++ ·) htext, .char hclose hc hinterior⟩
  | case5 => cases h

/-- What a table gives for a key stands there as an entry. -/
theorem mem_of_lookup {β : Type} {key : String} {value : β} {entries : List (String × β)}
    (h : entries.lookup key = some value) : (key, value) ∈ entries := by
  obtain ⟨before, after, hentries, -⟩ := List.lookup_eq_some_iff.mp h
  rw [hentries]
  exact List.mem_append_right before List.mem_cons_self

/-! ### Words -/

namespace Kind

variable {word : String} {kind : Kind}

/-- The one word that is read as a token of a kind, for the kinds that have such a word. -/
def word? : Kind → Option String
  | .keyword k => some k.text
  | .endOfInput => some "eof"
  | _ => none

/-- The table has each of these words, with its kind, and no other. -/
theorem ofWord?_eq_some_iff : ofWord? word = some kind ↔ kind.word? = some word := by
  constructor
  · intro h
    have htable : ∀ entry ∈ words, entry.2.word? = some entry.1 := by decide
    exact htable _ (mem_of_lookup h)
  · intro h
    cases kind with
    | keyword k =>
      obtain rfl := Option.some.inj h
      cases k <;> rfl
    | endOfInput =>
      obtain rfl := Option.some.inj h
      rfl
    | symbol | identifier | number | string | invalid => cases h

theorem ofWord_of_word? (h : kind.word? = some word) : ofWord word = kind := by
  rw [ofWord, ofWord?_eq_some_iff.mpr h]
  rfl

/-- Any other word is a name. -/
theorem ofWord_eq_identifier (h : ∀ kind : Kind, kind.word? ≠ some word) :
    ofWord word = .identifier := by
  have hnone : ofWord? word = none :=
    Option.eq_none_iff_forall_ne_some.mpr fun kind hkind => h kind (ofWord?_eq_some_iff.mp hkind)
  rw [ofWord, hnone]
  rfl

/-- A word that is no name is the word of its kind. -/
theorem word?_eq_some (h : kind = ofWord word) (hname : kind ≠ .identifier) :
    kind.word? = some word := by
  unfold ofWord at h
  cases hword : ofWord? word with
  | none =>
    rw [hword] at h
    exact absurd h hname
  | some found =>
    rw [hword] at h
    obtain rfl : kind = found := h
    exact ofWord?_eq_some_iff.mp hword

theorem ofWord_ne (hname : kind ≠ .identifier) (hnone : kind.word? = none) (word : String) :
    ofWord word ≠ kind := by
  intro h
  cases (word?_eq_some h.symm hname).symm.trans hnone

end Kind

/-! ### Which lexemes are strings -/

theorem Lexeme.number_ne_string (cs : List Char) : (number cs).verdict ≠ .ok .string := by
  intro h
  unfold number at h
  dsimp only at h
  split at h
  · exact nomatch h
  · dsimp only at h
    split at h <;> exact nomatch h

theorem Lexeme.word_ne_string (c : Char) (cs : List Char) :
    (word c cs).verdict ≠ .ok .string := by
  intro h
  have hne : ∀ word, Kind.ofWord word ≠ .string := Kind.ofWord_ne nofun rfl
  unfold word ended at h
  dsimp only at h
  split at h
  · exact hne _ (Except.ok.inj h)
  · dsimp only at h
    split at h
    · exact hne _ (Except.ok.inj h)
    · exact nomatch h

/-- Only a quote begins a string. -/
theorem Lexeme.exists_interior_read {c : Char} {cs : List Char}
    (h : (read c cs).verdict = .ok .string) :
    ∃ interior, (read c cs).text = '"' :: interior ++ ['"'] ∧ Interior interior := by
  have hreads := reads c cs
  generalize read c cs = lexeme at h hreads ⊢
  cases hreads with
  | forbidden | symbol | unexpected => cases h
  | string =>
    obtain ⟨interior, htext, hinterior⟩ := exists_interior_quoted h
    exact ⟨interior, congrArg (['"'] ++ ·) htext, hinterior⟩
  | number => exact absurd h (number_ne_string _)
  | word => exact absurd h (word_ne_string c cs)

/-- **Strings are interiors in quotes**, wherever the lexer stands. -/
theorem Lexer.exists_interior {lexer : Lexer} (h : lexer.next.1.kind = .string) :
    ∃ interior, lexer.next.1.text.toList = '"' :: interior ++ ['"'] ∧ Interior interior := by
  have hstep := lexer.step_next
  generalize lexer.next.1 = token at h hstep ⊢
  generalize lexer.next.2 = after at hstep
  cases hstep with
  | stopped | finished | refused => exact nomatch h
  | @read gap cs c kind _ _ hverdict =>
    obtain rfl : kind = .string := h
    obtain ⟨interior, htext, hinterior⟩ := Lexeme.exists_interior_read hverdict
    exact ⟨interior, by rw [String.toList_ofList, htext], hinterior⟩

end FormCalc
