import FormCalc.Proofs.Token.Alone

/-!
# The characters of lexemes

Which characters stand in a number and in a name.
-/

namespace FormCalc

open Text

/-! ### Numbers -/

/-- Whether a character may stand in a number. -/
def isNumberChar (c : Char) : Bool := c.isDigit || ['.', 'e', 'E', '+', '-'].contains c

theorem isNumberChar_of_isDigit {c : Char} (h : c.isDigit = true) : isNumberChar c = true := by
  rw [isNumberChar, h, Bool.true_or]

theorem isNumberChar_of_mem_takeWhile {cs : List Char} :
    ∀ c ∈ cs.takeWhile Char.isDigit, isNumberChar c = true :=
  fun c hc => isNumberChar_of_isDigit (of_mem_takeWhile cs c hc)

theorem isNumberChar_of_mem_fraction {cs : List Char} :
    ∀ c ∈ (fraction cs).1, isNumberChar c = true := by
  unfold fraction
  split
  · exact List.forall_mem_cons.mpr ⟨rfl, isNumberChar_of_mem_takeWhile⟩
  · exact nofun

theorem isNumberChar_of_mem_exponentSign {cs : List Char} :
    ∀ c ∈ (exponentSign cs).1, isNumberChar c = true := by
  unfold exponentSign
  split
  · exact nofun
  · split
    · rename_i c cs hsign
      intro d hd
      obtain rfl := List.mem_singleton.mp hd
      rcases Bool.or_eq_true_iff.mp hsign with hplus | hminus
      · rw [beq_iff_eq.mp hplus]
        rfl
      · rw [beq_iff_eq.mp hminus]
        rfl
    · exact nofun

theorem isNumberChar_of_mem_exponent {cs : List Char} :
    ∀ c ∈ (exponent cs).1, isNumberChar c = true := by
  unfold exponent
  split
  · exact nofun
  · split
    · rename_i c cs hmark
      dsimp only
      split
      · exact nofun
      · have hc : isNumberChar c = true := by
          rcases Bool.or_eq_true_iff.mp hmark with hlower | hupper
          · rw [beq_iff_eq.mp hlower]
            rfl
          · rw [beq_iff_eq.mp hupper]
            rfl
        exact List.forall_mem_append.mpr
          ⟨List.forall_mem_cons.mpr ⟨hc, isNumberChar_of_mem_exponentSign⟩,
            isNumberChar_of_mem_takeWhile⟩
    · exact nofun

theorem isNumberChar_of_mem_numberText {cs : List Char} :
    ∀ c ∈ (numberText cs).1, isNumberChar c = true :=
  List.forall_mem_append.mpr ⟨List.forall_mem_append.mpr
    ⟨isNumberChar_of_mem_takeWhile, isNumberChar_of_mem_fraction⟩, isNumberChar_of_mem_exponent⟩

/-! ### Lexemes -/

/-- Numbers hold the characters of numbers. -/
theorem IsLexeme.isNumberChar {text : String} (h : IsLexeme .number text) :
    ∀ c ∈ text.toList, isNumberChar c = true := by
  obtain ⟨c, cs, htext, hread⟩ := h
  have hverdict : (Lexeme.read c cs).verdict = .ok .number := by rw [hread]
  have hlexeme : (Lexeme.read c cs).text = c :: cs := by rw [hread]
  rw [htext, ← hlexeme]
  have hreads := Lexeme.reads c cs
  clear hread hlexeme
  generalize Lexeme.read c cs = lexeme at hverdict hreads ⊢
  cases hreads with
  | forbidden | symbol | unexpected => cases hverdict
  | string => cases Lexeme.quoted_kind hverdict
  | number =>
    rw [Lexeme.text_number]
    exact isNumberChar_of_mem_numberText
  | word =>
    have hne : ∀ word, Kind.ofWord word ≠ .number := Kind.ofWord_ne nofun rfl
    exact absurd (Lexeme.ended_verdict hverdict).symm (hne _)

/-- Names hold the characters of identifiers. -/
theorem IsLexeme.isIdentifierChar {name : String} (h : IsName name) :
    ∀ c ∈ name.toList, isIdentifierStart c = true ∨ isIdentifierPart c = true := by
  obtain ⟨c, cs, htext, hread⟩ := h
  have hverdict : (Lexeme.read c cs).verdict = .ok .identifier := by rw [hread]
  have hlexeme : (Lexeme.read c cs).text = c :: cs := by rw [hread]
  rw [htext, ← hlexeme]
  have hreads := Lexeme.reads c cs
  clear hread hlexeme
  generalize Lexeme.read c cs = lexeme at hverdict hreads ⊢
  cases hreads with
  | forbidden | symbol | unexpected => cases hverdict
  | string => cases Lexeme.quoted_kind hverdict
  | number => cases Lexeme.number_kind hverdict
  | word _ _ _ _ hstart =>
    rw [Lexeme.word, Lexeme.ended_text]
    refine List.forall_mem_cons.mpr ⟨.inl hstart, fun d hd => .inr ?_⟩
    exact (Bool.and_eq_true_iff.mp (of_mem_takeWhile cs d hd)).2

end FormCalc
