import FormCalc.Proofs.Token.Alone

/-!
# How lexemes are spelled

What a lexeme is, without a reader: a symbol, a word, a number or a string in quotes.  Different
lexemes may begin in the same way, and a reader takes the longest one.

* `Spells`: a text is a lexeme of a kind.  It is of one kind only (`Spells.unique`).
* `IsNumber`: a text is a number.
* `Kind.ofLexeme`: the kind of a lexeme, by the way it begins.
* `LongestPrefix`: the longest text of some sort at the front of others.
* `exists_symbolAt`, `numberText_longest`, `quoted_longest`, `word_longest`: each reader takes the
  longest text of its own sort.
* `Lexeme.longest_of_read`: no lexeme at the front, of whatever sort, is longer than the one that
  is read.
-/

namespace FormCalc

open Text

/-! ### Numbers -/

/-- Whether characters are a point with digits behind it, or nothing. -/
def IsFraction (cs : List Char) : Prop :=
  cs = [] ∨ ∃ digits, cs = '.' :: digits ∧ ∀ d ∈ digits, d.isDigit = true

/-- Whether characters are a mark, perhaps a sign, and at least one digit, or nothing. -/
def IsExponent (cs : List Char) : Prop :=
  cs = [] ∨ ∃ mark sign digits, (mark = 'e' ∨ mark = 'E') ∧ sign ∈ [[], ['+'], ['-']] ∧
    digits ≠ [] ∧ (∀ d ∈ digits, d.isDigit = true) ∧ cs = mark :: (sign ++ digits)

/-- Whether a text is a number: digits, a fraction and an exponent, of which each may be missing,
with a digit at its start or right behind its leading point. -/
structure IsNumber (cs : List Char) : Prop where
  parts : ∃ digits point power, (∀ d ∈ digits, d.isDigit = true) ∧ IsFraction point ∧
    IsExponent power ∧ cs = digits ++ (point ++ power)
  starts : startsNumber cs = true

/-! ### Strings -/

/-- Whether characters can stand between quotes, where quotes come in pairs. -/
inductive Paired : List Char → Prop
  | nil : Paired []
  | pair {cs : List Char} (rest : Paired cs) : Paired ('"' :: '"' :: cs)
  | char {c : Char} {cs : List Char} (hquote : c ≠ '"') (rest : Paired cs) : Paired (c :: cs)

theorem Interior.paired {cs : List Char} (h : Interior cs) : Paired cs := by
  induction h with
  | nil => exact .nil
  | pair _ ih => exact .pair ih
  | char hquote _ _ ih => exact .char hquote ih

/-! ### Lexemes -/

/-- Whether a text is a lexeme of a kind.  A word that has a kind of its own is no identifier. -/
inductive Spells : Kind → List Char → Prop
  | symbol (s : Symbol) : Spells (.symbol s) s.text.toList
  | word {kind : Kind} {word : String} (h : kind.word? = some word) : Spells kind word.toList
  | identifier {c : Char} {cs : List Char} (hstart : isIdentifierStart c = true)
      (hparts : ∀ d ∈ cs, isIdentifierPart d = true)
      (hname : ∀ kind : Kind, kind.word? ≠ some (String.ofList (c :: cs))) :
      Spells .identifier (c :: cs)
  | number {cs : List Char} (h : IsNumber cs) : Spells .number cs
  | string {interior : List Char} (h : Paired interior) :
      Spells .string ('"' :: (interior ++ ['"']))

/-- Whether a text is the longest of some sort at the front of others. -/
structure LongestPrefix (sort : List Char → Prop) (cs text : List Char) : Prop where
  is : sort text
  starts : text <+: cs
  longest : ∀ other, sort other → other <+: cs → other.length ≤ text.length

/-- There is only one. -/
theorem LongestPrefix.eq {sort : List Char → Prop} {cs text text' : List Char}
    (h : LongestPrefix sort cs text) (h' : LongestPrefix sort cs text') : text = text' := by
  have hle := h'.longest text h.is h.starts
  have hle' := h.longest text' h'.is h'.starts
  exact (List.prefix_of_prefix_length_le h.starts h'.starts hle).eq_of_length_le hle'

/-! ### How lexemes start -/

theorem startsNumber_append {cs : List Char} (h : startsNumber cs = true) (back : List Char) :
    startsNumber (cs ++ back) = true := by
  cases cs with
  | nil => cases h
  | cons c cs =>
    by_cases hc : c = '.'
    · subst hc
      cases cs with
      | nil => cases h
      | cons d more => exact h
    · rw [Lexeme.startsNumber_of_ne hc] at h
      rw [List.cons_append, Lexeme.startsNumber_of_ne hc, h]

/-- Where there is a number at the front, one starts there. -/
theorem IsNumber.startsNumber {text cs : List Char} (h : IsNumber text) (hbegins : text <+: cs) :
    startsNumber cs = true := by
  obtain ⟨back, rfl⟩ := hbegins
  exact startsNumber_append h.starts back

theorem isIdentifierStart_of_isDigit {c : Char} (h : c.isDigit = true) :
    isIdentifierStart c = false := by
  have hle : c.toNat ≤ 57 :=
    UInt32.le_iff_toNat_le.mp (of_decide_eq_true (Bool.and_eq_true_iff.mp h).2)
  have halphabetic : isAlphabetic c = false := if_pos (show c.toNat < 0x41 by omega)
  have hsigns : ['_', '$', '!'].contains c = false := by
    cases hsign : ['_', '$', '!'].contains c with
    | false => rfl
    | true =>
      have hdigit : ['_', '$', '!'].all (!·.isDigit) = true := rfl
      have hnot := List.all_eq_true.mp hdigit c (List.contains_iff_mem.mp hsign)
      rw [h] at hnot
      cases hnot
  simpa [isIdentifierStart, halphabetic, and_assoc] using hsigns

/-- No word begins like a number. -/
theorem startsNumber_of_isIdentifierStart {c : Char} (h : isIdentifierStart c = true)
    (cs : List Char) : FormCalc.startsNumber (c :: cs) = false := by
  have hpoint : c ≠ '.' := by
    rintro rfl
    revert h
    decide
  rw [Lexeme.startsNumber_of_ne hpoint]
  cases hdigit : c.isDigit with
  | false => rfl
  | true =>
    rw [isIdentifierStart_of_isDigit hdigit] at h
    cases h

/-- Where one of these four characters stands, there is a symbol. -/
theorem ne_of_symbolAt {cs : List Char} (h : symbolAt cs = none) (back : List Char) :
    cs ≠ '.' :: back ∧ cs ≠ '=' :: back ∧ cs ≠ '<' :: back ∧ cs ≠ '>' :: back := by
  unfold symbolAt at h
  split at h
  case h_23 =>
    exact ⟨(show ∀ tail, cs = '.' :: tail → False by assumption) back,
      (show ∀ tail, cs = '=' :: tail → False by assumption) back,
      (show ∀ tail, cs = '<' :: tail → False by assumption) back,
      (show ∀ tail, cs = '>' :: tail → False by assumption) back⟩
  all_goals cases h

/-- Where a symbol is at the front, the reader finds one that is no shorter. -/
theorem exists_symbolAt (s : Symbol) (back : List Char) :
    ∃ found, symbolAt (s.text.toList ++ back) = some found ∧
      s.text.toList.length ≤ found.text.toList.length := by
  have hpos : ∀ found : Symbol, 1 ≤ found.text.toList.length := fun found => by
    cases found <;> decide
  -- a symbol of one character may be the beginning of a longer one
  have hany : ∀ cs : List Char, symbolAt cs ≠ none → ∃ found, symbolAt cs = some found ∧
      1 ≤ found.text.toList.length := fun cs hsome => by
    obtain ⟨found, hfound⟩ := Option.ne_none_iff_exists'.mp hsome
    exact ⟨found, hfound, hpos found⟩
  cases s with
  | dot => exact hany _ fun hnone => (ne_of_symbolAt hnone back).1 rfl
  | assign => exact hany _ fun hnone => (ne_of_symbolAt hnone back).2.1 rfl
  | less => exact hany _ fun hnone => (ne_of_symbolAt hnone back).2.2.1 rfl
  | greater => exact hany _ fun hnone => (ne_of_symbolAt hnone back).2.2.2 rfl
  | leftParen | rightParen | leftBracket | rightBracket | comma | dotDot | dotHash | dotStar | equal
  | unequal | lessEqual | greaterEqual | plus | minus | star | slash | ampersand | bar =>
    exact ⟨_, rfl, Nat.le_refl _⟩

/-- Where a number starts, no symbol is longer than its point. -/
theorem length_symbol_of_startsNumber {s : Symbol} {back : List Char}
    (h : startsNumber (s.text.toList ++ back) = true) : s.text.toList.length = 1 := by
  cases s <;> first | rfl | cases h

/-! ### Kinds -/

/-- The kind of a lexeme, by the way it begins. -/
def Kind.ofLexeme (text : List Char) : Kind :=
  if text.head? = some '"' then .string
  else if startsNumber text then .number
  else match symbolAt text with
    | some s => .symbol s
    | none => .ofWord (String.ofList text)

theorem Kind.ofLexeme_word {c : Char} {cs : List Char} (hstart : isIdentifierStart c = true) :
    ofLexeme (c :: cs) = .ofWord (String.ofList (c :: cs)) := by
  have hquote : (c :: cs).head? ≠ some '"' := by
    intro hc
    obtain rfl := Option.some.inj hc
    have hnot : isIdentifierStart '"' = false := by decide
    cases hnot.symm.trans hstart
  rw [ofLexeme, if_neg hquote, startsNumber_of_isIdentifierStart hstart,
    symbolAt_of_isIdentifierStart hstart]
  rfl

/-- A word that has a kind of its own is shaped like an identifier. -/
theorem Kind.shape_of_word? {kind : Kind} {word : String} (h : kind.word? = some word) :
    ∃ c cs, word.toList = c :: cs ∧ isIdentifierStart c = true ∧
      ∀ d ∈ cs, isIdentifierPart d = true := by
  have htable : ∀ entry ∈ words, (entry.1.toList.head?.any isIdentifierStart &&
      entry.1.toList.tail.all isIdentifierPart) = true := by decide
  have hshape := htable _ (mem_of_lookup (ofWord?_eq_some_iff.mpr h))
  obtain ⟨hhead, hparts⟩ := Bool.and_eq_true_iff.mp hshape
  dsimp only at hhead hparts
  cases htext : word.toList with
  | nil =>
    rw [htext] at hhead
    cases hhead
  | cons c cs =>
    rw [htext] at hhead hparts
    exact ⟨c, cs, rfl, hhead, List.all_eq_true.mp hparts⟩

theorem Spells.eq_ofLexeme {kind : Kind} {text : List Char} (h : Spells kind text) :
    kind = .ofLexeme text := by
  cases h with
  | symbol s => cases s <;> rfl
  | word h =>
    obtain ⟨c, cs, htext, hstart, -⟩ := Kind.shape_of_word? h
    rw [htext, Kind.ofLexeme_word hstart, ← htext, String.ofList_toList, Kind.ofWord_of_word? h]
  | identifier hstart _ hname => rw [Kind.ofLexeme_word hstart, Kind.ofWord_eq_identifier hname]
  | number h =>
    have hquote : text.head? ≠ some '"' := by
      intro hc
      obtain ⟨cs, rfl⟩ := List.head?_eq_some_iff.mp hc
      cases h.starts
    rw [Kind.ofLexeme, if_neg hquote, if_pos h.starts]
  | string => rfl

/-- A lexeme is of one kind. -/
theorem Spells.unique {kind kind' : Kind} {text : List Char} (h : Spells kind text)
    (h' : Spells kind' text) : kind' = kind := h'.eq_ofLexeme.trans h.eq_ofLexeme.symm

/-- A lexeme has the kind of a word in the table where it is such a word. -/
theorem Spells.mem_words {kind : Kind} {text : List Char} (h : Spells kind text) :
    kind ∈ Kind.words.map Prod.snd ↔ String.ofList text ∈ Kind.words.map Prod.fst := by
  constructor
  · intro hkind
    cases h with
    | symbol s =>
      have hsymbol : .symbol s ∉ Kind.words.map Prod.snd := by cases s <;> decide
      exact absurd hkind hsymbol
    | word h =>
      rw [String.ofList_toList]
      exact List.mem_map_of_mem (mem_of_lookup (Kind.ofWord?_eq_some_iff.mpr h))
    | identifier => exact absurd hkind (by decide)
    | number => exact absurd hkind (by decide)
    | string => exact absurd hkind (by decide)
  · intro hword
    have hall : ∀ word ∈ Kind.words.map Prod.fst,
        Kind.ofLexeme word.toList ∈ Kind.words.map Prod.snd := by decide
    have hkind := hall _ hword
    rwa [String.toList_ofList, ← h.eq_ofLexeme] at hkind

/-! ### Every reader takes the longest text of its sort -/

theorem isFraction_fraction (cs : List Char) : IsFraction (fraction cs).1 := by
  rcases fraction_cases cs with hempty | ⟨rest, htaken⟩
  · exact .inl hempty
  · exact .inr ⟨_, htaken, of_mem_takeWhile rest⟩

theorem exponentSign_mem (cs : List Char) : (exponentSign cs).1 ∈ [[], ['+'], ['-']] := by
  unfold exponentSign
  split
  · exact List.mem_cons_self
  · split
    · rename_i c cs hsign
      rcases Bool.or_eq_true_iff.mp hsign with hplus | hminus
      · rw [beq_iff_eq.mp hplus]
        simp
      · rw [beq_iff_eq.mp hminus]
        simp
    · exact List.mem_cons_self

theorem isExponent_exponent (cs : List Char) : IsExponent (exponent cs).1 := by
  rcases exponent_cases cs with hempty | ⟨mark, rest, d, ds, hmark, htaken, hdigits⟩
  · exact .inl hempty
  · exact .inr ⟨mark, _, d :: ds, hmark, exponentSign_mem rest, List.cons_ne_nil d ds, hdigits,
      htaken⟩

theorem isNumber_numberText {cs : List Char} (h : startsNumber cs = true) :
    IsNumber (numberText cs).1 := by
  refine ⟨⟨_, _, _, of_mem_takeWhile cs, isFraction_fraction _, isExponent_exponent _,
    List.append_assoc ..⟩, ?_⟩
  cases cs with
  | nil => cases h
  | cons c cs =>
    obtain ⟨taken, htaken, hstarts⟩ := Lexeme.startsNumber_text h
    rw [htaken]
    exact hstarts

/-- Characters of a class at the front are among those that are taken while they are of it. -/
theorem length_le_takeWhile {p : Char → Bool} {taken cs : List Char}
    (h : ∀ d ∈ taken, p d = true) (hbegins : taken <+: cs) :
    taken.length ≤ (cs.takeWhile p).length := by
  obtain ⟨back, rfl⟩ := hbegins
  rw [List.takeWhile_append_of_pos h, List.length_append]
  exact Nat.le_add_right ..

/-- An exponent begins with its mark, at which the digits in front of it end. -/
theorem IsExponent.stops {power : List Char} (h : IsExponent power) (hsome : power ≠ [])
    (back : List Char) :
    Stops Char.isDigit (power ++ back) ∧ '.' ∉ (power ++ back).head? := by
  rcases h with rfl | ⟨mark, sign, digits, hmark, -, -, -, rfl⟩
  · exact absurd rfl hsome
  · constructor
    · intro d hd
      obtain rfl := Option.some.inj hd
      rcases hmark with rfl | rfl <;> rfl
    · intro hpoint
      rcases hmark with rfl | rfl <;> cases hpoint

theorem exponent_longest {power : List Char} (h : IsExponent power) (back : List Char) :
    power.length ≤ (exponent (power ++ back)).1.length := by
  rcases h with rfl | ⟨mark, sign, digits, hmark, hsign, hsome, hdigits, rfl⟩
  · exact Nat.zero_le _
  · obtain ⟨d, ds, rfl⟩ := List.exists_cons_of_ne_nil hsome
    have hstops := stops_sign (hdigits d List.mem_cons_self) (ds ++ back)
    have hsigned : exponentSign (sign ++ (d :: ds ++ back)) = (sign, d :: ds ++ back) := by
      simp only [List.mem_cons, List.not_mem_nil, or_false] at hsign
      rcases hsign with rfl | rfl | rfl
      · exact exponentSign_taken hstops []
      · exact exponentSign_taken hstops ['+']
      · exact exponentSign_taken hstops ['-']
    have htaken := length_le_takeWhile hdigits (List.prefix_append _ back)
    rw [List.cons_append, List.append_assoc, exponent, if_pos (by simpa using hmark), hsigned]
    dsimp only
    split
    · rename_i hnone
      rw [hnone] at htaken
      cases htaken
    · simp only [List.length_cons, List.length_append] at htaken ⊢
      omega

theorem fraction_longest {point power : List Char} (hpoint : IsFraction point)
    (hpower : IsExponent power) (back : List Char) :
    (point ++ power).length ≤ ((fraction (point ++ (power ++ back))).1 ++
      (exponent (fraction (point ++ (power ++ back))).2).1).length := by
  have hlongest := exponent_longest hpower back
  rcases hpoint with rfl | ⟨digits, rfl, hdigits⟩
  · by_cases hsome : power = []
    · rw [hsome]
      exact Nat.zero_le _
    · obtain ⟨hdigit, hdot⟩ := hpower.stops hsome back
      have hempty : fraction (power ++ back) = ([], power ++ back) := fraction_taken hdigit hdot []
      rw [List.nil_append, List.nil_append, hempty]
      exact hlongest
  · rw [List.cons_append, List.cons_append, fraction]
    by_cases hsome : power = []
    · have htaken := length_le_takeWhile hdigits (List.prefix_append _ (power ++ back))
      have hnone : power.length = 0 := List.length_eq_zero_iff.mpr hsome
      simp only [List.length_append, List.length_cons]
      omega
    · have hdigit := (hpower.stops hsome back).1
      rw [takeWhile_exact hdigits hdigit, dropWhile_exact hdigits hdigit]
      simp only [List.length_append, List.length_cons]
      omega

/-- No number at the front is longer than the one that is read. -/
theorem numberText_longest {number cs : List Char} (h : IsNumber number) (hbegins : number <+: cs) :
    number.length ≤ (numberText cs).1.length := by
  obtain ⟨back, rfl⟩ := hbegins
  obtain ⟨digits, point, power, hdigits, hpoint, hpower, rfl⟩ := h.parts
  have hlongest := fraction_longest hpoint hpower back
  rw [List.append_assoc, List.append_assoc, numberText]
  by_cases hnone : point ++ power = []
  · have htaken := length_le_takeWhile hdigits (List.prefix_append _ (point ++ (power ++ back)))
    rw [hnone, List.append_nil]
    simp only [List.length_append]
    omega
  · -- the digits in front end where the point or the mark of the exponent stands
    have hstops : Stops Char.isDigit (point ++ (power ++ back)) := by
      rcases hpoint with rfl | ⟨_, rfl, -⟩
      · exact (hpower.stops hnone back).1
      · intro d hd
        obtain rfl := Option.some.inj hd
        rfl
    rw [takeWhile_exact hdigits hstops, dropWhile_exact hdigits hstops]
    simp only [List.length_append] at hlongest ⊢
    omega

/-- No string at the front is longer than the one that is read. -/
theorem quoted_longest {cs interior : List Char} {kind : Kind}
    (h : (Lexeme.quoted cs).verdict = .ok kind) (hinterior : Paired interior)
    (hbegins : interior ++ ['"'] <+: cs) :
    interior.length + 1 ≤ (Lexeme.quoted cs).text.length := by
  fun_induction Lexeme.quoted cs generalizing interior with
  | case1 => cases h
  | case2 cs ih =>
    cases hinterior with
    | nil => exact Nat.le_add_left ..
    | pair rest =>
      obtain ⟨-, hbegins⟩ := List.cons_prefix_cons.mp hbegins
      obtain ⟨-, hbegins⟩ := List.cons_prefix_cons.mp hbegins
      exact Nat.add_le_add_right (ih h rest hbegins) 2
    | char hquote => exact absurd (List.cons_prefix_cons.mp hbegins).1 hquote
  | case3 cs hcs =>
    rw [Lexeme.ended_text]
    cases hinterior with
    | nil => exact Nat.le_refl 1
    | pair =>
      obtain ⟨-, hbegins⟩ := List.cons_prefix_cons.mp hbegins
      obtain ⟨back, rfl⟩ := hbegins
      exact absurd rfl (hcs _)
    | char hquote => exact absurd (List.cons_prefix_cons.mp hbegins).1 hquote
  | case4 c cs _ hclose _ ih =>
    cases hinterior with
    | nil => exact absurd (List.cons_prefix_cons.mp hbegins).1.symm hclose
    | pair => exact absurd (List.cons_prefix_cons.mp hbegins).1.symm hclose
    | char _ rest =>
      obtain ⟨-, hbegins⟩ := List.cons_prefix_cons.mp hbegins
      exact Nat.add_le_add_right (ih h rest hbegins) 1
  | case5 => cases h

theorem Lexeme.ended_allowed {kind kind' : Kind} {text rest : List Char}
    (h : (ended kind text rest).verdict = .ok kind') : ∀ d ∈ rest.head?, isAllowed d = true := by
  unfold ended at h
  split at h
  · exact nofun
  · intro d hd
    obtain rfl := Option.some.inj hd
    dsimp only at h
    split at h
    · assumption
    · cases h

/-- No word at the front is longer than the one that is read, which does not end at a character
that a script may not hold. -/
theorem word_longest {c : Char} {cs word : List Char} {kind : Kind}
    (h : (Lexeme.word c cs).verdict = .ok kind) (hparts : ∀ d ∈ word, isIdentifierPart d = true)
    (hbegins : word <+: cs) : word.length + 1 ≤ (Lexeme.word c cs).text.length := by
  rw [Lexeme.word, Lexeme.ended_text, List.length_cons]
  have hallowed := Lexeme.ended_allowed h
  generalize hpart : (fun d => isAllowed d && isIdentifierPart d) = part at hallowed ⊢
  have hstops : Stops isIdentifierPart (cs.dropWhile part) := by
    intro d hd
    have hnot := List.head?_dropWhile_not part cs
    rw [hd] at hnot
    have hboth : (isAllowed d && isIdentifierPart d) = false := by rw [← hnot, ← hpart]
    rwa [hallowed d hd, Bool.true_and] at hboth
  have htaken : ∀ d ∈ cs.takeWhile part, isIdentifierPart d = true := by
    intro d hd
    have hboth := of_mem_takeWhile cs d hd
    rw [← hpart] at hboth
    exact (Bool.and_eq_true_iff.mp hboth).2
  have hexact := takeWhile_exact htaken hstops
  rw [List.takeWhile_append_dropWhile] at hexact
  have hlength := length_le_takeWhile hparts hbegins
  rw [hexact] at hlength
  exact Nat.add_le_add_right hlength 1

/-! ### The lexeme at the front -/

/-- Whether a text is a lexeme of any kind. -/
def IsSpelled (cs : List Char) : Prop := ∃ kind, Spells kind cs

/-- What stands at the front where a lexeme does. -/
theorem Spells.front {kind : Kind} {text cs : List Char} {c : Char} (h : Spells kind text)
    (hbegins : text <+: c :: cs) :
    (c = '"' ∧ ∃ interior, Paired interior ∧ text = '"' :: (interior ++ ['"'])) ∨
    (startsNumber (c :: cs) = true ∧ IsNumber text) ∨
    (∃ s, symbolAt (c :: cs) = some s ∧ text.length ≤ s.text.toList.length) ∨
    (isIdentifierStart c = true ∧ ∃ parts, (∀ d ∈ parts, isIdentifierPart d = true) ∧
      text = c :: parts) := by
  cases h with
  | symbol s =>
    obtain ⟨back, hback⟩ := hbegins
    rw [← hback]
    exact .inr (.inr (.inl (exists_symbolAt s back)))
  | word h =>
    obtain ⟨d, parts, htext, hstart, hparts⟩ := Kind.shape_of_word? h
    rw [htext] at hbegins ⊢
    obtain ⟨rfl, -⟩ := List.cons_prefix_cons.mp hbegins
    exact .inr (.inr (.inr ⟨hstart, parts, hparts, rfl⟩))
  | identifier hstart hparts =>
    obtain ⟨rfl, -⟩ := List.cons_prefix_cons.mp hbegins
    exact .inr (.inr (.inr ⟨hstart, _, hparts, rfl⟩))
  | number h => exact .inr (.inl ⟨h.startsNumber hbegins, h⟩)
  | string h =>
    obtain ⟨rfl, -⟩ := List.cons_prefix_cons.mp hbegins
    exact .inl ⟨rfl, _, h, rfl⟩

/-- What is shaped like an identifier is a lexeme, of the kind that a reader gives to it. -/
theorem spells_ofWord {c : Char} {cs : List Char} (hstart : isIdentifierStart c = true)
    (hparts : ∀ d ∈ cs, isIdentifierPart d = true) :
    Spells (.ofWord (String.ofList (c :: cs))) (c :: cs) := by
  by_cases hname : ∃ kind : Kind, kind.word? = some (String.ofList (c :: cs))
  · obtain ⟨kind, hkind⟩ := hname
    have hspells := Spells.word hkind
    rwa [String.toList_ofList, ← Kind.ofWord_of_word? hkind] at hspells
  · rw [not_exists] at hname
    rw [Kind.ofWord_eq_identifier hname]
    exact .identifier hstart hparts hname

namespace Lexeme

theorem spells_of_read {c : Char} {cs : List Char} {kind : Kind}
    (h : (read c cs).verdict = .ok kind) : Spells kind (read c cs).text := by
  have hreads := reads c cs
  generalize read c cs = lexeme at h hreads ⊢
  cases hreads with
  | forbidden | unexpected => cases h
  | string =>
    obtain rfl := quoted_kind h
    obtain ⟨interior, htext, hinterior⟩ := exists_interior_quoted h
    rw [after, htext]
    exact .string hinterior.paired
  | number _ _ hnumber =>
    obtain rfl := number_kind h
    rw [text_number]
    exact .number (isNumber_numberText hnumber)
  | @symbol s =>
    obtain rfl := Except.ok.inj h
    exact .symbol s
  | word _ _ _ _ hstart =>
    obtain rfl := ended_verdict h
    rw [word, ended_text]
    exact spells_ofWord hstart fun d hd => (Bool.and_eq_true_iff.mp (of_mem_takeWhile cs d hd)).2

/-- No lexeme at the front is longer than the one that is read.  Lexemes of different sorts that
begin in the same way are a number and its leading point. -/
theorem length_le_of_read {c : Char} {cs : List Char} {kind kind' : Kind} {other : List Char}
    (h : (read c cs).verdict = .ok kind) (hother : Spells kind' other)
    (hbegins : other <+: c :: cs) : other.length ≤ (read c cs).text.length := by
  have hfront := hother.front hbegins
  have hreads := reads c cs
  generalize read c cs = lexeme at h hreads ⊢
  cases hreads with
  | forbidden | unexpected => cases h
  | string _ hquote =>
    subst hquote
    rcases hfront with ⟨-, interior, hinterior, rfl⟩ | ⟨hstarts, -⟩ | ⟨s, hs, -⟩ | ⟨hstart, -⟩
    · obtain ⟨-, hbegins⟩ := List.cons_prefix_cons.mp hbegins
      have hlength := quoted_longest h hinterior hbegins
      simp only [after, List.length_append, List.length_cons, List.length_nil]
      omega
    · cases hstarts
    · cases hs
    · have hnot : isIdentifierStart '"' = false := by decide
      cases hnot.symm.trans hstart
  | number _ hquote hnumber =>
    rw [text_number]
    rcases hfront with ⟨heq, -⟩ | ⟨-, hother⟩ | ⟨s, hs, hlength⟩ | ⟨hstart, -⟩
    · exact absurd heq hquote
    · exact numberText_longest hother hbegins
    · obtain ⟨taken, htaken, -⟩ := startsNumber_text hnumber
      rw [← append_drop_of_symbolAt hs] at hnumber
      rw [length_symbol_of_startsNumber hnumber] at hlength
      rw [htaken]
      exact Nat.le_trans hlength (Nat.le_add_left ..)
    · rw [startsNumber_of_isIdentifierStart hstart] at hnumber
      cases hnumber
  | @symbol s _ hquote hnumber hs =>
    rcases hfront with ⟨heq, -⟩ | ⟨hstarts, -⟩ | ⟨found, hfound, hlength⟩ | ⟨hstart, -⟩
    · exact absurd heq hquote
    · cases hnumber.symm.trans hstarts
    · obtain rfl := Option.some.inj (hs.symm.trans hfound)
      exact hlength
    · cases hs.symm.trans (symbolAt_of_isIdentifierStart hstart cs)
  | word _ hquote hnumber hs hstart =>
    rcases hfront with ⟨heq, -⟩ | ⟨hstarts, -⟩ | ⟨found, hfound, -⟩ | ⟨-, parts, hparts, rfl⟩
    · exact absurd heq hquote
    · cases hnumber.symm.trans hstarts
    · cases hs.symm.trans hfound
    · exact word_longest h hparts (List.cons_prefix_cons.mp hbegins).2

/-- **A reader takes the longest lexeme at the front.** -/
theorem longest_of_read {c : Char} {cs : List Char} {kind : Kind}
    (h : (read c cs).verdict = .ok kind) : LongestPrefix IsSpelled (c :: cs) (read c cs).text where
  is := ⟨kind, spells_of_read h⟩
  starts := ⟨_, read_append c cs⟩
  longest := fun _ ⟨_, hother⟩ hbegins => length_le_of_read h hother hbegins

end Lexeme

end FormCalc
