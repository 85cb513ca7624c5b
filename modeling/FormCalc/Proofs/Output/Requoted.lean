import FormCalc.Proofs.Output.Literal
import FormCalc.Proofs.Token.Place

/-!
# Strings, round by round

A string of a script doubles its quotes, and the literal that is written for it escapes them.
The lexer looks one character ahead to tell a doubled quote from the closing one, and `escaped`
looks one character ahead again and drops what it finds there, whatever it is.  The two stay in
step: what is dropped is always the second quote of a pair.

* `rounds`: the rounds in which `escaped` goes through characters, each with what it takes.
* `Round.Regular`: a round that reads a doubled quote or an ordinary character.
* `Lexer.quotedText_rounds`: a string token is all regular rounds, so its literal drops nothing
  but carriage returns.
-/

namespace FormCalc

open Text

/-- One round of `escaped`.  A quote takes the next character along, if there is one. -/
inductive Round
  | quote (next : Option Char)
  | char (c : Char)
  deriving DecidableEq

namespace Round

/-- The characters that a round goes through. -/
def taken : Round → List Char
  | quote next => '"' :: next.toList
  | char c => [c]

/-- What a round writes. -/
def written : Round → List Char
  | quote _ => ['\\', '"']
  | char c => if c = '\r' then [] else if c = '\n' then ['\\', 'n'] else [c]

/-- Whether a round reads what may stand in a string: a quote takes another one along, and any
other character is one that scripts allow. -/
def Regular : Round → Prop
  | quote next => next = some '"'
  | char c => c ≠ '"' ∧ isAllowed c = true

end Round

/-- The rounds in which `escaped` goes through characters. -/
def rounds : List Char → List Round
  | [] => []
  | ['"'] => [.quote none]
  | '"' :: c :: cs => .quote (some c) :: rounds cs
  | c :: cs => .char c :: rounds cs

theorem rounds_char {c : Char} (hquote : c ≠ '"') (cs : List Char) :
    rounds (c :: cs) = .char c :: rounds cs := by
  rw [rounds]
  · exact fun heq => absurd heq hquote
  · exact fun _ _ heq => absurd heq hquote

/-- No character is left out, and none is gone through twice. -/
theorem taken_rounds (cs : List Char) : (rounds cs).flatMap Round.taken = cs := by
  fun_induction rounds cs with
  | case1 => rfl
  | case2 => rfl
  | case3 c cs ih => rw [List.flatMap_cons, ih]; rfl
  | case4 c cs _ _ ih => rw [List.flatMap_cons, ih]; rfl

/-- The rounds are those of `escaped`, whatever the characters. -/
theorem written_rounds (cs : List Char) : (rounds cs).flatMap Round.written = escaped cs := by
  fun_induction escaped cs with
  | case1 => rfl
  | case2 => rfl
  | case3 c cs ih => rw [rounds, List.flatMap_cons, ih]; rfl
  | case4 cs ih => rw [rounds_char (by decide), List.flatMap_cons, ih]; rfl
  | case5 cs ih => rw [rounds_char (by decide), List.flatMap_cons, ih]; rfl
  | case6 c cs halone hpair hreturn hnewline ih =>
    -- A quote would have been one of the cases before.
    have hquote : c ≠ '"' := by
      rintro rfl
      cases cs with
      | nil => exact halone rfl rfl
      | cons c cs => exact hpair c cs rfl rfl
    rw [rounds_char hquote, List.flatMap_cons, ih, Round.written, if_neg hreturn, if_neg hnewline]
    rfl

/-- Inside a string all rounds are regular: those of the lexer and these end together. -/
theorem Interior.regular_rounds {cs : List Char} (h : Interior cs) :
    ∀ round ∈ rounds cs, round.Regular := by
  induction h with
  | nil => exact fun _ hmem => nomatch hmem
  | pair rest ih => exact List.forall_mem_cons.mpr ⟨rfl, ih⟩
  | char hquote hallowed rest ih =>
    rw [rounds_char hquote]
    exact List.forall_mem_cons.mpr ⟨⟨hquote, hallowed⟩, ih⟩

/-- The bytes between the quotes are whole characters. -/
theorem shows_interior {raw : String} {interior : List Char}
    (h : raw.toList = '"' :: interior ++ ['"']) :
    2 ≤ raw.utf8ByteSize ∧
      Span.Shows raw ⟨1, raw.utf8ByteSize - 1⟩ (String.ofList interior) := by
  have hquote : utf8Length ['"'] = 1 := rfl
  have hsize : raw.utf8ByteSize = 1 + (utf8Length interior + 1) := by
    rw [← utf8Length_toList, h, ← List.singleton_append, List.append_assoc, utf8Length_append,
      utf8Length_append, hquote]
  refine ⟨by omega, ['"'], ['"'], ?_, rfl, ?_⟩
  · rw [String.toList_ofList, h]
    rfl
  · rw [String.toList_ofList, hsize]
    dsimp only
    omega

/-- **Literals drop nothing but carriage returns.**  A string token is an interior in quotes
whose bytes are whole characters.  The rounds that write its literal go through the interior from
left to right; each quote in it takes one more quote along, and what is written is `\"` for such
a pair, nothing for a carriage return, `\n` for a line feed and any other character itself. -/
theorem Lexer.quotedText_rounds {lexer : Lexer} (h : lexer.next.1.kind = .string) :
    ∃ interior : List Char,
      lexer.next.1.text.toList = '"' :: interior ++ ['"'] ∧
      2 ≤ lexer.next.1.text.utf8ByteSize ∧
      Interior interior ∧
      Span.Shows lexer.next.1.text ⟨1, lexer.next.1.text.utf8ByteSize - 1⟩
        (String.ofList interior) ∧
      (rounds interior).flatMap Round.taken = interior ∧
      (∀ round ∈ rounds interior, round.Regular) ∧
      (quotedText lexer.next.1.text).toList =
        '"' :: (rounds interior).flatMap Round.written ++ ['"'] := by
  obtain ⟨interior, htext, hinterior⟩ := Lexer.exists_interior h
  obtain ⟨hsize, hshows⟩ := shows_interior htext
  refine ⟨interior, htext, hsize, hinterior, hshows, taken_rounds interior,
    hinterior.regular_rounds, ?_⟩
  rw [toList_quotedText htext hinterior, written_rounds, hinterior.escaped_eq, List.cons_append]

/-- Three pairs of quotes around a broken line, and the string with nothing in it. -/
theorem Lexer.quotedText_rounds_pairs :
    (Lexer.ofText "\"\"\"\r\n\"\"\"\"é\" x").next.1.text = "\"\"\"\r\n\"\"\"\"é\"" ∧
    rounds ['"', '"', '\r', '\n', '"', '"', '"', '"', 'é'] =
      [.quote (some '"'), .char '\r', .char '\n', .quote (some '"'), .quote (some '"'),
        .char 'é'] ∧
    quotedText "\"\"\"\r\n\"\"\"\"é\"" = "\"\\\"\\n\\\"\\\"é\"" ∧
    (∃ interior, "\"\"\"\r\n\"\"\"\"é\"".toList = '"' :: interior ++ ['"'] ∧
      ∀ round ∈ rounds interior, round.Regular) ∧
    quotedText "\"\"" = "\"\"" ∧
    (∃ interior, "\"\"".toList = '"' :: interior ++ ['"'] ∧
      (quotedText "\"\"").toList = '"' :: (rounds interior).flatMap Round.written ++ ['"']) := by
  have hbroken : (Lexer.ofText "\"\"\"\r\n\"\"\"\"é\" x").next.1.kind = .string := rfl
  have hempty : (Lexer.ofText "\"\"").next.1.kind = .string := rfl
  refine ⟨rfl, rfl, by decide +kernel, ?_, by decide +kernel, ?_⟩
  · obtain ⟨interior, htext, -, -, -, -, hregular, -⟩ := Lexer.quotedText_rounds hbroken
    exact ⟨interior, htext, hregular⟩
  · obtain ⟨interior, htext, -, -, -, -, -, hwritten⟩ := Lexer.quotedText_rounds hempty
    exact ⟨interior, htext, hwritten⟩

end FormCalc
