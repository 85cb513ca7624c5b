import FormCalc.Compile
import FormCalc.Proofs.Grammar.Correctness
import FormCalc.Proofs.Grammar.Demand
import FormCalc.Proofs.Text.Lines
import FormCalc.Proofs.Token.Ahead

/-!
# Behind the word `eof`

The word `eof` ends the input wherever it stands, and a script in which something stands behind
it is refused.  What that is never matters: the lexer reads the word the same before every text
that ends the word, the parser asks for nothing behind it, and the one thing that is looked at
later is that the text goes on (`compile_behind_eof`).
-/

namespace FormCalc

open Text FormCalc.Parser

/-- Whether a text lexes without a fault up to a word `eof` that ends at this offset.  There may
be such words in front of it too. -/
def EofEndsAt (text : String) (offset : Nat) : Prop :=
  ∃ count tokens mark last, (Lexer.ofText text).calls count = (tokens ++ [mark], last) ∧
    last.fault = none ∧ mark.kind = .endOfInput ∧ mark.text = "eof" ∧ mark.span.stop = offset

/-! ### Lexing -/

/-- Before every text that ends the word, the same tokens are pulled, up to a mark in front of
that text. -/
theorem lexes_of_eofEndsAt {p x : String} (hx : x ≠ "")
    (heof : EofEndsAt (p ++ x) p.utf8ByteSize) :
    ∃ tokens mark, mark.span.stop ≤ p.utf8ByteSize ∧
      ∀ y : String, EndsWord y.toList → Lexes (p ++ y) tokens mark := by
  obtain ⟨count, tokens, mark, last, hcalls, hfault, hkind, -, hstop⟩ := heof
  have hstands : (Lexer.ofText (p ++ x)).Stands (p ++ x) := ⟨[], rfl, rfl⟩
  have hconserves := @Lexer.conserves_calls (p ++ x) (Lexer.ofText (p ++ x)) hstands count
  obtain ⟨taken, htaken, hcrossed, -⟩ := (Lexer.ofText (p ++ x)).crosses_calls count
  rw [hcalls] at hconserves htaken hcrossed
  obtain ⟨hinOrder, -, hpos, -, -⟩ := hconserves hfault
  have hend : last.pos = p.utf8ByteSize := by
    rw [hpos, ← hstop]
    simp
  -- the lexer stands at the end of the word, which is the end of `p`
  have hwhole : (Lexer.ofText (p ++ x)).rest = p.toList ++ x.toList := String.toList_append
  obtain rfl : taken = p.toList := by
    refine eq_of_utf8Length_eq (htaken.symm.trans hwhole) ?_
    rw [utf8Length_toList, ← hend, hcrossed]
    exact (Nat.zero_add _).symm
  have hrest : last.rest = x.toList := List.append_cancel_left (htaken.symm.trans hwhole)
  obtain ⟨front, -, hfront, hbefore⟩ :=
    Lexer.calls_before_mark hcalls hfault (by simpa [hrest] using hx) hkind
  obtain rfl : front = p.toList := List.append_cancel_right (hfront.symm.trans htaken)
  -- and so it comes to the same tokens before another text
  have hmarks : ∃ token ∈ tokens ++ [mark], token.kind = .endOfInput := ⟨mark, by simp, hkind⟩
  obtain ⟨shown, first, hshown, hmem, hfirst⟩ := Lexer.exists_upToMark hmarks
  refine ⟨shown, first, ?_, fun y hy => ⟨?_, hfirst⟩⟩
  · rw [← hend]
    exact (hinOrder.inside _ (List.mem_map_of_mem hmem)).2
  · have hagain := hbefore y.toList hy
    rw [← String.toList_append] at hagain
    have hpulls : (Lexer.ofText (p ++ y)).pulls = _ := Lexer.pulls_of_calls hagain rfl hmarks
    rw [hpulls, hshown, List.map_append]
    rfl

/-! ### Parsing -/

/-- A mark that is not the end of the text is refused, with a fault that the tokens up to there
decide. -/
theorem exists_fault_of_mark (maxDepth : Nat) (tokens : List Token) (mark : Token) :
    ∃ fault, ∀ text, Lexes text tokens mark → mark.span.stop < text.utf8ByteSize →
      Program.parse maxDepth text = .error fault := by
  obtain ⟨first, rest, hpulls⟩ : ∃ first rest,
      tokens.map Except.ok ++ [Except.ok mark] = Except.ok first :: rest := by
    cases tokens with
    | nil => exact ⟨mark, [], rfl⟩
    | cons token tokens => exact ⟨token, _, rfl⟩
  have hstart : ∀ {text}, Lexes text tokens mark →
      advance (Cursor.start (Lexer.ofText text).pulls) =
        .ok (⟨.endOfInput, "", .origin⟩, ⟨first, rest, .origin⟩) := by
    intro text h
    rw [h.pulls, hpulls]
    rfl
  cases hstmts : Grammar.statements maxDepth (maxDepth - 1) ⟨first, rest, .origin⟩ with
  | error fault =>
    refine ⟨fault, fun text h _ => ?_⟩
    rw [parse_eq (hstart h), hstmts]
  | ok result =>
    obtain ⟨stmts, k⟩ := result
    refine ⟨⟨.trailingInput k.current.kind, k.current.span⟩, fun text h hlonger => ?_⟩
    rw [parse_eq (hstart h), hstmts]
    refine if_neg ?_
    rintro ⟨hkind, hend⟩
    have htokens := h.tokens_of_start (hstart h)
    have hmark := h.at_mark (htokens ▸ (Grammar.forward maxDepth _).statements.suffix hstmts) hkind
    obtain ⟨hcurrent, -⟩ := List.cons.inj hmark
    rw [hcurrent] at hend
    omega

/-! ### Compiling -/

/-- **What is behind the word `eof` never matters.**  Where a text lexes without a fault up to
such a word and something comes behind it that ends the word, compiling fails, and with the same
fault for every text that could stand there.  The parser meets that fault whatever else the lexer
would have given behind the first end mark. -/
theorem compile_behind_eof {p x : String} (hx : EndsWord x.toList)
    (heof : EofEndsAt (p ++ x) p.utf8ByteSize) (options : Options) :
    ∃ fault : Fault GrammarCause, ∀ y : String, EndsWord y.toList →
      compile options (p ++ y) = .error (fault.map .grammar) ∧
      ∀ more, (Grammar.script options.maxParseDepth (p ++ y).utf8ByteSize
        (Cursor.start ((Lexer.ofText (p ++ y)).pulls ++ more))).map (·.1) = .error fault := by
  have hsome : x ≠ "" := by
    rintro rfl
    obtain ⟨c, cs, hnil, -⟩ := hx
    cases hnil
  obtain ⟨tokens, mark, hstop, hlexes⟩ := lexes_of_eofEndsAt hsome heof
  obtain ⟨fault, hfault⟩ := exists_fault_of_mark options.maxParseDepth tokens mark
  refine ⟨fault, fun y hy => ?_⟩
  have hlonger : mark.span.stop < (p ++ y).utf8ByteSize := by
    obtain ⟨c, cs, hcs, -⟩ := hy
    have hsize := c.utf8Size_pos
    rw [String.utf8ByteSize_append, ← utf8Length_toList y, hcs, utf8Length_cons]
    omega
  have hparse := hfault (p ++ y) (hlexes y hy) hlonger
  constructor
  · rw [compile, hparse]
  · intro more
    rw [Grammar.script_append]
    exact hparse

/-- In the middle of a condition the word is unexpected, before a text that would close the
condition and before a string without an end. -/
theorem compile_behind_eof_condition :
    EofEndsAt ("if (a eof" ++ ") then b endif") "if (a eof".utf8ByteSize ∧
    EndsWord ") then b endif".toList ∧ EndsWord "\"\x01".toList ∧
    compile ⟨40, {}⟩ ("if (a eof" ++ ") then b endif") =
      .error ⟨.grammar (.unexpectedToken (.symbol .rightParen) .endOfInput), ⟨6, 9⟩⟩ ∧
    compile ⟨40, {}⟩ ("if (a eof" ++ "\"\x01") =
      .error ⟨.grammar (.unexpectedToken (.symbol .rightParen) .endOfInput), ⟨6, 9⟩⟩ := by
  have heof : EofEndsAt ("if (a eof" ++ ") then b endif") "if (a eof".utf8ByteSize :=
    ⟨4, [⟨.keyword .kwIf, "if", ⟨0, 2⟩⟩, ⟨.symbol .leftParen, "(", ⟨3, 4⟩⟩,
      ⟨.identifier, "a", ⟨4, 5⟩⟩], ⟨.endOfInput, "eof", ⟨6, 9⟩⟩,
      ⟨9, ") then b endif".toList, none⟩, rfl, rfl, rfl, rfl, rfl⟩
  have hx : EndsWord ") then b endif".toList := ⟨')', _, rfl, by decide +kernel, by decide +kernel⟩
  have hy : EndsWord "\"\x01".toList := ⟨'"', _, rfl, by decide +kernel, by decide +kernel⟩
  obtain ⟨fault, hfault⟩ := compile_behind_eof hx heof ⟨40, {}⟩
  have hclosed : compile ⟨40, {}⟩ ("if (a eof" ++ ") then b endif") =
      .error ⟨.grammar (.unexpectedToken (.symbol .rightParen) .endOfInput), ⟨6, 9⟩⟩ := by
    decide +kernel
  -- the second text fails with the fault of the first
  have hsame : compile ⟨40, {}⟩ ("if (a eof" ++ "\"\x01") =
      compile ⟨40, {}⟩ ("if (a eof" ++ ") then b endif") :=
    (hfault _ hy).1.trans (hfault _ hx).1.symm
  exact ⟨heof, hx, hy, hclosed, hsame.trans hclosed⟩

end FormCalc
