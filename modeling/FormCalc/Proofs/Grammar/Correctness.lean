import FormCalc.Proofs.Grammar.Completeness
import FormCalc.Proofs.Grammar.Progress
import FormCalc.Proofs.Grammar.Soundness
import FormCalc.Proofs.Token.Alone

/-!
# Parsing is exact

The parser accepts exactly the token sequences that have a greedy derivation, and it gives
the tree of that derivation (`parse_iff_derives`).  Everything is about texts that lex up to
an end mark; the mark of the end of the text may also be the word `eof`, and only where this
word is the end of the text is it taken for one.

Size is the only other ground for a refusal.  `LimitReached` says that the parser gave it,
and the derivation alone decides when that is.
-/

namespace FormCalc

open Terminal FormCalc.Parser

/-- Whether a text lexes without a fault to these tokens and the end mark behind them. -/
structure Lexes (text : String) (tokens : List Token) (mark : Token) : Prop where
  pulls : (Lexer.ofText text).pulls = tokens.map .ok ++ [.ok mark]
  ends : mark.kind = .endOfInput

/-- Whether tokens have this greedy derivation as a whole script. -/
structure Derives (tokens : List Token) (d : Derivation .statements) : Prop where
  yield : d.yield = tokens.map Token.terminal
  greedy : d.Greedy .endOfInput

/-- Whether a text is refused for its size. -/
def LimitReached (maxDepth : Nat) (text : String) : Prop :=
  ∃ fault, Program.parse maxDepth text = .error fault ∧ fault.cause.isLimit = true

instance (maxDepth : Nat) (text : String) : Decidable (LimitReached maxDepth text) :=
  match h : Program.parse maxDepth text with
  | .ok _ => isFalse fun ⟨_, herror, _⟩ => nomatch h.symm.trans herror
  | .error fault => decidable_of_iff (fault.cause.isLimit = true)
    ⟨fun hlimit => ⟨fault, h, hlimit⟩,
      fun ⟨_, herror, hlimit⟩ => Except.error.inj (h.symm.trans herror) ▸ hlimit⟩

/-! ### The end of the text -/

namespace Lexes

variable {text : String} {tokens : List Token} {mark : Token} {maxDepth : Nat}

theorem readable_pulls (h : Lexes text tokens mark) :
    readable (Lexer.ofText text).pulls = tokens ++ [mark] := by
  rw [h.pulls]
  clear h
  induction tokens with
  | nil => rfl
  | cons token tokens ih => exact congrArg (token :: ·) ih

/-- The parser steps onto the first token. -/
theorem advance_start (h : Lexes text tokens mark) :
    ∃ token k, advance (Cursor.start (Lexer.ofText text).pulls) = .ok (token, k) ∧
      k.tokens = tokens ++ [mark] := by
  have hreadable := h.readable_pulls
  match hpulls : (Lexer.ofText text).pulls with
  | [] | .error fault :: rest =>
    rw [hpulls] at hreadable
    exact absurd hreadable.symm (by simp [readable])
  | .ok token :: rest =>
    rw [hpulls] at hreadable
    exact ⟨_, ⟨token, rest, .origin⟩, rfl, hreadable⟩

/-- There are no other tokens than these in front of the parser. -/
theorem tokens_of_start (h : Lexes text tokens mark) {token : Token} {k : Cursor}
    (hstart : advance (Cursor.start (Lexer.ofText text).pulls) = .ok (token, k)) :
    k.tokens = tokens ++ [mark] := by
  obtain ⟨-, hpasses⟩ := Cursor.Passes.of_advance hstart
  rw [← h.readable_pulls]
  exact (List.cons.inj hpasses.tokens).2.symm

/-- The mark is the only token of its kind, so a cursor at such a token is at the mark. -/
theorem at_mark (h : Lexes text tokens mark) {k : Cursor} (hk : k.tokens <:+ tokens ++ [mark])
    (hkind : k.current.kind = .endOfInput) : k.tokens = [mark] := by
  obtain ⟨ts, hts⟩ := hk
  have hcons : k.tokens = k.current :: readable k.rest := rfl
  rw [hcons] at hts ⊢
  rcases List.eq_nil_or_concat (readable k.rest) with hnil | ⟨more, last, hmore⟩
  · rw [hnil] at hts ⊢
    exact (List.append_inj' hts rfl).2
  · rw [hmore, List.concat_eq_append, ← List.cons_append, ← List.append_assoc] at hts
    have hmem : k.current ∈ tokens := by
      rw [← (List.append_inj' hts rfl).1]
      simp
    exact absurd hkind (Lexer.kind_of_pulls h.pulls hmem)

theorem stop_mark_le (h : Lexes text tokens mark) : mark.span.stop ≤ text.utf8ByteSize :=
  Lexer.stop_le_of_mem_pulls (by rw [h.pulls]; simp)

end Lexes

/-! ### Scripts -/

section Script

variable {text : String} {tokens : List Token} {mark : Token} {maxDepth : Nat}

/-- Parsing is reading a list of statements, from the first token on, and then a look at the
token behind it. -/
theorem parse_eq {token : Token} {k : Cursor}
    (h : advance (Cursor.start (Lexer.ofText text).pulls) = .ok (token, k)) :
    Program.parse maxDepth text =
      match Grammar.statements maxDepth (maxDepth - 1) k with
      | .error fault => .error fault
      | .ok (stmts, k') =>
        if k'.current.kind = .endOfInput ∧ text.utf8ByteSize ≤ k'.current.span.stop then
          .ok ⟨stmts, ⟨0, text.utf8ByteSize⟩⟩
        else .error ⟨.trailingInput k'.current.kind, k'.current.span⟩ := by
  rw [Program.parse, Grammar.script, bind_of_ok h]
  cases hstmts : Grammar.statements maxDepth (maxDepth - 1) k with
  | error fault => rw [bind_of_error hstmts]; rfl
  | ok result =>
    obtain ⟨stmts, k'⟩ := result
    rw [bind_of_ok hstmts, current_bind]
    dsimp only
    split <;> rfl

/-- What parses was read statement by statement, up to an end mark at the end of the text. -/
theorem parse_eq_ok {program : Program} (h : Program.parse maxDepth text = .ok program) :
    ∃ token k stmts k', advance (Cursor.start (Lexer.ofText text).pulls) = .ok (token, k) ∧
      Grammar.statements maxDepth (maxDepth - 1) k = .ok (stmts, k') ∧
      (k'.current.kind = .endOfInput ∧ text.utf8ByteSize ≤ k'.current.span.stop) ∧
      program = ⟨stmts, ⟨0, text.utf8ByteSize⟩⟩ := by
  rw [Program.parse] at h
  cases hscript : Grammar.script maxDepth text.utf8ByteSize
      (Cursor.start (Lexer.ofText text).pulls) with
  | error fault =>
    rw [hscript] at h
    cases h
  | ok result =>
    rw [hscript] at h
    obtain rfl := Except.ok.inj h
    simp only [Grammar.script, bind_eq_ok, current_bind] at hscript
    obtain ⟨token, k, hstart, stmts, k', hstmts, hend⟩ := hscript
    split at hend
    · rename_i hends
      obtain rfl := pure_eq_ok.mp hend
      exact ⟨token, k, stmts, k', hstart, hstmts, hends, rfl⟩
    · cases hend

theorem readable_fault (tokens : List Token) (fault : Fault LexicalCause) :
    readable (tokens.map .ok ++ [.error fault]) = tokens := by
  induction tokens with
  | nil => rfl
  | cons token tokens ih => exact congrArg (token :: ·) ih

/-- What parses lexes: a parser that meets a fault does not come to an end mark. -/
theorem exists_lexes_of_parse {program : Program}
    (h : Program.parse maxDepth text = .ok program) : ∃ tokens mark, Lexes text tokens mark := by
  obtain ⟨tokens, last, hpulls, hlast⟩ := (Lexer.ofText text).exists_last
  cases last with
  | ok mark => exact ⟨tokens, mark, hpulls, hlast⟩
  | error fault =>
    obtain ⟨token, k, stmts, k', hstart, hstmts, ⟨hkind, -⟩, -⟩ := parse_eq_ok h
    have hmem : k'.current ∈ k.tokens :=
      ((Grammar.forward maxDepth _).statements.suffix hstmts).mem List.mem_cons_self
    obtain ⟨-, hpasses⟩ := Cursor.Passes.of_advance hstart
    have htokens : readable (Lexer.ofText text).pulls = k.tokens :=
      (List.cons.inj hpasses.tokens).2
    rw [← htokens, hpulls, readable_fault] at hmem
    exact absurd hkind (Lexer.kind_of_pulls hpulls hmem)

/-- What parses has a derivation with this tree, and the mark ends the text. -/
theorem derives_of_parse (h : Lexes text tokens mark) {program : Program}
    (hparse : Program.parse maxDepth text = .ok program) :
    mark.span.stop = text.utf8ByteSize ∧
      ∃ d, Derives tokens d ∧ program.bare = ⟨d.value, .origin⟩ := by
  obtain ⟨token, k, stmts, k', hstart, hstmts, hend, rfl⟩ := parse_eq_ok hparse
  have hk := h.tokens_of_start hstart
  obtain ⟨d, hd, hgreedy, hvalue⟩ := (sound maxDepth _).statements hstmts
  have hmark := h.at_mark (hk ▸ (Grammar.forward maxDepth _).statements.suffix hstmts) hend.1
  obtain ⟨hcurrent, -⟩ := List.cons.inj hmark
  rw [hcurrent] at hend
  refine ⟨Nat.le_antisymm h.stop_mark_le hend.2, d, ⟨?_, ?_⟩, ?_⟩
  · rw [Cursor.terminals, Cursor.terminals, hk, hmark, List.map_append] at hd
    exact (List.append_cancel_right hd).symm
  · rw [hcurrent, hend.1] at hgreedy
    exact hgreedy
  · exact congrArg (Program.mk · .origin) hvalue

/-- What has a derivation is read up to the mark, or a limit is met. -/
theorem Derives.runs {d : Derivation .statements} (hd : Derives tokens d)
    (h : Lexes text tokens mark) {k : Cursor} (hk : k.tokens = tokens ++ [mark]) :
    Runs d.Bounded d.need (maxDepth - 1) (Grammar.statements maxDepth (maxDepth - 1) k)
      (fun _ k' => k'.tokens = [mark]) := by
  have hmeets : k.Meets d [mark.terminal] := by
    refine ⟨?_, by simp, ?_⟩
    · rw [Cursor.terminals, hk, List.map_append, hd.yield]
      rfl
    · rw [ahead_cons, Token.terminal_kind, h.ends]
      exact hd.greedy
  have hends : (ahead [mark.terminal] .endOfInput).endsList = true := by
    rw [ahead_cons, Token.terminal_kind, h.ends]
    rfl
  have hruns : Runs d.Bounded d.need (maxDepth - 1) _ _ :=
    Derivation.runs_statements (d.complete maxDepth) hmeets hends
  rcases hruns with ⟨hfits, stmts, k', hok, hk'⟩ | hlimit
  · have hkind : k'.current.kind = .endOfInput := (Cursor.kind_eq hk').trans h.ends
    exact .inl ⟨hfits, stmts, k', hok,
      h.at_mark (hk ▸ (Grammar.forward maxDepth _).statements.suffix hok) hkind⟩
  · exact .inr hlimit

/-- The levels that a script may open are fewer than the bound on the depth. -/
theorem need_le_iff {d : Derivation .statements} : d.need ≤ maxDepth - 1 ↔ d.need < maxDepth := by
  have hneed := d.one_le_need
  omega

/-- Without a limit in the way the mark alone decides. -/
theorem Derives.parse_of_fits {d : Derivation .statements} (hd : Derives tokens d)
    (h : Lexes text tokens mark) (hfits : d.Bounded ∧ d.need < maxDepth) :
    ∃ stmts, Program.parse maxDepth text =
      if text.utf8ByteSize ≤ mark.span.stop then .ok ⟨stmts, ⟨0, text.utf8ByteSize⟩⟩
      else .error ⟨.trailingInput .endOfInput, mark.span⟩ := by
  obtain ⟨token, k, hstart, hk⟩ := h.advance_start
  rw [← need_le_iff] at hfits
  rcases hd.runs h hk with ⟨-, stmts, k', hok, hk'⟩ | ⟨hnot, -⟩
  · obtain ⟨hcurrent, -⟩ := List.cons.inj hk'
    refine ⟨stmts, ?_⟩
    rw [parse_eq hstart, hok]
    dsimp only
    simp only [hcurrent, h.ends, true_and]
  · exact absurd hfits hnot

theorem Derives.limitReached_of_not_fits {d : Derivation .statements} (hd : Derives tokens d)
    (h : Lexes text tokens mark) (hfits : ¬(d.Bounded ∧ d.need < maxDepth)) :
    LimitReached maxDepth text := by
  obtain ⟨token, k, hstart, hk⟩ := h.advance_start
  rw [← need_le_iff] at hfits
  rcases hd.runs h hk with ⟨hyes, -⟩ | ⟨-, fault, herror, hlimit⟩
  · exact absurd hyes hfits
  · refine ⟨fault, ?_, hlimit⟩
    rw [parse_eq hstart, herror]

theorem Derives.limitReached_iff {d : Derivation .statements} (hd : Derives tokens d)
    (h : Lexes text tokens mark) :
    LimitReached maxDepth text ↔ ¬(d.Bounded ∧ d.need < maxDepth) := by
  constructor
  · rintro ⟨fault, hparse, hlimit⟩ hfits
    obtain ⟨stmts, heq⟩ := hd.parse_of_fits h hfits
    rw [heq] at hparse
    split at hparse
    · exact nomatch hparse
    · obtain rfl := Except.error.inj hparse
      exact nomatch hlimit
  · exact hd.limitReached_of_not_fits h

theorem Derives.eq {d d' : Derivation .statements} (hd : Derives tokens d)
    (hd' : Derives tokens d') : d' = d := by
  have hyield : d'.yield ++ [] = d.yield ++ [] := by rw [hd.yield, hd'.yield]
  exact (d'.unique .endOfInput hyield hd'.greedy hd.greedy).1

end Script

/-- **Parsing is exact.**  Of a text that lexes up to an end mark the parser accepts exactly
those where the mark is the end of the text and the tokens have a greedy derivation, unless a
limit is reached.  There is only one such derivation, the tree of what is accepted is its
tree, and a limit is reached exactly where the derivation needs too much room or has a list or
chain that is too long. -/
theorem parse_iff_derives {text : String} {tokens : List Token} {mark : Token}
    (h : Lexes text tokens mark) :
    (∀ maxDepth, ¬LimitReached maxDepth text →
      ((∃ program, Program.parse maxDepth text = .ok program) ↔
        mark.span.stop = text.utf8ByteSize ∧ ∃ d, Derives tokens d)) ∧
    ∀ d, Derives tokens d →
      (∀ d', Derives tokens d' → d' = d) ∧
      (∀ maxDepth program, Program.parse maxDepth text = .ok program →
        program.bare = ⟨d.value, .origin⟩) ∧
      ∀ maxDepth, LimitReached maxDepth text ↔ ¬(d.Bounded ∧ d.need < maxDepth) := by
  refine ⟨fun maxDepth hlimit => ⟨?_, ?_⟩, fun d hd => ⟨fun d' => hd.eq, ?_, ?_⟩⟩
  · rintro ⟨program, hparse⟩
    obtain ⟨hstop, d, hd, -⟩ := derives_of_parse h hparse
    exact ⟨hstop, d, hd⟩
  · rintro ⟨hstop, d, hd⟩
    rw [hd.limitReached_iff h, Classical.not_not] at hlimit
    obtain ⟨stmts, hparse⟩ := hd.parse_of_fits h hlimit
    rw [if_pos (Nat.le_of_eq hstop.symm)] at hparse
    exact ⟨_, hparse⟩
  · intro maxDepth program hparse
    obtain ⟨-, d', hd', hvalue⟩ := derives_of_parse h hparse
    rw [hvalue, hd.eq hd']
  · exact fun maxDepth => hd.limitReached_iff h

/-- A name on its own, where the tightest operators could stand. -/
def namedFactor (name : String) : Derivation (.layer (some .multiplicative)) :=
  .binary (.plain (.named name .unindexed .ended)) .finished

/-- The minus sign between two operands. -/
def minusSign : Layer.additive.Sign := ⟨.symbol .minus, .sub, by decide⟩

/-- `c * d`. -/
def productDerivation : Derivation (.layer (some .multiplicative)) :=
  .binary (.plain (.named "c" .unindexed .ended))
    (.operation ⟨.symbol .star, .mul, by decide⟩ (.plain (.named "d" .unindexed .ended)) .finished)

/-- A sum with no looser operators around it. -/
def Derivation.simpleOfSum (sum : Derivation (.layer (some .additive))) : Derivation .simple :=
  .binary (.binary (.binary (.binary sum .finished) .finished) .finished) .finished

/-- `a = b - c * d`. -/
def assignmentDerivation : Derivation .statements :=
  .item (.expr (.simpleOfSum (.binary (namedFactor "a") .finished)) (.present (.simpleOfSum
    (.binary (namedFactor "b")
      (.operation minusSign productDerivation .finished))))) .done

/-- The tokens of `a = b - c * d = e`. -/
def chainedAssignment : List Token :=
  [⟨.identifier, "a", ⟨0, 1⟩⟩, ⟨.symbol .assign, "=", ⟨2, 3⟩⟩, ⟨.identifier, "b", ⟨4, 5⟩⟩,
    ⟨.symbol .minus, "-", ⟨6, 7⟩⟩, ⟨.identifier, "c", ⟨8, 9⟩⟩, ⟨.symbol .star, "*", ⟨10, 11⟩⟩,
    ⟨.identifier, "d", ⟨12, 13⟩⟩, ⟨.symbol .assign, "=", ⟨14, 15⟩⟩, ⟨.identifier, "e", ⟨16, 17⟩⟩]

/-- An assignment has one derivation, in which the product is an operand of the difference.  With a
second assignment behind it there is none: the minus sign could begin a statement, but it continues
the first value. -/
theorem parse_iff_derives_chainedAssignment :
    Lexes "a = b - c * d" (chainedAssignment.take 7) ⟨.endOfInput, "", ⟨13, 13⟩⟩ ∧
      (∀ d, Derives (chainedAssignment.take 7) d ↔ d = assignmentDerivation) ∧
      (∃ program, Program.parse 40 "a = b - c * d" = .ok program ∧
        program.bare = ⟨[.expr (.assign (.identifier "a" .origin)
          (.binary .sub (.identifier "b" .origin)
            (.binary .mul (.identifier "c" .origin) (.identifier "d" .origin) .origin) .origin)
          .origin) .origin], .origin⟩) ∧
    Lexes "a = b - c * d = e" chainedAssignment ⟨.endOfInput, "", ⟨17, 17⟩⟩ ∧
      ¬∃ d, Derives chainedAssignment d := by
  have hone : Lexes "a = b - c * d" (chainedAssignment.take 7) ⟨.endOfInput, "", ⟨13, 13⟩⟩ :=
    ⟨rfl, rfl⟩
  have htwo : Lexes "a = b - c * d = e" chainedAssignment ⟨.endOfInput, "", ⟨17, 17⟩⟩ :=
    ⟨rfl, rfl⟩
  have hderives : Derives (chainedAssignment.take 7) assignmentDerivation := by
    refine ⟨rfl, ?_⟩
    simp [assignmentDerivation, productDerivation, minusSign, namedFactor,
      Derivation.simpleOfSum, Derivation.Greedy, Derivation.yield,
      ← Layer.operator?_eq_none_iff, Layer.operator?, BinaryOp.ofKind?, BinaryOp.layer,
      Kind.startsStatement, Kind.opensExpression, Kind.startsSuffix]
  obtain ⟨hunique, htree, -⟩ := (parse_iff_derives hone).2 _ hderives
  refine ⟨hone, fun d => ⟨hunique d, ?_⟩, ?_, htwo, ?_⟩
  · rintro rfl
    exact hderives
  · have hlimit : ¬LimitReached 40 "a = b - c * d" := by decide +kernel
    obtain ⟨program, hparse⟩ := ((parse_iff_derives hone).1 40 hlimit).mpr ⟨rfl, _, hderives⟩
    exact ⟨program, hparse, htree 40 program hparse⟩
  · have hlimit : ¬LimitReached 40 "a = b - c * d = e" := by decide +kernel
    have hrefused : (Program.parse 40 "a = b - c * d = e").isOk = false := by decide +kernel
    intro hd
    obtain ⟨program, hparse⟩ := ((parse_iff_derives htwo).1 40 hlimit).mpr ⟨rfl, hd⟩
    rw [hparse] at hrefused
    cases hrefused

end FormCalc
