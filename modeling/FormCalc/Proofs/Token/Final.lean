import FormCalc.Proofs.Token.Conserved

/-!
# The first fault is final

A lexer that has met a fault does not move any more, and gives the mark of the fault at every
further call.  A mark of this kind comes up in no other way.

* `Lexer.Step.kind_eq_invalid_iff`, `Lexer.Step.eq_failed`: what a call gives where it fails.
* `Lexer.answers`: what a number of calls give, with a fault in place of its mark.
* `Lexer.exists_ends`: the calls come to an end mark or to a fault, and `Lexer.pulls` is what they
  give up to there.
-/

namespace FormCalc

/-- What a call of the lexer gives, with a fault in place of its mark. -/
abbrev Pull := Except (Fault LexicalCause) Token

/-- No lexeme is the mark of a failed scan. -/
theorem Lexeme.read_ne_invalid (c : Char) (cs : List Char) :
    (read c cs).verdict ≠ .ok .invalid := by
  intro h
  have hreads := reads c cs
  generalize read c cs = lexeme at h hreads
  cases hreads with
  | forbidden | symbol | unexpected => cases h
  | string => cases quoted_kind h
  | number => cases number_kind h
  | word =>
    have hne : ∀ word, Kind.ofWord word ≠ .invalid := Kind.ofWord_ne nofun rfl
    exact hne _ (ended_verdict h).symm

namespace Lexer

variable {lexer last : Lexer} {token mark : Token} {tokens : List Token}

/-! ### One call -/

/-- A call gives the mark of a failed scan exactly if there is a fault behind it. -/
theorem Step.kind_eq_invalid_iff {after : Lexer} (h : Step lexer token after) :
    token.kind = .invalid ↔ after.fault ≠ none := by
  cases h with
  | stopped h => simp [failed, h]
  | finished => simp
  | @read gap cs c kind _ _ hverdict =>
    have hkind : kind ≠ .invalid := by
      rintro rfl
      exact Lexeme.read_ne_invalid c cs hverdict
    simpa using hkind
  | refused => simp [failed]

/-- Where there is a fault behind a call, the call gave its mark. -/
theorem Step.eq_failed {after : Lexer} (h : Step lexer token after) {fault : Fault LexicalCause}
    (hfault : after.fault = some fault) : token = failed fault := by
  cases h with
  | stopped h =>
    rw [h] at hfault
    rw [Option.some.inj hfault]
  | finished => cases hfault
  | read => cases hfault
  | refused =>
    obtain rfl := Option.some.inj hfault
    rfl

/-! ### Calls in a row -/

/-- What the parser sees of a token, by the lexer behind it. -/
def seen (after : Lexer) (token : Token) : Pull :=
  match after.fault with
  | some fault => .error fault
  | none => .ok token

/-- What the first `count` calls give.  They go on behind an end mark. -/
def answers : (count : Nat) → Lexer → List Pull
  | 0, _ => []
  | count + 1, lexer => lexer.next.2.seen lexer.next.1 :: answers count lexer.next.2

/-- The answers of some calls are those of the first of them, and those of the others. -/
theorem answers_add (lexer : Lexer) (count more : Nat) :
    lexer.answers (count + more) = lexer.answers count ++ (lexer.calls count).2.answers more := by
  induction count generalizing lexer with
  | zero => rw [Nat.zero_add]; rfl
  | succ count ih =>
    rw [Nat.add_right_comm]
    exact congrArg (_ :: ·) (ih lexer.next.2)

/-- Whether the calls of a lexer come to a mark: of the end, or of a fault. -/
structure Ends (lexer : Lexer) (tokens : List Token) (mark : Token) (last : Lexer) : Prop where
  calls : lexer.calls (tokens.length + 1) = (tokens ++ [mark], last)
  kinds : ∀ token ∈ tokens, token.kind ≠ .endOfInput ∧ token.kind ≠ .invalid
  marks : last.fault = none ∧ mark.kind = .endOfInput ∨
    ∃ fault, last.fault = some fault ∧ mark = failed fault
  answers : lexer.answers (tokens.length + 1) = tokens.map .ok ++ [last.seen mark]

theorem Ends.kind (h : lexer.Ends tokens mark last) :
    mark.kind = .endOfInput ∨ mark.kind = .invalid := by
  rcases h.marks with ⟨-, hkind⟩ | ⟨fault, -, rfl⟩
  · exact .inl hkind
  · exact .inr rfl

theorem Ends.isLast (h : lexer.Ends tokens mark last) : IsLast (last.seen mark) := by
  rcases h.marks with ⟨hfault, hkind⟩ | ⟨fault, hfault, -⟩
  · rw [seen, hfault]
    exact hkind
  · rw [seen, hfault]
    trivial

/-- No token is the mark of a failed scan, since the fault is there in its place. -/
theorem Ends.kind_ne_invalid (h : lexer.Ends tokens mark last)
    (hmem : .ok token ∈ tokens.map .ok ++ [last.seen mark]) : token.kind ≠ .invalid := by
  rw [List.mem_append, List.mem_map, List.mem_singleton] at hmem
  rcases hmem with ⟨other, hother, heq⟩ | hseen
  · obtain rfl := Except.ok.inj heq
    exact (h.kinds other hother).2
  · rcases h.marks with ⟨hfault, hkind⟩ | ⟨fault, hfault, -⟩
    · rw [seen, hfault] at hseen
      obtain rfl := Except.ok.inj hseen
      rw [hkind]
      nofun
    · rw [seen, hfault] at hseen
      cases hseen

/-- The fault that is given is the one that stopped the lexer. -/
theorem Ends.eq_fault (h : lexer.Ends tokens mark last) {fault : Fault LexicalCause}
    (hmem : .error fault ∈ tokens.map .ok ++ [last.seen mark]) :
    last.fault = some fault ∧ mark = failed fault := by
  rw [List.mem_append, List.mem_map, List.mem_singleton] at hmem
  rcases hmem with ⟨other, -, heq⟩ | hseen
  · cases heq
  · rcases h.marks with ⟨hfault, -⟩ | ⟨stopped, hfault, hmark⟩
    · rw [seen, hfault] at hseen
      cases hseen
    · rw [seen, hfault] at hseen
      obtain rfl := Except.error.inj hseen
      exact ⟨hfault, hmark⟩

/-- One more call in front. -/
theorem Ends.cons (h : lexer.next.2.Ends tokens mark last) (hfault : lexer.next.2.fault = none)
    (hkind : lexer.next.1.kind ≠ .endOfInput) : lexer.Ends (lexer.next.1 :: tokens) mark last where
  calls := by
    rw [List.length_cons, calls_succ, h.calls]
    rfl
  kinds := by
    refine List.forall_mem_cons.mpr ⟨⟨hkind, fun hinvalid => ?_⟩, h.kinds⟩
    exact lexer.step_next.kind_eq_invalid_iff.mp hinvalid hfault
  marks := h.marks
  answers := by
    rw [List.length_cons, Lexer.answers, h.answers, seen, hfault]
    rfl

theorem exists_ends_pullsWithin {count : Nat} (h : lexer.rest.length < count) :
    ∃ tokens mark last, lexer.Ends tokens mark last ∧
      pullsWithin count lexer = tokens.map .ok ++ [last.seen mark] := by
  induction count generalizing lexer with
  | zero => exact absurd h (Nat.not_lt_zero _)
  | succ count ih =>
    rw [pullsWithin_succ]
    split
    · rename_i fault hfault
      refine ⟨[], lexer.next.1, lexer.next.2, ⟨rfl, nofun, ?_, rfl⟩, ?_⟩
      · exact .inr ⟨fault, hfault, lexer.step_next.eq_failed hfault⟩
      · rw [seen, hfault]
        rfl
    · rename_i hfault
      split
      · rename_i hend
        refine ⟨[], lexer.next.1, lexer.next.2, ⟨rfl, nofun, .inl ⟨hfault, hend⟩, rfl⟩, ?_⟩
        rw [seen, hfault]
        rfl
      · rename_i hkind
        have hshorter := lexer.step_next.length_lt hfault hkind
        have hcount : lexer.next.2.rest.length < count := by omega
        obtain ⟨tokens, mark, last, hends, hpulls⟩ := ih hcount
        exact ⟨lexer.next.1 :: tokens, mark, last, hends.cons hfault hkind, by rw [hpulls]; rfl⟩

/-- **The calls of every lexer come to a mark**, and up to there they give what is pulled. -/
theorem exists_ends (lexer : Lexer) : ∃ tokens mark last, lexer.Ends tokens mark last ∧
    lexer.pulls = tokens.map .ok ++ [last.seen mark] :=
  exists_ends_pullsWithin (Nat.lt_succ_self _)

end Lexer

end FormCalc
