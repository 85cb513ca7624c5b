import FormCalc.Proofs.Grammar.Reading
import FormCalc.Proofs.Grammar.Unambiguous

/-!
# The limits of a parser

A parser refuses some derivations for their size alone: those that nest too deeply, and
those with a list or a chain that is too long.

* `Derivation.need`: the room that a derivation takes.
* `Derivation.Bounded`: whether its lists and chains stay within the limits.
* `Runs`: a parser either reads all that it should or is stopped by a limit, and which of
  the two happens is decided by the room needed and by the bounds.

`Runs.bind`, `Runs.level` and the others derive this of a parser from its parts, so that
the limits never show in what is proved about a single production.
-/

namespace FormCalc

open Terminal FormCalc.Parser

/-- Whether a cause is one of the limits. -/
def GrammarCause.isLimit : GrammarCause → Bool
  | .tooDeep _ | .tooManyArguments _ | .chainTooLong _ | .tooManyExpressions _ => true
  | _ => false

namespace Derivation

/-- The number of elements of a list or chain. -/
def length : {r : Rule} → Derivation r → Nat
  | _, .item _ rest => rest.length + 1
  | _, .link _ rest => rest.length + 1
  | _, .oneMore _ more => more.length + 1
  | _, _ => 0

/-- The levels of nesting that a derivation opens, one inside the other.  The operators of
a layer nest to the right although their values nest to the left. -/
def need : {r : Rule} → Derivation r → Nat
  | _, .done => 1
  | _, .item first rest => max (first.need + 1) rest.need
  | _, .function _ _ body => body.need + 1
  | _, .var _ init => init.need + 2
  | _, .expr target value => max target.need value.need + 2
  | _, .branch cond body rest => max (max cond.need body.need) rest.need + 2
  | _, .loop cond body => max cond.need body.need + 2
  | _, .count _ start _ stop step body =>
    max start.need (max stop.need (max step.need body.need)) + 2
  | _, .each _ first more body => max (max first.need more.need) body.need + 2
  | _, .scope body => body.need + 2
  | _, .leave | _, .skip => 1
  | _, .nothing => 0
  | _, .last body => body.need
  | _, .elseIf cond body rest => max (max cond.need body.need) rest.need
  | _, .absent => 0
  | _, .present value => value.need
  | _, .binary first rest => max first.need rest.need + 1
  | _, .unary _ operand => operand.need + 1
  | _, .plain primary => primary.need + 1
  | _, .finished => 0
  | _, .operation _ right rest => max right.need rest.need + 1
  | _, .group value => value.need + 1
  | _, .null | _, .number _ | _, .string _ => 1
  | _, .named _ index suffixes => max index.need suffixes.need + 1
  | _, .grouped value suffixes => max value.need suffixes.need + 1
  | _, .ended => 1
  | _, .link first rest => max (first.need + 1) rest.need
  | _, .call args index => max args.need index.need
  | _, .method _ args index => max args.need index.need
  | _, .member _ index => index.need
  | _, .descendant _ index => index.need
  | _, .hash _ index => index.need
  | _, .star => 0
  | _, .every => 1
  | _, .entry _ value => value.need + 1
  | _, .unindexed => 0
  | _, .indexed index => index.need
  | _, .noArguments => 0
  | _, .someArguments first more => max first.need more.need
  | _, .noMore => 0
  | _, .oneMore first more => max first.need more.need

/-- Whether the lists and chains of a derivation stay within their limits. -/
def Bounded : {r : Rule} → Derivation r → Prop
  | _, .item first rest => first.Bounded ∧ rest.Bounded ∧ rest.length < maxStatements
  | _, .function _ _ body => body.Bounded
  | _, .var _ init => init.Bounded
  | _, .expr target value => target.Bounded ∧ value.Bounded
  | _, .branch cond body rest => (cond.Bounded ∧ body.Bounded) ∧ rest.Bounded
  | _, .loop cond body => cond.Bounded ∧ body.Bounded
  | _, .count _ start _ stop step body =>
    start.Bounded ∧ stop.Bounded ∧ step.Bounded ∧ body.Bounded
  | _, .each _ first more body =>
    (first.Bounded ∧ more.Bounded ∧ more.length < maxLinks) ∧ body.Bounded
  | _, .scope body => body.Bounded
  | _, .last body => body.Bounded
  | _, .elseIf cond body rest => (cond.Bounded ∧ body.Bounded) ∧ rest.Bounded
  | _, .present value => value.Bounded
  | _, .binary first rest => first.Bounded ∧ rest.Bounded
  | _, .unary _ operand => operand.Bounded
  | _, .plain primary => primary.Bounded
  | _, .operation _ right rest => right.Bounded ∧ rest.Bounded
  | _, .group value => value.Bounded
  | _, .named _ index suffixes => index.Bounded ∧ suffixes.Bounded
  | _, .grouped value suffixes => value.Bounded ∧ suffixes.Bounded
  -- The look that finds no further link counts as one.
  | _, .link first rest => first.Bounded ∧ rest.Bounded ∧ rest.length + 1 < maxLinks
  | _, .call args index => args.Bounded ∧ index.Bounded
  | _, .method _ args index => args.Bounded ∧ index.Bounded
  | _, .member _ index => index.Bounded
  | _, .descendant _ index => index.Bounded
  | _, .hash _ index => index.Bounded
  | _, .entry _ value => value.Bounded
  | _, .indexed index => index.Bounded
  | _, .someArguments first more => first.Bounded ∧ more.Bounded ∧ more.length < maxLinks
  | _, .oneMore first more => first.Bounded ∧ more.Bounded
  | _, _ => True

end Derivation

/-! ### Runs -/

section Runs

variable {α β : Type} {A B : Prop} {m n room : Nat} {Q : α → Cursor → Prop}
  {R : β → Cursor → Prop} {p : Parser α} {f : α → Parser β} {k : Cursor}
  {result : Except (Fault GrammarCause) (α × Cursor)}

/-- What a parser answers: a success as `Q` describes it if `A` holds and there is room for
`need` levels, and otherwise a limit. -/
def Runs (A : Prop) (need room : Nat) (result : Except (Fault GrammarCause) (α × Cursor))
    (Q : α → Cursor → Prop) : Prop :=
  ((A ∧ need ≤ room) ∧ ∃ x k', result = .ok (x, k') ∧ Q x k') ∨
    (¬(A ∧ need ≤ room) ∧ ∃ fault, result = .error fault ∧ fault.cause.isLimit = true)

namespace Runs

/-- Only the truth of the bounds counts. -/
theorem congr (h : Runs A m room result Q) (hiff : A ∧ m ≤ room ↔ B ∧ n ≤ room) :
    Runs B n room result Q := by
  rcases h with ⟨hfits, h⟩ | ⟨hfits, h⟩
  · exact .inl ⟨hiff.mp hfits, h⟩
  · exact .inr ⟨mt hiff.mpr hfits, h⟩

/-- What a success is said to be may be said in another way. -/
theorem mono {Q' : α → Cursor → Prop} (h : Runs A m room result Q)
    (hQ : ∀ x k', Q x k' → Q' x k') : Runs A m room result Q' := by
  rcases h with ⟨hfits, x, k', hok, hx⟩ | h
  · exact .inl ⟨hfits, x, k', hok, hQ x k' hx⟩
  · exact .inr h

/-- The parts of a sequence: all of them must fit. -/
theorem bind (h : Runs A m room (p k) Q)
    (hf : ∀ x k', Q x k' → Runs B n room (f x k') R) :
    Runs (A ∧ B) (max m n) room ((p >>= f) k) R := by
  rcases h with ⟨⟨ha, hm⟩, x, k', hok, hx⟩ | ⟨hfits, fault, herror, hlimit⟩
  · rw [bind_of_ok hok]
    refine (hf x k' hx).congr ?_
    constructor
    · rintro ⟨hb, hn⟩
      exact ⟨⟨ha, hb⟩, Nat.max_le.mpr ⟨hm, hn⟩⟩
    · rintro ⟨⟨-, hb⟩, hn⟩
      exact ⟨hb, (Nat.max_le.mp hn).2⟩
  · refine .inr ⟨?_, fault, bind_of_error herror, hlimit⟩
    rintro ⟨⟨ha, -⟩, hn⟩
    exact hfits ⟨ha, (Nat.max_le.mp hn).1⟩

/-- A step that consumes nothing and cannot fail. -/
theorem pure {x : α} (h : Q x k) : Runs True 0 room ((Pure.pure x : Parser α) k) Q :=
  .inl ⟨⟨trivial, Nat.zero_le room⟩, x, k, rfl, h⟩

/-- The last part of a sequence that can fail. -/
theorem last (h : Runs A m room (p k) Q)
    (hf : ∀ x k', Q x k' → Runs True 0 room (f x k') R) :
    Runs A m room ((p >>= f) k) R := by
  refine (h.bind hf).congr ?_
  rw [and_true, Nat.max_zero]

/-- A limit was met. -/
theorem limit {fault : Fault GrammarCause} (hfits : ¬(A ∧ m ≤ room))
    (hlimit : fault.cause.isLimit = true) : Runs A m room (.error fault) Q :=
  .inr ⟨hfits, fault, rfl, hlimit⟩

/-- A list that is too long: one element more is read, and then a limit is met. -/
theorem refused (h : Runs A m room (p k) Q) (hfits : ¬(B ∧ n ≤ room))
    (hf : ∀ x k', ∃ fault, f x k' = .error fault ∧ fault.cause.isLimit = true) :
    Runs B n room ((p >>= f) k) R := by
  rcases h with ⟨-, x, k', hok, -⟩ | ⟨-, fault, herror, hlimit⟩
  · rw [bind_of_ok hok]
    exact .inr ⟨hfits, hf x k'⟩
  · exact .inr ⟨hfits, fault, bind_of_error herror, hlimit⟩

/-- One more level of room for one more level of nesting. -/
theorem succ (h : Runs A m room result Q) : Runs A (m + 1) (room + 1) result Q := by
  unfold Runs at *
  rwa [Nat.add_le_add_iff_right]

/-- A production that opens a level of nesting. -/
theorem level {limit : Nat} (production body : Nat → Parser α)
    (hzero : production 0 k = (tooDeep limit : Parser α) k)
    (hsucc : ∀ room, production (room + 1) k = body room k)
    (h : ∀ room, Runs A m room (body room k) Q) (room : Nat) :
    Runs A (m + 1) room (production room k) Q := by
  cases room with
  | zero =>
    rw [hzero, tooDeep_apply]
    exact .limit (fun hfits => Nat.not_succ_le_zero m hfits.2) rfl
  | succ room =>
    rw [hsucc]
    exact (h room).succ

end Runs

/-! ### Steps that consume a token -/

/-- Whether a parser stopped in front of these terminals. -/
abbrev Before (rest : List Terminal) (_ : α) (k' : Cursor) : Prop := k'.terminals = rest

theorem advance_of_terminals {t : Terminal} {rest : List Terminal}
    (h : k.terminals = t :: rest) (hrest : rest ≠ []) :
    ∃ k', advance k = .ok (k.current, k') ∧ k'.terminals = rest := by
  obtain ⟨-, htail⟩ := List.cons.inj h
  unfold advance
  match hpulls : k.rest with
  | [] =>
    rw [hpulls] at htail
    exact absurd htail.symm hrest
  | .error fault :: more =>
    rw [hpulls] at htail
    exact absurd htail.symm hrest
  | .ok next :: more =>
    rw [hpulls] at htail
    exact ⟨⟨next, more, k.current.span⟩, rfl, htail⟩

namespace Runs

variable {t : Terminal} {rest : List Terminal}

theorem advance {g : Token → Parser β} (h : k.terminals = t :: rest) (hrest : rest ≠ [])
    (hg : ∀ k', k'.terminals = rest → Runs A m room (g k.current k') R) :
    Runs A m room ((Parser.advance >>= g) k) R := by
  obtain ⟨k', hok, hk'⟩ := advance_of_terminals h hrest
  rw [bind_of_ok hok]
  exact hg k' hk'

theorem expect {kind : Kind} {g : Token → Parser β} (h : k.terminals = t :: rest)
    (hkind : t.kind = kind) (hrest : rest ≠ [])
    (hg : ∀ k', k'.terminals = rest → Runs A m room (g k.current k') R) :
    Runs A m room ((Parser.expect kind >>= g) k) R := by
  obtain ⟨k', hok, hk'⟩ := advance_of_terminals h hrest
  have hexpect : Parser.expect kind k = .ok (k.current, k') := by
    rw [Parser.expect, current_bind, if_pos ((Cursor.kind_eq h).trans hkind), hok]
  rw [bind_of_ok hexpect]
  exact hg k' hk'

theorem symbol {s : Symbol} {g : Unit → Parser β} (h : k.terminals = .symbol s :: rest)
    (hrest : rest ≠ []) (hg : ∀ k', k'.terminals = rest → Runs A m room (g () k') R) :
    Runs A m room ((Parser.symbol s >>= g) k) R := by
  rw [Parser.symbol, bind_assoc]
  exact expect h rfl hrest hg

theorem word {w : Keyword} {g : Unit → Parser β} (h : k.terminals = .word w :: rest)
    (hrest : rest ≠ []) (hg : ∀ k', k'.terminals = rest → Runs A m room (g () k') R) :
    Runs A m room ((Parser.word w >>= g) k) R := by
  rw [Parser.word, bind_assoc]
  exact expect h rfl hrest hg

theorem name {text : String} {g : String → Parser β}
    (h : k.terminals = .identifier text :: rest) (hrest : rest ≠ [])
    (hg : ∀ name k', k'.terminals = rest → Runs A m room (g name k') R) :
    Runs A m room ((Parser.name >>= g) k) R := by
  rw [Parser.name, bind_assoc]
  exact expect h rfl hrest fun k' hk' => hg _ k' hk'

/-- A mark that is there. -/
theorem accept_mark {kind : Kind} {g : Bool → Parser β} (h : k.terminals = t :: rest)
    (hkind : t.kind = kind) (hrest : rest ≠ [])
    (hg : ∀ k', k'.terminals = rest → Runs A m room (g true k') R) :
    Runs A m room ((Parser.accept kind >>= g) k) R := by
  obtain ⟨k', hok, hk'⟩ := advance_of_terminals h hrest
  have haccept : Parser.accept kind k = .ok (true, k') := by
    rw [Parser.accept, peek_bind, if_pos ((Cursor.kind_eq h).trans hkind), bind_of_ok hok]
    rfl
  rw [bind_of_ok haccept]
  exact hg k' hk'

/-- A mark that is not there. -/
theorem accept_none {kind : Kind} {g : Bool → Parser β} (hkind : k.current.kind ≠ kind)
    (hg : Runs A m room (g false k) R) : Runs A m room ((Parser.accept kind >>= g) k) R := by
  have haccept : Parser.accept kind k = .ok (false, k) := by
    rw [Parser.accept, peek_bind, if_neg hkind]
    rfl
  rw [bind_of_ok haccept]
  exact hg

end Runs

end Runs

end FormCalc
