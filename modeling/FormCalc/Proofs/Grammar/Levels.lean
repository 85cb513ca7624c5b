import FormCalc.Proofs.Grammar.Correctness
import FormCalc.Proofs.Grammar.Relocated

/-!
# The levels of a script

While a script is read, productions are active inside one another, and each of them stands at a
level: one below the production that it is a part of.  Blocks and lists of arguments are no
productions of their own.  The operands of a layer of binary operators stand the lower the more
operators there are in front of them.

* `Derivation.levels`: the levels of all productions of a derivation.
* `Derivation.depth`: the lowest of them, where the whole script stands at level one.

A parser counts down the room that it has left, and `Derivation.need` is the room that a derivation
takes.  Both counts agree (`Derivation.depth_eq_need`), so the bound on the depth is exact
(`parse_iff_depth`).
-/

namespace FormCalc

open Terminal FormCalc.Parser

namespace Derivation

/-- The levels of the productions of a derivation whose own production stands at level `n`.  What
is no production of its own stands where its parts do. -/
def levels : {r : Rule} → Derivation r → Nat → List Nat
  | _, .done, n => [n]
  | _, .item first rest, n => first.levels (n + 1) ++ rest.levels n
  | _, .function _ _ body, n => n :: body.levels (n + 1)
  -- Each of these is a production inside the one that chooses between them.
  | _, .var _ init, n => n :: (n + 1) :: init.levels (n + 2)
  | _, .expr target value, n =>
    n :: (n + 1) :: (target.levels (n + 2) ++ value.levels (n + 2))
  | _, .branch cond body rest, n =>
    n :: (n + 1) :: (cond.levels (n + 2) ++ body.levels (n + 2) ++ rest.levels (n + 2))
  | _, .loop cond body, n => n :: (n + 1) :: (cond.levels (n + 2) ++ body.levels (n + 2))
  | _, .count _ start _ stop step body, n =>
    n :: (n + 1) :: (start.levels (n + 2) ++ stop.levels (n + 2) ++ step.levels (n + 2) ++
      body.levels (n + 2))
  | _, .each _ first more body, n =>
    n :: (n + 1) :: (first.levels (n + 2) ++ more.levels (n + 2) ++ body.levels (n + 2))
  | _, .scope body, n => n :: (n + 1) :: body.levels (n + 2)
  | _, .leave, n | _, .skip, n => [n]
  | _, .nothing, _ => []
  | _, .last body, n => body.levels n
  | _, .elseIf cond body rest, n => cond.levels n ++ body.levels n ++ rest.levels n
  | _, .absent, _ => []
  | _, .present value, n => value.levels n
  | _, .binary first rest, n => n :: (first.levels (n + 1) ++ rest.levels (n + 1))
  | _, .unary _ operand, n => n :: operand.levels (n + 1)
  | _, .plain primary, n => n :: primary.levels (n + 1)
  | _, .finished, _ => []
  -- Here `n` is the level of the operand in front of the operator.
  | _, .operation _ right rest, n => right.levels (n + 1) ++ rest.levels (n + 1)
  | _, .group value, n => n :: value.levels (n + 1)
  | _, .null, n | _, .number _, n | _, .string _, n => [n]
  | _, .named _ index suffixes, n => n :: (index.levels (n + 1) ++ suffixes.levels (n + 1))
  | _, .grouped value suffixes, n => n :: (value.levels (n + 1) ++ suffixes.levels (n + 1))
  | _, .ended, n => [n]
  | _, .link first rest, n => first.levels (n + 1) ++ rest.levels n
  | _, .call args index, n | _, .method _ args index, n => args.levels n ++ index.levels n
  | _, .member _ index, n | _, .descendant _ index, n | _, .hash _ index, n => index.levels n
  | _, .star, _ => []
  | _, .every, n => [n]
  | _, .entry _ value, n => n :: value.levels (n + 1)
  | _, .unindexed, _ => []
  | _, .indexed index, n => index.levels n
  | _, .noArguments, _ => []
  | _, .someArguments first more, n | _, .oneMore first more, n =>
    first.levels n ++ more.levels n
  | _, .noMore, _ => []

/-- The lowest level of a script. -/
def depth (d : Derivation .statements) : Nat := (d.levels 1).foldr max 0

/-! ### Levels and room -/

theorem one_le_need_layer {layer : Option Layer} (d : Derivation (.layer layer)) : 1 ≤ d.need := by
  cases d <;> exact Nat.le_add_left 1 _

/-- **Levels go as far as room is needed.**  A derivation below level `n` keeps above level `b` if
there is room for it in between. -/
theorem levels_le_iff {r : Rule} (d : Derivation r) (n b : Nat) :
    (∀ level ∈ d.levels (n + 1), level ≤ b) ↔ d.need = 0 ∨ n + d.need ≤ b := by
  induction d generalizing n with
  | done | leave | skip | null | number | string | ended | every =>
    simp [levels, need]
  | nothing | absent | finished | star | unindexed | noArguments | noMore =>
    simp [levels, need]
  | item first rest ihfirst ihrest =>
    have hrest := rest.one_le_need
    simp only [levels, need, List.forall_mem_append, ihfirst, ihrest]
    omega
  | link first rest ihfirst ihrest =>
    have hrest := rest.one_le_need_suffixes
    simp only [levels, need, List.forall_mem_append, ihfirst, ihrest]
    omega
  | operation sign right rest ihright ihrest =>
    have hright := right.one_le_need_layer
    simp only [levels, need, List.forall_mem_append, ihright, ihrest]
    omega
  | function name params body ih | unary op operand ih | plain primary ih | group value ih
  | entry mode value ih =>
    simp only [levels, need, List.forall_mem_cons, ih]
    omega
  | var name init ih | scope body ih =>
    simp only [levels, need, List.forall_mem_cons, ih]
    omega
  | expr first second ihfirst ihsecond | loop first second ihfirst ihsecond =>
    simp only [levels, need, List.forall_mem_cons, List.forall_mem_append, ihfirst, ihsecond]
    omega
  | branch cond body rest ihcond ihbody ihrest =>
    simp only [levels, need, List.forall_mem_cons, List.forall_mem_append, ihcond, ihbody, ihrest]
    omega
  | count name start direction stop step body ihstart ihstop ihstep ihbody =>
    simp only [levels, need, List.forall_mem_cons, List.forall_mem_append, ihstart, ihstop, ihstep,
      ihbody]
    omega
  | each name first more body ihfirst ihmore ihbody =>
    simp only [levels, need, List.forall_mem_cons, List.forall_mem_append, ihfirst, ihmore, ihbody]
    omega
  | elseIf cond body rest ihcond ihbody ihrest =>
    simp only [levels, need, List.forall_mem_append, ihcond, ihbody, ihrest]
    omega
  | binary first rest ihfirst ihrest | named name first rest ihfirst ihrest
  | grouped first rest ihfirst ihrest =>
    simp only [levels, need, List.forall_mem_cons, List.forall_mem_append, ihfirst, ihrest]
    omega
  | call first second ihfirst ihsecond | method name first second ihfirst ihsecond
  | someArguments first second ihfirst ihsecond | oneMore first second ihfirst ihsecond =>
    simp only [levels, need, List.forall_mem_append, ihfirst, ihsecond]
    omega
  | last part ih | present part ih | member name part ih | descendant name part ih
  | hash name part ih | indexed part ih => exact ih n

theorem foldr_max_le_iff (levels : List Nat) (b : Nat) :
    levels.foldr max 0 ≤ b ↔ ∀ level ∈ levels, level ≤ b := by
  induction levels with
  | nil => simp
  | cons level rest ih => rw [List.foldr_cons, Nat.max_le, ih, List.forall_mem_cons]

/-- The lowest level is the room that is needed. -/
theorem depth_eq_need (d : Derivation .statements) : d.depth = d.need := by
  have hneed := d.one_le_need
  have hle : ∀ b, d.depth ≤ b ↔ d.need ≤ b := by
    intro b
    rw [depth, foldr_max_le_iff, levels_le_iff d 0 b]
    omega
  exact Nat.le_antisymm ((hle d.need).mpr (Nat.le_refl _)) ((hle d.depth).mp (Nat.le_refl _))

end Derivation

/-! ### Scripts -/

/-- What parses under one bound is refused under another only for its depth, and only where that
bound is too low. -/
theorem Derives.parse_of_parse {text : String} {tokens : List Token} {mark : Token}
    {d : Derivation .statements} (hd : Derives tokens d) (hlexes : Lexes text tokens mark)
    {maxDepth : Nat} {program : Program} (h : Program.parse maxDepth text = .ok program)
    (limit : Nat) :
    d.need < limit ∧ Program.parse limit text = .ok program ∨
      limit ≤ d.need ∧ ∃ span, Program.parse limit text = .error ⟨.tooDeep limit, span⟩ := by
  have hwithin : ¬LimitReached maxDepth text := by
    rintro ⟨fault, herror, -⟩
    rw [h] at herror
    cases herror
  rw [hd.limitReached_iff hlexes, Classical.not_not] at hwithin
  obtain ⟨hbounded, hneed⟩ := hwithin
  by_cases hlimit : d.need < limit
  · refine .inl ⟨hlimit, ?_⟩
    have hfits : ¬LimitReached limit text := by
      rw [hd.limitReached_iff hlexes, Classical.not_not]
      exact ⟨hbounded, hlimit⟩
    rcases Nat.le_total limit maxDepth with hle | hle
    · rcases Program.parse_loosens hle text with ⟨fault, herror, hcause⟩ | hsame
      · exact absurd ⟨fault, herror, by rw [hcause]; rfl⟩ hfits
      · exact hsame.trans h
    · rcases Program.parse_loosens hle text with ⟨fault, herror, -⟩ | hsame
      · rw [h] at herror
        cases herror
      · exact hsame.symm.trans h
  · have hle : limit ≤ d.need := Nat.le_of_not_lt hlimit
    refine .inr ⟨hle, ?_⟩
    have hreached : LimitReached limit text :=
      hd.limitReached_of_not_fits hlexes fun hfits => hlimit hfits.2
    rcases Program.parse_loosens (Nat.le_of_lt (Nat.lt_of_le_of_lt hle hneed)) text with
      ⟨⟨cause, span⟩, herror, rfl⟩ | hsame
    · exact ⟨span, herror⟩
    · obtain ⟨fault, herror, -⟩ := hreached
      rw [hsame, h] at herror
      cases herror

/-- **The bound on the depth is exact.**  A text that parses under some bound has a derivation.
It parses, to the same tree, under every bound that is above the lowest level of its derivation,
and under every other bound it is refused for its depth. -/
theorem parse_iff_depth {text : String} {maxDepth : Nat} {program : Program}
    (h : Program.parse maxDepth text = .ok program) :
    (∃ tokens mark d, Lexes text tokens mark ∧ Derives tokens d) ∧
    ∀ tokens mark d, Lexes text tokens mark → Derives tokens d → ∀ limit,
      (Program.parse limit text = .ok program ↔ d.depth < limit) ∧
      (limit ≤ d.depth →
        ∃ span, Program.parse limit text = .error ⟨.tooDeep limit, span⟩) := by
  constructor
  · obtain ⟨tokens, mark, hlexes⟩ := exists_lexes_of_parse h
    obtain ⟨-, d, hd, -⟩ := derives_of_parse hlexes h
    exact ⟨tokens, mark, d, hlexes, hd⟩
  · intro tokens mark d hlexes hd limit
    rw [d.depth_eq_need]
    rcases hd.parse_of_parse hlexes h limit with ⟨hneed, hparse⟩ | ⟨hneed, span, hparse⟩
    · exact ⟨iff_of_true hparse hneed, fun hlow => absurd hneed (Nat.not_lt_of_le hlow)⟩
    · refine ⟨iff_of_false ?_ (Nat.not_lt_of_le hneed), fun _ => ⟨span, hparse⟩⟩
      intro hok
      rw [hok] at hparse
      cases hparse

/-- `a - b`. -/
def differenceDerivation : Derivation .statements :=
  .item (.expr (.binary (.binary (.binary (.binary (.binary (namedFactor "a")
    (.operation minusSign (namedFactor "b") .finished)) .finished) .finished) .finished)
      .finished) .absent) .done

/-- The second operand stands a level below the first one: list, statement, expression, six layers,
prefix, primary, suffixes, and one level for the operator. -/
theorem parse_iff_depth_difference : ∃ program tokens mark,
    Program.parse 40 "a - b" = .ok program ∧ Lexes "a - b" tokens mark ∧
      Derives tokens differenceDerivation ∧ differenceDerivation.depth = 13 ∧
      Program.parse 14 "a - b" = .ok program ∧
      ∃ span, Program.parse 13 "a - b" = .error ⟨.tooDeep 13, span⟩ := by
  have hlexes : Lexes "a - b" [⟨.identifier, "a", ⟨0, 1⟩⟩, ⟨.symbol .minus, "-", ⟨2, 3⟩⟩,
      ⟨.identifier, "b", ⟨4, 5⟩⟩] ⟨.endOfInput, "", ⟨5, 5⟩⟩ := ⟨rfl, rfl⟩
  have hderives : Derives [⟨.identifier, "a", ⟨0, 1⟩⟩, ⟨.symbol .minus, "-", ⟨2, 3⟩⟩,
      ⟨.identifier, "b", ⟨4, 5⟩⟩] differenceDerivation := by
    refine ⟨rfl, ?_⟩
    simp [differenceDerivation, minusSign, namedFactor, Derivation.Greedy, Derivation.yield,
      ← Layer.operator?_eq_none_iff, Layer.operator?, BinaryOp.ofKind?, BinaryOp.layer,
      Kind.startsStatement, Kind.opensExpression, Kind.startsSuffix]
  have hdepth : differenceDerivation.depth = 13 := by decide
  cases hparse : Program.parse 40 "a - b" with
  | error fault =>
    have hok : (Program.parse 40 "a - b").isOk = true := by decide +kernel
    rw [hparse] at hok
    cases hok
  | ok program =>
    have hexact := (parse_iff_depth hparse).2 _ _ _ hlexes hderives
    refine ⟨program, _, _, rfl, hlexes, hderives, hdepth, (hexact 14).1.mpr ?_, (hexact 13).2 ?_⟩
    · rw [hdepth]
      exact Nat.lt_succ_self 13
    · exact Nat.le_of_eq hdepth.symm

end FormCalc
