import FormCalc.Proofs.Grammar.Correctness
import FormCalc.Proofs.Grammar.Printed

/-!
# Printing and parsing again

The text that is printed for a script parses to the script, apart from spans
(`parse_print`).

What the text lexes to is known from the spaces in it (`pulls_spaced`), and the parser builds
the tree of the only derivation there is.  So it is enough to find one: the statements have a
derivation because their expressions have (`Stmt.printable`), as long as none of them runs
into the next.
-/

namespace FormCalc

open Terminal
open FormCalc.Parser (maxLinks maxStatements)

/-! ### What stands behind a statement -/

/-- Whether a token of this kind can stand behind a statement. -/
def Kind.followsStatement (kind : Kind) : Bool := kind.startsStatement || kind.endsList

namespace Kind

variable {kind : Kind}

/-- It is no assignment, and mostly nothing that goes on with an expression. -/
theorem ends_of_followsStatement (h : kind.followsStatement = true)
    (hcontinues : kind.continues = false) : kind.Ends (some .logicalOr) := by
  apply ends_of_not_continues
  cases kind with
  | symbol s =>
    cases s <;> first | exact absurd h (by decide) | exact absurd hcontinues (by decide)
  | keyword k => cases k <;> first | decide | exact absurd h (by decide)
  | _ => decide

theorem ne_assign_of_followsStatement (h : kind.followsStatement = true) :
    kind ≠ .symbol .assign := by
  rintro rfl
  exact nomatch h

theorem continues_of_endsList (h : kind.endsList = true) : kind.continues = false := by
  cases kind with
  | symbol s => exact nomatch h
  | _ => rfl

theorem followsStatement_of_endsList (h : kind.endsList = true) :
    kind.followsStatement = true := by
  rw [followsStatement, h, Bool.or_true]

end Kind

/-! ### Parts of statements -/

theorem spelled_commaNames {names : List String} (h : ∀ name ∈ names, IsName name) :
    AllSpelled (commaNames names) := by
  induction names with
  | nil => exact nofun
  | cons name rest ih =>
    obtain ⟨hname, hrest⟩ := List.forall_mem_cons.mp h
    simp [commaNames, spelled_symbol, spelled_identifier hname, ih hrest]

theorem spelled_nameList {names : List String} (h : ∀ name ∈ names, IsName name) :
    AllSpelled (nameList names) := by
  cases names with
  | nil => exact nofun
  | cons name rest =>
    obtain ⟨hname, hrest⟩ := List.forall_mem_cons.mp h
    simp [nameList, spelled_identifier hname, spelled_commaNames hrest]

/-- Whether the terminals of an optional part have a derivation with its tree. -/
def PrintableOptional (mark : Kind) (part : Option Expr) : Prop :=
  AllSpelled (printedOptional mark part) ∧ ∃ d : Derivation (.optional mark),
    d.yield = printedOptional mark part ∧ d.value = part.map Expr.bare ∧ d.Bounded ∧
      ∀ next, (part.isSome = true → next.Ends (some .logicalOr)) → next ≠ mark → d.Greedy next

theorem printableOptional {mark : Kind} (hmark : Terminal.Spelled ⟨mark, ""⟩)
    (part : Option Expr) (h : BuildableOptional part) : PrintableOptional mark part := by
  cases part with
  | none => exact ⟨nofun, .absent, rfl, rfl, trivial, fun _ _ hne => hne⟩
  | some expr =>
    have hexpr := (expr.printable h).simple
    obtain ⟨d, hyield, hvalue, hbounded, hgreedy⟩ := hexpr.derived
    refine ⟨?_, .present d, ?_, congrArg some hvalue, hbounded, ?_⟩
    · show AllSpelled ([⟨mark, ""⟩] ++ expr.printed)
      simp [hmark, hexpr.spelled]
    · show [⟨mark, ""⟩] ++ d.yield = [⟨mark, ""⟩] ++ expr.printed
      rw [hyield]
    · exact fun next hends _ => hgreedy next (hends rfl)

/-- A condition in parentheses. -/
theorem printable_group (cond : Expr) (h : cond.Buildable) :
    AllSpelled cond.printed ∧ ∃ d : Derivation .group,
      d.yield = [symbol .leftParen] ++ cond.printed ++ [symbol .rightParen] ∧
        d.value = cond.bare ∧ d.Bounded ∧ ∀ next, d.Greedy next := by
  have hcond := (cond.printable h).simple
  obtain ⟨d, hyield, hvalue, hbounded, hgreedy⟩ := hcond.derived
  refine ⟨hcond.spelled, .group d, ?_, hvalue, hbounded, fun _ => hgreedy _ ?_⟩
  · rw [Derivation.yield_group, hyield]
  · exact Kind.ends_of_not_continues (by decide)

/-! ### Statements -/

/-- Whether the terminals of a statement have a derivation with its tree. -/
structure Stmt.Printable (stmt : Stmt) : Prop where
  spelled : AllSpelled stmt.printed
  derived : ∃ d : Derivation .statement, d.yield = stmt.printed ∧ d.value = stmt.bare ∧
    d.Bounded ∧ ∀ next, next.followsStatement = true →
      (stmt.isOpen = true → next.continues = false) → d.Greedy next

/-- Whether the terminals of statements have a derivation with their trees. -/
structure PrintableStmts (stmts : List Stmt) : Prop where
  spelled : AllSpelled (printedStmts stmts)
  derived : ∃ d : Derivation .statements, d.yield = printedStmts stmts ∧
    d.value = bareStmts stmts ∧ d.length = stmts.length ∧ d.Bounded ∧
      ∀ next, next.endsList = true → d.Greedy next

/-- Whether the terminals of a block have a derivation with its tree. -/
structure Block.Printable (body : Block) : Prop where
  spelled : AllSpelled body.printed
  derived : ∃ d : Derivation .statements, d.yield = body.printed ∧
    Block.mk d.value .origin = body.bare ∧ d.Bounded ∧ ∀ next, next.endsList = true → d.Greedy next

/-- Whether the terminals of the parts of an `if` behind its first block have a derivation
with their trees. -/
structure Otherwise.Printable (rest : Otherwise) : Prop where
  spelled : AllSpelled rest.printed
  derived : ∃ d : Derivation .otherwise, d.yield = rest.printed ∧ d.value = rest.bare ∧
    d.Bounded ∧ d.Greedy (.keyword .kwEndif)

theorem printableStmts_nil : PrintableStmts [] :=
  ⟨nofun, .done, rfl, rfl, rfl, trivial, fun _ h => Kind.startsStatement_of_endsList h⟩

/-- What stands behind the first statement of a list follows it and, if the two stay apart,
does not continue it. -/
theorem PrintableStmts.ahead {rest : List Stmt} (h : PrintableStmts rest) {next : Kind}
    (hends : next.endsList = true) :
    (ahead (printedStmts rest) next).followsStatement = true ∧
      ((ahead (printedStmts rest) .endOfInput).continues = false →
        (ahead (printedStmts rest) next).continues = false) := by
  obtain ⟨d, hyield, -⟩ := h.derived
  rw [← hyield]
  cases d with
  | done =>
    exact ⟨Kind.followsStatement_of_endsList hends, fun _ => Kind.continues_of_endsList hends⟩
  | item first more =>
    have hstarts : ∀ kind, (Terminal.ahead first.yield kind).startsStatement = true := first.starts
    have hfollows := hstarts (Terminal.ahead more.yield next)
    rw [Derivation.yield_item, ahead_append, ahead_append]
    refine ⟨?_, ?_⟩
    · rw [Kind.followsStatement, hfollows, Bool.true_or]
    · -- There is a first terminal, so what stands behind the list does not matter.
      cases hts : first.yield with
      | nil =>
        have hnone := hstarts .endOfInput
        rw [hts] at hnone
        exact nomatch hnone
      | cons t ts => exact id

theorem printableStmts_cons {stmt : Stmt} {rest : List Stmt} (hstmt : stmt.Printable)
    (hrest : PrintableStmts rest) (hlength : (stmt :: rest).length ≤ maxStatements)
    (hapart : stmt.isOpen = true → (ahead (printedStmts rest) .endOfInput).continues = false) :
    PrintableStmts (stmt :: rest) := by
  obtain ⟨d, hyield, hvalue, hbounded, hgreedy⟩ := hstmt.derived
  obtain ⟨more, hmyield, hmvalue, hmlength, hmbounded, hmgreedy⟩ := hrest.derived
  refine ⟨?_, .item d more, ?_, ?_, ?_, ⟨hbounded, hmbounded, ?_⟩, ?_⟩
  · rw [printedStmts]
    exact allSpelled_append.mpr ⟨hstmt.spelled, hrest.spelled⟩
  · rw [Derivation.yield_item, hyield, hmyield, printedStmts]
  · show d.value :: more.value = stmt.bare :: bareStmts rest
    rw [hvalue, hmvalue]
  · exact congrArg (· + 1) hmlength
  · rw [hmlength]
    exact hlength
  · intro next hends
    obtain ⟨hfollows, hcontinues⟩ := hrest.ahead hends
    rw [← hmyield] at hfollows hcontinues hapart
    exact ⟨hgreedy _ hfollows fun hopen => hcontinues (hapart hopen), hmgreedy next hends⟩

/-- What stands behind the body of an `if` ends its list. -/
theorem ahead_printed_otherwise (rest : Otherwise) :
    (ahead rest.printed (.keyword .kwEndif)).endsList = true := by
  cases rest <;> rfl

theorem printable_function {name : String} {params : List String} {body : List Stmt}
    (hname : IsName name) (hparams : ∀ param ∈ params, IsName param) (hbody : PrintableStmts body)
    (span : Span) : (Stmt.function name params body span).Printable := by
  obtain ⟨d, hyield, hvalue, -, hbounded, hgreedy⟩ := hbody.derived
  refine ⟨?_, .function name params d, ?_, ?_, hbounded, fun _ _ _ => hgreedy _ rfl⟩
  · rw [Stmt.printed]
    simp [spelled_word, spelled_symbol, spelled_identifier hname, spelled_nameList hparams,
      hbody.spelled]
  · rw [Derivation.yield_function, hyield, Stmt.printed]
  · rw [Stmt.bare, ← hvalue]
    rfl

theorem printable_var {name : String} {init : Option Expr} (hname : IsName name)
    (hinit : PrintableOptional (.symbol .assign) init) (span : Span) :
    (Stmt.var name init span).Printable := by
  obtain ⟨hspelled, d, hyield, hvalue, hbounded, hgreedy⟩ := hinit
  refine ⟨?_, .var name d, ?_, ?_, hbounded, fun next hnext hopen => hgreedy next ?_ ?_⟩
  · rw [Stmt.printed]
    simp [spelled_word, spelled_identifier hname, hspelled]
  · rw [Derivation.yield_var, hyield, Stmt.printed]
  · rw [Stmt.bare, ← hvalue]
    rfl
  · exact fun hsome => Kind.ends_of_followsStatement hnext (hopen hsome)
  · exact Kind.ne_assign_of_followsStatement hnext

theorem printable_expr {expr : Expr} (h : expr.BuildableStatement) (span : Span) :
    (Stmt.expr expr span).Printable := by
  have hplain : expr.Buildable → (Stmt.expr expr span).Printable := by
    intro hexpr
    have hsimple := (expr.printable hexpr).simple
    obtain ⟨d, hyield, hvalue, hbounded, hgreedy⟩ := hsimple.derived
    refine ⟨hsimple.spelled, .expr d .absent, ?_, ?_, ⟨hbounded, trivial⟩, ?_⟩
    · rw [Derivation.yield_expr, hyield, Derivation.yield_absent, List.append_nil, Stmt.printed]
    · rw [Stmt.bare, ← hvalue]
      rfl
    · intro next hnext hopen
      have hends := Kind.ends_of_followsStatement hnext (hopen rfl)
      exact ⟨hgreedy next hends, Kind.ne_assign_of_followsStatement hnext⟩
  cases expr with
  | assign target value inner =>
    have htarget := (target.printable h.1).simple
    obtain ⟨hspelled, v, hvyield, hvvalue, hvbounded, hvgreedy⟩ :=
      printableOptional (spelled_symbol .assign) (some value) h.2
    obtain ⟨t, htyield, htvalue, htbounded, htgreedy⟩ := htarget.derived
    have hsign : (Kind.symbol .assign).Ends (some .logicalOr) :=
      Kind.ends_of_not_continues (by decide)
    have hprinted : (Stmt.expr (.assign target value inner) span).printed =
        target.printed ++ printedOptional (.symbol .assign) (some value) := by
      rw [Stmt.printed, Expr.printed, printedOptional, List.append_assoc]
    refine ⟨?_, .expr t v, ?_, ?_, ⟨htbounded, hvbounded⟩, ?_⟩
    · rw [hprinted]
      exact allSpelled_append.mpr ⟨htarget.spelled, hspelled⟩
    · rw [hprinted, Derivation.yield_expr, htyield, hvyield]
    · show Stmt.ofTarget t.value v.value = .expr (.assign target.bare value.bare .origin) .origin
      rw [htvalue, hvvalue]
      rfl
    · intro next hnext hopen
      have hends := Kind.ends_of_followsStatement hnext (hopen rfl)
      refine ⟨?_, hvgreedy next (fun _ => hends) (Kind.ne_assign_of_followsStatement hnext)⟩
      rw [hvyield]
      exact htgreedy _ hsign
  | _ => exact hplain h

theorem PrintableStmts.block {stmts : List Stmt} (h : PrintableStmts stmts) (span : Span) :
    (Block.mk stmts span).Printable := by
  obtain ⟨d, hyield, hvalue, -, hbounded, hgreedy⟩ := h.derived
  exact ⟨h.spelled, d, hyield, congrArg (Block.mk · .origin) hvalue, hbounded, hgreedy⟩

theorem printable_scope {body : Block} (hbody : body.Printable) (span : Span) :
    (Stmt.scope body span).Printable := by
  obtain ⟨d, hyield, hvalue, hbounded, hgreedy⟩ := hbody.derived
  refine ⟨?_, .scope d, ?_, ?_, hbounded, fun _ _ _ => hgreedy _ rfl⟩
  · rw [Stmt.printed]
    simp [spelled_word, hbody.spelled]
  · rw [Derivation.yield_scope, hyield, Stmt.printed]
  · rw [Stmt.bare, ← hvalue]
    rfl

theorem printable_branch {cond : Expr} {body : Block} {rest : Otherwise} (hcond : cond.Buildable)
    (hbody : body.Printable) (hrest : rest.Printable) (span : Span) :
    (Stmt.branch cond body rest span).Printable := by
  obtain ⟨hspelled, c, hcyield, hcvalue, hcbounded, hcgreedy⟩ := printable_group cond hcond
  obtain ⟨d, hyield, hvalue, hbounded, hgreedy⟩ := hbody.derived
  obtain ⟨r, hryield, hrvalue, hrbounded, hrgreedy⟩ := hrest.derived
  refine ⟨?_, .branch c d r, ?_, ?_, ⟨⟨hcbounded, hbounded⟩, hrbounded⟩, ?_⟩
  · rw [Stmt.printed]
    simp [spelled_word, spelled_symbol, hspelled, hbody.spelled, hrest.spelled]
  · rw [Derivation.yield_branch, hcyield, hyield, hryield, Stmt.printed]
    simp
  · rw [Stmt.bare, ← hcvalue, ← hvalue, ← hrvalue]
    rfl
  · intro next _ _
    refine ⟨hcgreedy _, hgreedy _ ?_, hrgreedy⟩
    rw [hryield]
    exact ahead_printed_otherwise rest

theorem printable_loop {cond : Expr} {body : Block} (hcond : cond.Buildable)
    (hbody : body.Printable) (span : Span) : (Stmt.loop cond body span).Printable := by
  obtain ⟨hspelled, c, hcyield, hcvalue, hcbounded, hcgreedy⟩ := printable_group cond hcond
  obtain ⟨d, hyield, hvalue, hbounded, hgreedy⟩ := hbody.derived
  refine ⟨?_, .loop c d, ?_, ?_, ⟨hcbounded, hbounded⟩, ?_⟩
  · rw [Stmt.printed]
    simp [spelled_word, spelled_symbol, hspelled, hbody.spelled]
  · rw [Derivation.yield_loop, hcyield, hyield, Stmt.printed]
    simp
  · rw [Stmt.bare, ← hcvalue, ← hvalue]
    rfl
  · exact fun _ _ _ => ⟨hcgreedy _, hgreedy _ rfl⟩

theorem printable_count {var : String} {start stop : Expr} {step : Option Expr} {body : Block}
    (hname : IsName var) (hstart : start.Buildable) (hstop : stop.Buildable)
    (hstep : BuildableOptional step) (hbody : body.Printable) (direction : Direction)
    (span : Span) : (Stmt.count var start stop direction step body span).Printable := by
  have hfrom := (start.printable hstart).simple
  have hto := (stop.printable hstop).simple
  obtain ⟨a, hayield, havalue, habounded, hagreedy⟩ := hfrom.derived
  obtain ⟨b, hbyield, hbvalue, hbbounded, hbgreedy⟩ := hto.derived
  obtain ⟨hspelled, e, heyield, hevalue, hebounded, hegreedy⟩ :=
    printableOptional (spelled_word .kwStep) step hstep
  obtain ⟨d, hyield, hvalue, hbounded, hgreedy⟩ := hbody.derived
  have hdo : (Kind.keyword .kwDo).Ends (some .logicalOr) :=
    Kind.ends_of_not_continues (by decide)
  refine ⟨?_, .count var a direction b e d, ?_, ?_,
    ⟨habounded, hbbounded, hebounded, hbounded⟩, fun _ _ _ => ⟨hagreedy _ ?_, ?_, ?_, ?_⟩⟩
  · rw [Stmt.printed]
    simp [spelled_word, spelled_symbol, spelled_identifier hname, hfrom.spelled, hto.spelled,
      hspelled, hbody.spelled]
  · rw [Derivation.yield_count, hayield, hbyield, heyield, hyield, Stmt.printed]
  · rw [Stmt.bare, ← havalue, ← hbvalue, ← hevalue, ← hvalue]
    rfl
  · cases direction <;> exact Kind.ends_of_not_continues (by decide)
  · rw [heyield]
    refine hbgreedy _ ?_
    cases step with
    | none => exact hdo
    | some expr =>
      show (Kind.keyword .kwStep).Ends (some .logicalOr)
      exact Kind.ends_of_not_continues (by decide)
  · exact hegreedy _ (fun _ => hdo) (by decide)
  · exact hgreedy _ rfl

theorem printable_each {var : String} {first : Expr} {rest : List Expr} {body : Block}
    (hname : IsName var) (hfirst : first.Buildable) (hrest : BuildableArguments rest)
    (hlength : (first :: rest).length ≤ maxLinks) (hbody : body.Printable) (span : Span) :
    (Stmt.each var (first :: rest) body span).Printable := by
  have hsimple := (first.printable hfirst).simple
  have hmore := printableMore rest hrest
  have hends := hmore.ends
  obtain ⟨a, hayield, havalue, habounded, hagreedy⟩ := hsimple.derived
  obtain ⟨hspelled, m, hmyield, hmvalue, hmbounded, hmlength, hmgreedy⟩ := hmore
  obtain ⟨d, hyield, hvalue, hbounded, hgreedy⟩ := hbody.derived
  refine ⟨?_, .each var a m d, ?_, ?_, ⟨⟨habounded, hmbounded, ?_⟩, hbounded⟩,
    fun _ _ _ => ⟨?_, hmgreedy, hgreedy _ rfl⟩⟩
  · rw [Stmt.printed, printedArguments]
    simp [spelled_word, spelled_symbol, spelled_identifier hname, hsimple.spelled, hspelled,
      hbody.spelled]
  · rw [Derivation.yield_each, hayield, hmyield, hyield, Stmt.printed, printedArguments]
    simp
  · rw [Stmt.bare, bareArguments, ← havalue, ← hmvalue, ← hvalue]
    rfl
  · rw [hmlength]
    exact hlength
  · rw [hmyield]
    exact hagreedy _ hends

theorem printable_leave (span : Span) : (Stmt.leave span).Printable := by
  refine ⟨?_, .leave, rfl, rfl, trivial, fun _ _ _ => trivial⟩
  rw [Stmt.printed]
  simp [spelled_word]

theorem printable_skip (span : Span) : (Stmt.skip span).Printable := by
  refine ⟨?_, .skip, rfl, rfl, trivial, fun _ _ _ => trivial⟩
  rw [Stmt.printed]
  simp [spelled_word]

theorem printable_nothing : Otherwise.Printable .nothing :=
  ⟨nofun, .nothing, rfl, rfl, trivial, by decide, by decide⟩

theorem printable_last {body : Block} (hbody : body.Printable) :
    (Otherwise.last body).Printable := by
  obtain ⟨d, hyield, hvalue, hbounded, hgreedy⟩ := hbody.derived
  refine ⟨?_, .last d, ?_, ?_, hbounded, hgreedy _ rfl⟩
  · rw [Otherwise.printed]
    simp [spelled_word, hbody.spelled]
  · rw [Derivation.yield_last, hyield, Otherwise.printed]
  · rw [Otherwise.bare, ← hvalue]
    rfl

theorem printable_elseIf {cond : Expr} {body : Block} {rest : Otherwise} (hcond : cond.Buildable)
    (hbody : body.Printable) (hrest : rest.Printable) :
    (Otherwise.elseIf cond body rest).Printable := by
  obtain ⟨hspelled, c, hcyield, hcvalue, hcbounded, hcgreedy⟩ := printable_group cond hcond
  obtain ⟨d, hyield, hvalue, hbounded, hgreedy⟩ := hbody.derived
  obtain ⟨r, hryield, hrvalue, hrbounded, hrgreedy⟩ := hrest.derived
  refine ⟨?_, .elseIf c d r, ?_, ?_, ⟨⟨hcbounded, hbounded⟩, hrbounded⟩,
    hcgreedy _, hgreedy _ ?_, hrgreedy⟩
  · rw [Otherwise.printed]
    simp [spelled_word, spelled_symbol, hspelled, hbody.spelled, hrest.spelled]
  · rw [Derivation.yield_elseIf, hcyield, hyield, hryield, Otherwise.printed]
    simp
  · rw [Otherwise.bare, ← hcvalue, ← hvalue, ← hrvalue]
    rfl
  · rw [hryield]
    exact ahead_printed_otherwise rest

/-! ### All statements -/

mutual

/-- The terminals of every statement that a parser can build have a derivation for it, if no
statement inside runs into the next. -/
theorem Stmt.printable : (stmt : Stmt) → stmt.Buildable → stmt.Apart → stmt.Printable
  | .function _ _ body span, ⟨hname, hparams, hbody, hlength⟩, hapart =>
    printable_function hname hparams (printableStmts body hbody hapart hlength) span
  | .var _ init span, h, _ =>
    printable_var h.1 (printableOptional (spelled_symbol .assign) init h.2) span
  | .expr _ span, h, _ => printable_expr h span
  | .scope body span, h, hapart => printable_scope (body.printable h hapart) span
  | .branch _ body otherwise span, ⟨hcond, hbody, hotherwise⟩, hapart =>
    printable_branch hcond (body.printable hbody hapart.1)
      (otherwise.printable hotherwise hapart.2) span
  | .loop _ body span, h, hapart => printable_loop h.1 (body.printable h.2 hapart) span
  | .count _ _ _ direction _ body span, ⟨hname, hstart, hstop, hstep, hbody⟩, hapart =>
    printable_count hname hstart hstop hstep (body.printable hbody hapart) direction span
  | .each _ [] _ _, h, _ => absurd rfl h.2.1
  | .each _ (_ :: _) body span, ⟨hname, _, hargs, hlength, hbody⟩, hapart =>
    printable_each hname hargs.1 hargs.2 hlength (body.printable hbody hapart) span
  | .leave span, _, _ => printable_leave span
  | .skip span, _, _ => printable_skip span

theorem Block.printable : (body : Block) → body.Buildable → body.Apart → body.Printable
  | .mk stmts span, h, hapart => (printableStmts stmts h.1 hapart h.2).block span

theorem Otherwise.printable : (rest : Otherwise) → rest.Buildable → rest.Apart → rest.Printable
  | .nothing, _, _ => printable_nothing
  | .last body, h, hapart => printable_last (body.printable h hapart)
  | .elseIf _ body rest, ⟨hcond, hbody, hrest⟩, hapart =>
    printable_elseIf hcond (body.printable hbody hapart.1) (rest.printable hrest hapart.2)

theorem printableStmts : (stmts : List Stmt) → BuildableStmts stmts → ApartStmts stmts →
    stmts.length ≤ maxStatements → PrintableStmts stmts
  | [], _, _, _ => printableStmts_nil
  | stmt :: rest, h, ⟨hstmt, hrest, hapart⟩, hlength =>
    printableStmts_cons (stmt.printable h.1 hstmt)
      (printableStmts rest h.2 hrest (Nat.le_of_succ_le hlength)) hlength hapart

end

/-! ### Scripts -/

/-- **Printing then parsing gives the tree back.**  Of every script that a parser can build,
and in which no statement runs into the next, the printed text parses to the script apart
from spans, whenever the depth is not limited too much. -/
theorem parse_print (program : Program) (h : program.Buildable) (hapart : program.Apart) :
    ∃ depth, ∀ maxDepth, depth ≤ maxDepth → ∃ again,
      Program.parse maxDepth program.print = .ok again ∧ again.bare = program.bare := by
  have hstmts := printableStmts program.stmts h.1 hapart h.2
  obtain ⟨d, hyield, hvalue, -, hbounded, hgreedy⟩ := hstmts.derived
  obtain ⟨tokens, mark, hpulls, hterminals, hmark, hstop⟩ := pulls_spaced hstmts.spelled
  have hlexes : Lexes program.print tokens mark := ⟨hpulls, hmark⟩
  have hd : Derives tokens d := ⟨hyield.trans hterminals.symm, hgreedy _ rfl⟩
  refine ⟨d.need + 1, fun maxDepth hdepth => ?_⟩
  obtain ⟨stmts, hparse⟩ := hd.parse_of_fits hlexes ⟨hbounded, hdepth⟩
  have hend : program.print.utf8ByteSize ≤ mark.span.stop := Nat.le_of_eq hstop.symm
  rw [if_pos hend] at hparse
  refine ⟨_, hparse, ?_⟩
  -- The parser found a derivation too, and there is only one.
  obtain ⟨-, d', hd', hbare⟩ := derives_of_parse hlexes hparse
  rw [hbare, hd.eq hd', hvalue]
  rfl

/-- A call of what `a.b` gives, at an index that starts with a sign, and an assignment. -/
def memberCall : Program where
  stmts := [
    .var "x" (some (.dot
      (.call (.dot (.identifier "a" .origin) (.named "b") .none .origin)
        [.number "1" .origin] false .origin) .callResult
      (.entry .absolute (.unary .minus (.number "2" .origin) .origin)) .origin)) .origin,
    .expr (.assign (.identifier "x" .origin)
      (.binary .mul (.binary .add (.number "1" .origin) (.identifier "x" .origin) .origin)
        (.string "\"\"" .origin) .origin) .origin) .origin]
  span := .origin

theorem parse_print_memberCall :
    memberCall.Buildable ∧ memberCall.Apart ∧
      memberCall.print = "var x = ( a . b ) ( 1 ) [ ( - 2 ) ] x = ( 1 + x ) * \"\"" ∧
      ∃ depth, ∀ maxDepth, depth ≤ maxDepth → ∃ again,
        Program.parse maxDepth memberCall.print = .ok again ∧ again.bare = memberCall.bare := by
  have ha : IsName "a" := ⟨_, _, rfl, rfl⟩
  have hb : IsName "b" := ⟨_, _, rfl, rfl⟩
  have hx : IsName "x" := ⟨_, _, rfl, rfl⟩
  have hone : IsLexeme .number "1" := ⟨_, _, rfl, rfl⟩
  have htwo : IsLexeme .number "2" := ⟨_, _, rfl, rfl⟩
  have hquotes : IsLexeme .string "\"\"" := ⟨_, _, rfl, rfl⟩
  have hmember : (Expr.dot (.identifier "a" .origin) (.named "b") .none .origin).Buildable :=
    ⟨ha, trivial, hb, by decide⟩
  have hbuildable : memberCall.Buildable :=
    ⟨⟨⟨hx, ⟨rfl, hmember, by decide, ⟨hone, trivial⟩, by decide⟩, htwo, rfl, rfl⟩,
      ⟨hx, ⟨hone, hx⟩, hquotes⟩, trivial⟩, by decide⟩
  have hapart : memberCall.Apart := ⟨trivial, ⟨trivial, trivial, fun _ => rfl⟩, fun _ => rfl⟩
  exact ⟨hbuildable, hapart, rfl, parse_print memberCall hbuildable hapart⟩

end FormCalc
