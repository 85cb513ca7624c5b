import FormCalc.Compile
import FormCalc.Proofs.Grammar.Correctness
import FormCalc.Proofs.Grammar.Relocated
import FormCalc.Proofs.Output.Relocated
import FormCalc.Proofs.Token.Layout

/-!
# What does not matter to a compilation

Two things can be changed about a compilation that its outcome does not show.

* Looser limits give the same outcome, unless one of the limits was broken
  (`compile_loosens`).
* Other layout between the same tokens gives the same outcome, but for the places of faults
  (`compile_laidOut`).

For layout, `compileFaces` compiles tokens that stand nowhere.  A text that lexes to tokens of
these kinds and texts compiles in the same way (`LexesTo.compile_eq`), so two such texts do.
-/

namespace FormCalc

open FormCalc.Parser

/-! ### Looser limits -/

/-- Whether options are nowhere looser than others. -/
structure Options.Within (options options' : Options) : Prop where
  maxParseDepth : options.maxParseDepth ≤ options'.maxParseDepth
  output : options.output.Within options'.output

/-- What is said of a script that breaks one of the limits in the options. -/
def Options.causes (options : Options) : List Cause :=
  [.grammar (.tooDeep options.maxParseDepth), .output (.tooDeep options.output.maxDepth),
    .output (.tooLarge options.output.maxLength)]

/-- **Limits only refuse.**  With options that are nowhere looser, a compilation ends with a
broken limit, or it comes to the very same outcome: the same JavaScript, or the same error at
the same place. -/
theorem compile_loosens {options options' : Options} (h : options.Within options')
    (text : String) :
    (∃ fault, compile options text = .error fault ∧ fault.cause ∈ options.causes) ∨
      compile options text = compile options' text := by
  unfold compile
  rcases Program.parse_loosens h.maxParseDepth text with ⟨fault, hparse, hcause⟩ | hparse
  · left
    rw [hparse]
    refine ⟨_, rfl, ?_⟩
    rw [Fault.map_cause, hcause]
    exact List.mem_cons_self
  · rw [← hparse]
    cases Program.parse options.maxParseDepth text with
    | error fault => exact .inr rfl
    | ok program =>
      dsimp only
      rcases program.write_loosens h.output with ⟨fault, hwrite, hcause⟩ | hwrite
      · left
        rw [hwrite]
        exact ⟨_, rfl, List.mem_cons_of_mem _ (List.mem_map_of_mem hcause)⟩
      · exact .inr (by rw [hwrite])

/-- A sum is compiled in the same way with more room, and a nested one is refused without it. -/
theorem compile_loosens_sum :
    Options.Within { maxParseDepth := 16 } { maxParseDepth := 40 } ∧
      compile { maxParseDepth := 16 } "1 + a" = compile { maxParseDepth := 40 } "1 + a" ∧
      ∃ fault, compile { maxParseDepth := 16 } "1 + (a)" = .error fault ∧
        fault.cause ∈ Options.causes { maxParseDepth := 16 } := by
  have hwithin : Options.Within { maxParseDepth := 16 } { maxParseDepth := 40 } :=
    ⟨by decide, Nat.le_refl _, Nat.le_refl _⟩
  refine ⟨hwithin, ?_, ?_⟩
  · rcases compile_loosens hwithin "1 + a" with ⟨fault, herror, -⟩ | hsame
    · have hok : (compile { maxParseDepth := 16 } "1 + a").isOk = true := by decide +kernel
      rw [herror] at hok
      cases hok
    · exact hsame
  · rcases compile_loosens hwithin "1 + (a)" with hbroken | hsame
    · exact hbroken
    · have hfails : (compile { maxParseDepth := 16 } "1 + (a)").isOk = false := by decide +kernel
      have hok : (compile { maxParseDepth := 40 } "1 + (a)").isOk = true := by decide +kernel
      rw [hsame, hok] at hfails
      cases hfails

/-! ### Other layout -/

/-- Tells no two places apart. -/
def nowhere (_ : Nat) : Nat := 0

theorem monotone_nowhere : Monotone nowhere := fun _ _ _ => Nat.le_refl 0

/-- A token of this kind and text that stands nowhere. -/
def faceToken (face : Kind × String) : Token := ⟨face.1, face.2, .origin⟩

/-- The cursor at the first of some tokens that stand nowhere. -/
def Cursor.ofFaces : List (Kind × String) → Cursor
  | [] => ⟨endMark 0, [], .origin⟩
  | face :: faces => ⟨faceToken face, faces.map (.ok ∘ faceToken) ++ [.ok (endMark 0)], .origin⟩

/-- The tree of tokens that stand nowhere, or why they form no script. -/
def Program.ofFaces (maxDepth : Nat) (faces : List (Kind × String)) :
    Except GrammarCause Program :=
  match Grammar.statements maxDepth (maxDepth - 1) (Cursor.ofFaces faces) with
  | .error fault => .error fault.cause
  | .ok (stmts, k) =>
    if k.current.kind = .endOfInput then .ok ⟨stmts, .origin⟩
    else .error (.trailingInput k.current.kind)

/-- The JavaScript of tokens that stand nowhere, or why there is none. -/
def compileFaces (options : Options) (faces : List (Kind × String)) : Except Cause String :=
  match Program.ofFaces options.maxParseDepth faces with
  | .error cause => .error (.grammar cause)
  | .ok program => (program.write options.output).mapError fun fault => .output fault.cause

namespace LexesTo

variable {text : String} {faces : List (Kind × String)}

/-- The parser steps onto the first token, and sees the tokens in front of it. -/
theorem advance_start (h : LexesTo text faces) :
    ∃ token k, advance (Cursor.start (Lexer.ofText text).pulls) = .ok (token, k) ∧
      k.relocate nowhere = Cursor.ofFaces faces := by
  obtain ⟨tokens, hpulls, rfl⟩ := h
  rw [hpulls]
  cases tokens with
  | nil => exact ⟨_, _, rfl, rfl⟩
  | cons token tokens =>
    have hrest : List.map (relocatePull nowhere)
        (tokens.map .ok ++ [.ok (endMark text.utf8ByteSize)]) =
          (tokens.map Token.face).map (.ok ∘ faceToken) ++ [.ok (endMark 0)] := by
      rw [List.map_append, List.map_map, List.map_map]
      rfl
    exact ⟨_, _, rfl, congrArg (Cursor.mk _ · _) hrest⟩

/-- Where the kind at hand ends the input, the text is at its end. -/
theorem at_end (h : LexesTo text faces) {token : Token} {k k' : Cursor} {maxDepth : Nat}
    {stmts : List Stmt} (hstart : advance (Cursor.start (Lexer.ofText text).pulls) = .ok (token, k))
    (hstmts : Grammar.statements maxDepth (maxDepth - 1) k = .ok (stmts, k'))
    (hkind : k'.current.kind = .endOfInput) : text.utf8ByteSize ≤ k'.current.span.stop := by
  obtain ⟨tokens, hpulls, -⟩ := h
  have hlexes : Lexes text tokens (endMark text.utf8ByteSize) := ⟨hpulls, rfl⟩
  have hk := hlexes.tokens_of_start hstart
  have hmark := hlexes.at_mark (hk ▸ (Grammar.forward maxDepth _).statements.suffix hstmts) hkind
  obtain ⟨hcurrent, -⟩ := List.cons.inj hmark
  rw [hcurrent]
  exact Nat.le_refl _

/-- What a text parses to depends only on what its tokens are. -/
theorem parse_eq (h : LexesTo text faces) (maxDepth : Nat) :
    ((Program.parse maxDepth text).map (Program.relocate nowhere)).mapError Fault.cause =
      Program.ofFaces maxDepth faces := by
  obtain ⟨token, k, hstart, hk⟩ := h.advance_start
  -- no fault is excused, so the two runs over the statements agree
  have hfollows : Follows nowhere (fun _ => False) _ _ _ :=
    (Grammar.relocates monotone_nowhere maxDepth (maxDepth - 1)).statements
  rcases hfollows k with ⟨-, -, hexcused⟩ | hsame
  · exact hexcused.elim
  · rw [FormCalc.parse_eq hstart, Program.ofFaces, ← hk, hsame]
    cases hstmts : Grammar.statements maxDepth (maxDepth - 1) k with
    | error fault => rfl
    | ok result =>
      obtain ⟨stmts, k'⟩ := result
      dsimp only [relocateOutcome, Cursor.relocate, Token.relocate]
      by_cases hkind : k'.current.kind = .endOfInput
      · rw [if_pos hkind, if_pos ⟨hkind, h.at_end hstart hstmts hkind⟩]
        rfl
      · rw [if_neg hkind, if_neg fun hend => hkind hend.1]
        rfl

/-- What a text compiles to depends only on what its tokens are. -/
theorem compile_eq (h : LexesTo text faces) (options : Options) :
    (compile options text).mapError Fault.cause = compileFaces options faces := by
  rw [compile, compileFaces, ← h.parse_eq]
  cases Program.parse options.maxParseDepth text with
  | error fault => rfl
  | ok program =>
    dsimp only [Except.map, Except.mapError]
    rw [program.write_relocate monotone_nowhere]
    cases program.write options.output with
    | error fault => rfl
    | ok javascript => rfl

end LexesTo

/-- **Layout does not matter.**  Where the tokens of a text that lexes to its end are laid out in
another way, the text lexes to the same tokens, and under all options both texts compile to the
same JavaScript or fail for the same cause. -/
theorem compile_laidOut {text text' : String} {faces : List (Kind × String)}
    (h : LexesTo text faces) (hlaid : LaidOut false (faces.map Prod.snd) text'.toList) :
    LexesTo text' faces ∧ ∀ options, (compile options text').mapError Fault.cause =
      (compile options text).mapError Fault.cause := by
  have h' := h.of_laidOut hlaid
  refine ⟨h', fun options => ?_⟩
  rw [h'.compile_eq, h.compile_eq]

/-- A number behind an operator, with comments of both kinds around it. -/
theorem compile_laidOut_comments :
    LexesTo "x/1." [(.identifier, "x"), (.symbol .slash, "/"), (.number, "1.")] ∧
      LaidOut false ["x", "/", "1."] ";a\n x //b\r / 1. ;c".toList ∧
      LexesTo ";a\n x //b\r / 1. ;c" [(.identifier, "x"), (.symbol .slash, "/"), (.number, "1.")] ∧
      ∀ options, (compile options ";a\n x //b\r / 1. ;c").mapError Fault.cause =
        (compile options "x/1.").mapError Fault.cause := by
  have hlexes : LexesTo "x/1." [(.identifier, "x"), (.symbol .slash, "/"), (.number, "1.")] :=
    ⟨[⟨.identifier, "x", ⟨0, 1⟩⟩, ⟨.symbol .slash, "/", ⟨1, 2⟩⟩, ⟨.number, "1.", ⟨2, 4⟩⟩], rfl, rfl⟩
  have ha : IsComment ";a".toList := .of_all ⟨['a'], .inl rfl⟩ (by decide)
  have hb : IsComment "//b".toList := .of_all ⟨['b'], .inr rfl⟩ (by decide)
  have hc : IsComment ";c".toList := .of_all ⟨['c'], .inl rfl⟩ (by decide)
  have hlaid : LaidOut false ["x", "/", "1."] ";a\n x //b\r / 1. ;c".toList :=
    .token (.comment ha rfl (.blank rfl .nil)) (by simp)
      (.token (.blank rfl (.comment hb rfl (.blank rfl .nil))) (fun _ => ⟨' ', rfl, rfl⟩)
        (.token (.blank rfl .nil) (fun _ => ⟨' ', rfl, rfl⟩)
          (.finish (.comment (.blank rfl .nil) hc)
            fun _ d hd => by obtain rfl := Option.some.inj hd; rfl)))
  obtain ⟨hlexes', hcompile⟩ := compile_laidOut hlexes hlaid
  exact ⟨hlexes, hlaid, hlexes', hcompile⟩

end FormCalc
