import FormCalc.Token.Lexeme

/-!
# Reading tokens in order

A lexer holds the script that is left and gives one token at a time.  Its first fault is
final: from then on every call gives the mark of a failed scan at the place of the fault
and nothing moves.

* `Lexer.next`: the next token and the lexer after it.
* `Lexer.pulls`: what the calls give up to the first end mark or the fault.
-/

namespace FormCalc

/-- The script that is left, the offset at which it starts, and the fault that stopped
the lexer, if any. -/
structure Lexer where
  pos : Nat
  rest : List Char
  fault : Option (Fault LexicalCause)

/-- The fault behind a trouble, for a lexeme read from `start` to `stop`. -/
def Trouble.toFault (start stop : Nat) : Trouble → Fault LexicalCause
  | .invalid c => ⟨.invalidCharacter c.toNat, ⟨stop, stop + c.utf8Size⟩⟩
  | .unexpected c => ⟨.unexpectedCharacter c, ⟨stop, stop + c.utf8Size⟩⟩
  | .unterminated => ⟨.unterminatedString, ⟨start, stop⟩⟩
  | .malformed letter => ⟨.malformedNumber, ⟨start, stop + letter.utf8Size⟩⟩

namespace Lexer

/-- The lexer at the start of a script. -/
def ofText (text : String) : Lexer := ⟨0, text.toList, none⟩

/-- Whether the whole script has been read. -/
def isComplete (lexer : Lexer) : Bool := lexer.rest.isEmpty

/-- The mark that stands for every token from a fault on. -/
def failed (fault : Fault LexicalCause) : Token := ⟨.invalid, "", fault.span⟩

/-- Skips layout and reads one token. -/
def next (lexer : Lexer) : Token × Lexer :=
  match lexer.fault with
  | some fault => (failed fault, lexer)
  | none =>
    let (gap, rest) := layout false lexer.rest
    let start := lexer.pos + utf8Length gap
    match rest with
    | [] => (⟨.endOfInput, "", .emptyAt start⟩, ⟨start, [], none⟩)
    | c :: cs =>
      let lexeme := Lexeme.read c cs
      let stop := start + utf8Length lexeme.text
      match lexeme.verdict with
      | .ok kind =>
        (⟨kind, String.ofList lexeme.text, ⟨start, stop⟩⟩, ⟨stop, lexeme.rest, none⟩)
      | .error trouble =>
        let fault := trouble.toFault start stop
        (failed fault, ⟨stop, lexeme.rest, some fault⟩)

/-- What `count` calls of `next` give, up to the first end mark or the fault. -/
def pullsWithin : Nat → Lexer → List (Except (Fault LexicalCause) Token)
  | 0, _ => []
  | count + 1, lexer =>
    let (token, after) := lexer.next
    match after.fault with
    | some fault => [.error fault]
    | none =>
      if token.kind = .endOfInput then [.ok token]
      else .ok token :: pullsWithin count after

/-- The tokens up to the first end mark, or up to the fault that comes before one.  Every
other token takes at least one character, so the script bounds the number of calls. -/
def pulls (lexer : Lexer) : List (Except (Fault LexicalCause) Token) :=
  pullsWithin (lexer.rest.length + 1) lexer

end Lexer

end FormCalc
