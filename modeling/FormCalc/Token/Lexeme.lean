import FormCalc.Text.Character
import FormCalc.Token.Basic

/-!
# Lexemes

Reading one token off the front of a script.  Everything here works on lists of
characters and knows no offsets: a reader splits the list into what it took and what it
leaves, and gives its verdict.

* `layout`: blanks and comments, which only separate tokens.
* `numberText`, `quoted`, `symbolAt`: the shapes of numbers, strings and symbols.
* `Lexeme.read`: the lexeme at the front of a script.

No reader loses a character: `layout_append`, `numberText_append`, `Lexeme.quoted_append` and
the others say that what is taken and what is left make up the text, and
`Lexeme.read_append` joins them.
-/

namespace FormCalc

open Text

/-! ### Layout -/

/-- Whether a comment starts with the character `c`, given the text after it. -/
def startsComment (c : Char) (after : List Char) : Bool :=
  c == ';' || (c == '/' && after.head? == some '/')

/-- Splits off blanks and comments.  A comment reaches through its line terminator, and
`inside` tells whether one is open.  A character that no script may hold stops it. -/
def layout (inside : Bool) : List Char → List Char × List Char
  | [] => ([], [])
  | c :: cs =>
    if !isAllowed c then ([], c :: cs)
    else if inside then
      let (gap, rest) := layout (!isTerminator c) cs
      (c :: gap, rest)
    else if isBlank c || startsComment c cs then
      let (gap, rest) := layout (startsComment c cs) cs
      (c :: gap, rest)
    else ([], c :: cs)

theorem layout_append (inside : Bool) (cs : List Char) :
    (layout inside cs).1 ++ (layout inside cs).2 = cs := by
  induction cs generalizing inside with
  | nil => rfl
  | cons c cs ih =>
    rw [layout]
    split
    · rfl
    · split
      · simp [ih]
      · split
        · simp [ih]
        · rfl

/-! ### Verdicts -/

/-- What is wrong where a lexeme stops. -/
inductive Trouble where
  /-- The next character may not stand in a script. -/
  | invalid (c : Char)
  /-- The next character starts no lexeme. -/
  | unexpected (c : Char)
  /-- The script ended before the closing quote. -/
  | unterminated
  /-- A letter follows a number. -/
  | malformed (letter : Char)
  deriving DecidableEq, Repr

/-- What was read off the front, what is left, and the kind that was read or what is
wrong. -/
structure Lexeme where
  text : List Char
  rest : List Char
  verdict : Except Trouble Kind

namespace Lexeme

/-- The lexeme with some text taken before it. -/
def after (taken : List Char) (lexeme : Lexeme) : Lexeme :=
  { lexeme with text := taken ++ lexeme.text }

/-- A finished lexeme.  The character behind it must be one that a script may hold. -/
def ended (kind : Kind) (text rest : List Char) : Lexeme :=
  match rest with
  | [] => ⟨text, [], .ok kind⟩
  | c :: cs => ⟨text, c :: cs, if isAllowed c then .ok kind else .error (.invalid c)⟩

theorem ended_append (kind : Kind) (text rest : List Char) :
    (ended kind text rest).text ++ (ended kind text rest).rest = text ++ rest := by
  unfold ended
  split <;> rfl

end Lexeme

/-! ### Numbers -/

/-- Splits off a point and the digits behind it. -/
def fraction : List Char → List Char × List Char
  | '.' :: cs => ('.' :: cs.takeWhile Char.isDigit, cs.dropWhile Char.isDigit)
  | cs => ([], cs)

theorem fraction_append (cs : List Char) : (fraction cs).1 ++ (fraction cs).2 = cs := by
  unfold fraction
  split
  · simp
  · rfl

/-- Splits off the sign of an exponent. -/
def exponentSign : List Char → List Char × List Char
  | [] => ([], [])
  | c :: cs => if c == '+' || c == '-' then ([c], cs) else ([], c :: cs)

theorem exponentSign_append (cs : List Char) :
    (exponentSign cs).1 ++ (exponentSign cs).2 = cs := by
  unfold exponentSign
  split
  · rfl
  · split <;> rfl

/-- Splits off an exponent.  A mark without digits behind it is none. -/
def exponent : List Char → List Char × List Char
  | [] => ([], [])
  | c :: cs =>
    if c == 'e' || c == 'E' then
      let (sign, after) := exponentSign cs
      match after.takeWhile Char.isDigit with
      | [] => ([], c :: cs)
      | digits => (c :: sign ++ digits, after.dropWhile Char.isDigit)
    else ([], c :: cs)

theorem exponent_append (cs : List Char) : (exponent cs).1 ++ (exponent cs).2 = cs := by
  unfold exponent
  split
  · rfl
  · rename_i c cs
    split
    · have hsign := exponentSign_append cs
      dsimp only
      split
      · rfl
      · simp [hsign]
    · rfl

/-- Splits off a number: digits, a fraction and an exponent, each of which may be
missing. -/
def numberText (cs : List Char) : List Char × List Char :=
  let (point, afterPoint) := fraction (cs.dropWhile Char.isDigit)
  let (power, rest) := exponent afterPoint
  (cs.takeWhile Char.isDigit ++ point ++ power, rest)

theorem numberText_append (cs : List Char) : (numberText cs).1 ++ (numberText cs).2 = cs := by
  have hpoint := fraction_append (cs.dropWhile Char.isDigit)
  have hpower := exponent_append (fraction (cs.dropWhile Char.isDigit)).2
  simp only [numberText, List.append_assoc, hpower, hpoint, List.takeWhile_append_dropWhile]

/-- Whether a number starts here: at a digit, or at a point before one. -/
def startsNumber : List Char → Bool
  | '.' :: c :: _ => c.isDigit
  | c :: _ => c.isDigit
  | [] => false

/-- Reads a number, behind which no letter may stand. -/
def Lexeme.number (cs : List Char) : Lexeme :=
  let (text, rest) := numberText cs
  match rest with
  | [] => ⟨text, [], .ok .number⟩
  | c :: after =>
    ⟨text, c :: after, if isAlphabetic c then .error (.malformed c) else .ok .number⟩

theorem Lexeme.number_append (cs : List Char) : (number cs).text ++ (number cs).rest = cs := by
  have h := numberText_append cs
  unfold number
  dsimp only
  split
  · rename_i hrest
    simpa [hrest] using h
  · rename_i hrest
    simpa [hrest] using h

/-! ### Strings -/

/-- Reads a string after its opening quote.  A doubled quote stands for one quote inside
the string. -/
def Lexeme.quoted : List Char → Lexeme
  | [] => ⟨[], [], .error .unterminated⟩
  | '"' :: '"' :: cs => (quoted cs).after ['"', '"']
  | '"' :: cs => .ended .string ['"'] cs
  | c :: cs => if isAllowed c then (quoted cs).after [c] else ⟨[], c :: cs, .error (.invalid c)⟩

theorem Lexeme.quoted_append (cs : List Char) : (quoted cs).text ++ (quoted cs).rest = cs := by
  fun_induction quoted cs with
  | case1 => rfl
  | case2 cs ih => simpa [after] using ih
  | case3 cs _ => exact ended_append ..
  | case4 c cs _ _ hc ih => simpa [after] using ih
  | case5 => rfl

/-! ### Symbols -/

/-- The longest symbol at the front. -/
def symbolAt : List Char → Option Symbol
  | '(' :: _ => some .leftParen
  | ')' :: _ => some .rightParen
  | '[' :: _ => some .leftBracket
  | ']' :: _ => some .rightBracket
  | ',' :: _ => some .comma
  | '&' :: _ => some .ampersand
  | '|' :: _ => some .bar
  | '+' :: _ => some .plus
  | '-' :: _ => some .minus
  | '*' :: _ => some .star
  | '/' :: _ => some .slash
  | '=' :: '=' :: _ => some .equal
  | '=' :: _ => some .assign
  | '<' :: '=' :: _ => some .lessEqual
  | '<' :: '>' :: _ => some .unequal
  | '<' :: _ => some .less
  | '>' :: '=' :: _ => some .greaterEqual
  | '>' :: _ => some .greater
  | '.' :: '.' :: _ => some .dotDot
  | '.' :: '*' :: _ => some .dotStar
  | '.' :: '#' :: _ => some .dotHash
  | '.' :: _ => some .dot
  | _ => none

theorem append_drop_of_symbolAt {cs : List Char} {s : Symbol} (h : symbolAt cs = some s) :
    s.text.toList ++ cs.drop s.text.length = cs := by
  unfold symbolAt at h
  split at h <;> cases h <;> rfl

/-! ### One lexeme -/

/-- Reads a word: the identifier characters behind the first. -/
def Lexeme.word (c : Char) (cs : List Char) : Lexeme :=
  let part := fun c => isAllowed c && isIdentifierPart c
  let text := c :: cs.takeWhile part
  .ended (.ofWord (String.ofList text)) text (cs.dropWhile part)

theorem Lexeme.word_append (c : Char) (cs : List Char) :
    (word c cs).text ++ (word c cs).rest = c :: cs := by
  rw [word, ended_append]
  simp

/-- Reads the lexeme that starts with `c`, given the text after it. -/
def Lexeme.read (c : Char) (cs : List Char) : Lexeme :=
  if !isAllowed c then ⟨[], c :: cs, .error (.invalid c)⟩
  else if c == '"' then (quoted cs).after ['"']
  else if startsNumber (c :: cs) then .number (c :: cs)
  else match symbolAt (c :: cs) with
    | some s =>
      ⟨s.text.toList, (c :: cs).drop s.text.length, .ok (.symbol s)⟩
    | none =>
      if isIdentifierStart c then .word c cs
      else ⟨[], c :: cs, .error (.unexpected c)⟩

/-- **Nothing is lost**: what a lexeme takes and what it leaves are the whole text. -/
theorem Lexeme.read_append (c : Char) (cs : List Char) :
    (Lexeme.read c cs).text ++ (Lexeme.read c cs).rest = c :: cs := by
  unfold read
  split
  · rfl
  · split
    · rename_i hquote
      simpa [after, quoted_append] using (beq_iff_eq.mp hquote).symm
    · split
      · exact number_append (c :: cs)
      · split
        · rename_i s hs
          exact append_drop_of_symbolAt hs
        · split
          · exact word_append c cs
          · rfl

end FormCalc
