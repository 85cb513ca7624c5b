import FormCalc.Text.Span

/-!
# Lines and columns

Diagnostics show a byte offset as a line and a column.  A line ends at a line feed, at a
carriage return, or at the two in this order, which count as one terminator.

* `LineIndex.ofText`: the offsets at which the lines of a text start.
* `LineIndex.position`: the line that an offset falls into, and its column there.
-/

namespace FormCalc

/-- A line and a column, both counted from one.  Columns count characters, not bytes.  Like
offsets they have no largest number, and fit in 32 bits for a text shorter than `2 ^ 32 - 1`
bytes. -/
structure Position where
  line : Nat
  column : Nat
  deriving DecidableEq, Repr, Inhabited

/-- Whether the line ends with the character `c`, given the text after it.  A carriage
return before a line feed does not end the line: the line feed does. -/
def endsLine (c : Char) (after : List Char) : Bool :=
  c == '\n' || (c == '\r' && after.head? != some '\n')

/-- The offsets right after the line terminators of a text that starts at `offset`. -/
def lineBreaks (offset : Nat) : List Char → List Nat
  | [] => []
  | c :: cs =>
    if endsLine c cs then
      (offset + c.utf8Size) :: lineBreaks (offset + c.utf8Size) cs
    else
      lineBreaks (offset + c.utf8Size) cs

/-- How many characters fill the first `n` bytes exactly.  There is no such number when
byte `n` falls inside a character or behind the end. -/
def charsWithin : Nat → List Char → Option Nat
  | 0, _ => some 0
  | _ + 1, [] => none
  | n + 1, c :: cs =>
    if c.utf8Size ≤ n + 1 then (charsWithin (n + 1 - c.utf8Size) cs).map (· + 1) else none

/-- The text after its first `n` bytes, for an `n` between two characters. -/
def dropBytes : Nat → List Char → List Char
  | 0, cs => cs
  | _ + 1, [] => []
  | n + 1, c :: cs => dropBytes (n + 1 - c.utf8Size) cs

/-- A text with the offsets at which its lines start, in their order. -/
structure LineIndex where
  text : List Char
  starts : List Nat

namespace LineIndex

/-- The index of a text.  The first line starts at offset zero. -/
def ofText (text : String) : LineIndex :=
  ⟨text.toList, 0 :: lineBreaks 0 text.toList⟩

/-- How many lines the text has. -/
def lineCount (index : LineIndex) : Nat := index.starts.length

/-- The position of a byte offset.  An offset behind the end counts as the end, and one
inside a character as the start of its line. -/
def position (index : LineIndex) (offset : Nat) : Position :=
  let offset := min offset (utf8Length index.text)
  let upTo := index.starts.takeWhile (· ≤ offset)
  let start := upTo.getLastD 0
  let column := (charsWithin (offset - start) (dropBytes start index.text)).getD 0
  ⟨upTo.length, column + 1⟩

end LineIndex

end FormCalc
