/-!
# Spans

A place in a script is a byte offset into its UTF-8 text, and a stretch of it is a
half-open range of such offsets.  Every token, every node of a tree and every fault
carries one.  Offsets are natural numbers, of which none is the largest.  Kept in 32 bits
they are the same as long as the text is shorter than `2 ^ 32` bytes.

* `Span.cover`: the smallest span around two.
* `utf8Length`: how many bytes a list of characters takes, the unit of every offset.
-/

namespace FormCalc

/-- A range of byte offsets: `start` belongs to it, `stop` does not. -/
structure Span where
  start : Nat
  stop : Nat
  deriving DecidableEq, Repr, Inhabited

namespace Span

/-- The span of no bytes at an offset. -/
def emptyAt (offset : Nat) : Span := ⟨offset, offset⟩

/-- How many bytes a span takes. -/
def length (s : Span) : Nat := s.stop - s.start

/-- Whether a span takes no bytes. -/
def isEmpty (s : Span) : Bool := s.start == s.stop

/-- The smallest span that covers both. -/
def cover (a b : Span) : Span := ⟨min a.start b.start, max a.stop b.stop⟩

/-- The span at the start of the text, of no bytes. -/
def origin : Span := emptyAt 0

end Span

/-- The bytes a list of characters takes in UTF-8. -/
def utf8Length : List Char → Nat
  | [] => 0
  | c :: cs => c.utf8Size + utf8Length cs

@[simp] theorem utf8Length_nil : utf8Length [] = 0 := rfl

@[simp] theorem utf8Length_cons (c : Char) (cs : List Char) :
    utf8Length (c :: cs) = c.utf8Size + utf8Length cs := rfl

@[simp] theorem utf8Length_append (xs ys : List Char) :
    utf8Length (xs ++ ys) = utf8Length xs + utf8Length ys := by
  induction xs with
  | nil => simp
  | cons c cs ih => simp [ih, Nat.add_assoc]

end FormCalc
