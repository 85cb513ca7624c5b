import FormCalc.Text.Span

/-!
# UTF-16

Form documents carry their scripts as 16-bit units.  A unit stands for itself unless it
is a surrogate; a high surrogate and the low one after it stand for one character above
U+FFFF, and every other surrogate is unpaired.

* `decode`: the units as characters and unpaired surrogates.
* `text?`: the text, unless some surrogate is unpaired.
* `lossy`: the text with U+FFFD for each unpaired surrogate.
-/

namespace FormCalc.Text.Utf16

/-- Whether a unit is the first half of a pair. -/
def isHigh (u : UInt16) : Bool := 0xD800 ≤ u && u ≤ 0xDBFF

/-- Whether a unit is the second half of a pair. -/
def isLow (u : UInt16) : Bool := 0xDC00 ≤ u && u ≤ 0xDFFF

/-- The character of a pair. -/
def combine (high low : UInt16) : Char :=
  Char.ofNat (0x10000 + (high.toNat - 0xD800) * 0x400 + (low.toNat - 0xDC00))

/-- What a sequence of units holds: characters, and surrogates that have no partner. -/
def decode : List UInt16 → List (Except UInt16 Char)
  | [] => []
  | u :: rest =>
    if isHigh u then
      match rest with
      | [] => [.error u]
      | v :: after =>
        if isLow v then .ok (combine u v) :: decode after else .error u :: decode (v :: after)
    else if isLow u then .error u :: decode rest
    else .ok (Char.ofNat u.toNat) :: decode rest

/-- A surrogate without a partner, and the length in UTF-8 of the text before it, whatever
its size.  In 32 bits there is room for it as long as that text is shorter than `2 ^ 32`
bytes. -/
structure Unpaired where
  unit : UInt16
  offset : Nat
  deriving DecidableEq, Repr

/-- The characters up to the end, or the first unpaired surrogate.  The first item stands
`offset` bytes into the text. -/
def charsFrom (offset : Nat) : List (Except UInt16 Char) → Except Unpaired (List Char)
  | [] => .ok []
  | .ok c :: rest => (charsFrom (offset + c.utf8Size) rest).map (c :: ·)
  | .error u :: _ => .error ⟨u, offset⟩

/-- The text that units hold, or the first unpaired surrogate among them. -/
def text? (units : List UInt16) : Except Unpaired String :=
  (charsFrom 0 (decode units)).map String.ofList

/-- The text that units hold, with the replacement character for each unpaired surrogate. -/
def lossy (units : List UInt16) : String :=
  String.ofList ((decode units).map fun
    | .ok c => c
    | .error _ => Char.ofNat 0xFFFD)

end FormCalc.Text.Utf16
