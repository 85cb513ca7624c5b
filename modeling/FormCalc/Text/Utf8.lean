/-!
# UTF-8

A strict reader of UTF-8.  It takes the longest character at a time and refuses at the
first place where the bytes can form none: either some bytes stand there that no
character starts with, or the text stops inside a character.
-/

namespace FormCalc.Text.Utf8

/-- Why bytes are no UTF-8 text. -/
inductive Error where
  /-- The `length` bytes at `index` start no character. -/
  | invalid (length index : Nat)
  /-- The text stops inside the character that starts at `index`. -/
  | incomplete (index : Nat)
  deriving DecidableEq, Repr

/-- What is said about bytes that are no UTF-8 text. -/
def Error.message : Error → String
  | .invalid length index =>
    "invalid utf-8 sequence of " ++ toString length ++ " bytes from index " ++ toString index
  | .incomplete index => "incomplete utf-8 byte sequence from index " ++ toString index

/-- How many bytes a character takes that starts with this byte. -/
def width? (lead : UInt8) : Option Nat :=
  if lead < 0x80 then some 1
  else if lead < 0xC2 then none
  else if lead < 0xE0 then some 2
  else if lead < 0xF0 then some 3
  else if lead < 0xF5 then some 4
  else none

/-- Whether a byte continues a character. -/
def isTail (b : UInt8) : Bool := 0x80 ≤ b && b ≤ 0xBF

/-- Whether `b` may follow the first byte of a character of three or four bytes.  The
exceptions rule out forms that are too long, surrogates, and what lies above U+10FFFF. -/
def isSecond (lead b : UInt8) : Bool :=
  if lead == 0xE0 then 0xA0 ≤ b && b ≤ 0xBF
  else if lead == 0xED then 0x80 ≤ b && b ≤ 0x9F
  else if lead == 0xF0 then 0x90 ≤ b && b ≤ 0xBF
  else if lead == 0xF4 then 0x80 ≤ b && b ≤ 0x8F
  else isTail b

/-- The character with the given leading bits and the low six bits of the bytes after. -/
def assemble (lead : Nat) (tails : List UInt8) : Char :=
  Char.ofNat (tails.foldl (fun n b => n * 64 + (b.toNat - 0x80)) lead)

/-- Reads bytes as UTF-8.  `index` is the place of the first of them in the whole text. -/
def decodeFrom (index : Nat) : List UInt8 → Except Error (List Char)
  | [] => .ok []
  | a :: rest =>
    match width? a with
    | none => .error (.invalid 1 index)
    | some 1 => (decodeFrom (index + 1) rest).map (assemble a.toNat [] :: ·)
    | some 2 =>
      match rest with
      | [] => .error (.incomplete index)
      | b :: rest =>
        if !isTail b then .error (.invalid 1 index)
        else (decodeFrom (index + 2) rest).map (assemble (a.toNat - 0xC0) [b] :: ·)
    | some 3 =>
      match rest with
      | [] => .error (.incomplete index)
      | b :: rest =>
        if !isSecond a b then .error (.invalid 1 index)
        else match rest with
          | [] => .error (.incomplete index)
          | c :: rest =>
            if !isTail c then .error (.invalid 2 index)
            else (decodeFrom (index + 3) rest).map (assemble (a.toNat - 0xE0) [b, c] :: ·)
    | some _ =>
      match rest with
      | [] => .error (.incomplete index)
      | b :: rest =>
        if !isSecond a b then .error (.invalid 1 index)
        else match rest with
          | [] => .error (.incomplete index)
          | c :: rest =>
            if !isTail c then .error (.invalid 2 index)
            else match rest with
              | [] => .error (.incomplete index)
              | d :: rest =>
                if !isTail d then .error (.invalid 3 index)
                else (decodeFrom (index + 4) rest).map (assemble (a.toNat - 0xF0) [b, c, d] :: ·)

/-- The text that bytes hold, or the first place where they hold none. -/
def decode (bytes : List UInt8) : Except Error String :=
  (decodeFrom 0 bytes).map String.ofList

end FormCalc.Text.Utf8
