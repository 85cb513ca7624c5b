import FormCalc.Text.Alphabetic
import FormCalc.Text.Numeric

/-!
# Characters of a script

Which characters a script may hold, and what they may be part of.
-/

namespace FormCalc.Text

/-- Whether a character may stand anywhere in a script: the blanks from tab to carriage
return, and everything from the space up to U+FFFD but the surrogates. -/
def isAllowed (c : Char) : Bool :=
  (0x09 ≤ c.toNat && c.toNat ≤ 0x0D) || (0x20 ≤ c.toNat && c.toNat ≤ 0xD7FF) ||
    (0xE000 ≤ c.toNat && c.toNat ≤ 0xFFFD)

/-- Whether a character ends a comment. -/
def isTerminator (c : Char) : Bool := c == '\n' || c == '\r'

/-- Whether a character only separates tokens. -/
def isBlank (c : Char) : Bool :=
  isTerminator c || c == '\t' || c == '\x0b' || c == '\x0c' || c == ' '

/-- Whether a character may start an identifier. -/
def isIdentifierStart (c : Char) : Bool := isAlphabetic c || c == '_' || c == '$' || c == '!'

/-- Whether a character may follow in an identifier. -/
def isIdentifierPart (c : Char) : Bool :=
  isAlphabetic c || isNumeric c || c == '_' || c == '$'

end FormCalc.Text
