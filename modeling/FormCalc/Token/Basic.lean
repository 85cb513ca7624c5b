import FormCalc.Fault
import FormCalc.Token.Kind

/-!
# Tokens

A token is a kind with the stretch of script that spells it.  Where no token can be
read there is a lexical fault instead.
-/

namespace FormCalc

/-- A kind, the text that spells it and where that text stands.  The mark at the end of
the script and the mark of a failed scan have no text. -/
structure Token where
  kind : Kind
  text : String
  span : Span
  deriving DecidableEq, Repr

/-- Why no token can be read. -/
inductive LexicalCause where
  /-- The character may not stand in a script at all. -/
  | invalidCharacter (code : Nat)
  /-- The character is allowed but starts no token. -/
  | unexpectedCharacter (c : Char)
  /-- A string without its closing quote. -/
  | unterminatedString
  /-- A number with a letter right behind it. -/
  | malformedNumber
  deriving DecidableEq, Repr

end FormCalc
