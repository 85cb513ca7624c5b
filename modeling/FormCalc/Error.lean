import FormCalc.Output.Draft
import FormCalc.Tree.Cursor

/-!
# Errors

Why a script does not compile, with the wording and the stable code of every cause.
-/

namespace FormCalc

/-- Why a script does not compile. -/
inductive Cause where
  | grammar (cause : GrammarCause)
  | output (cause : OutputCause)
  deriving DecidableEq, Repr

/-- A cause with the place in the script. -/
abbrev Error := Fault Cause

/-! ### Wording -/

/-- A number in upper-case hexadecimal, with at least four digits. -/
def hexadecimal (n : Nat) : String :=
  let digits := (Nat.toDigits 16 n).map Char.toUpper
  String.ofList (List.replicate (4 - digits.length) '0' ++ digits)

/-- What is said about a lexical fault. -/
def LexicalCause.message : LexicalCause → String
  | .invalidCharacter code => "invalid character U+" ++ hexadecimal code
  | .unexpectedCharacter c => "unexpected character `" ++ c.toString ++ "`"
  | .unterminatedString => "unterminated string literal"
  | .malformedNumber => "malformed number literal"

/-- What is said about tokens that form no script. -/
def GrammarCause.message : GrammarCause → String
  | .lexical cause => cause.message
  | .unexpectedToken expected found => "expected " ++ expected.shown ++ ", found " ++ found.shown
  | .expectedExpression found => "expected an expression, found " ++ found.shown
  | .emptyParens => "parentheses must contain an expression"
  | .tooDeep limit => "nesting exceeds the maximum parse depth of " ++ toString limit
  | .tooManyArguments limit => "more than " ++ toString limit ++ " arguments"
  | .chainTooLong limit => "accessor chain longer than " ++ toString limit ++ " links"
  | .tooManyExpressions limit => "more than " ++ toString limit ++ " expressions in one list"
  | .trailingInput found => "unexpected " ++ found.shown ++ " after the last expression"

/-- What is said about a tree that cannot be written. -/
def OutputCause.message : OutputCause → String
  | .tooDeep limit => "generated code exceeds the maximum nesting depth of " ++ toString limit
  | .tooLarge limit =>
    "generated code exceeds the size limit of " ++ toString limit ++ " bytes"
  | .unknownFunction name => "`" ++ name ++ "` is not a built-in function"

/-- What is said about a script that does not compile. -/
def Cause.message : Cause → String
  | .grammar cause => cause.message
  | .output cause => cause.message

/-! ### Codes -/

/-- The code of a class of causes. -/
inductive Code where
  | invalidCharacter | unexpectedCharacter | unterminatedString | malformedNumber
  | unexpectedToken | emptyParens | parseTooDeep | tooManyArguments | chainTooLong
  | tooManyExpressions | trailingInput | codegenTooDeep | outputTooLarge | unknownFunction
  deriving DecidableEq, Repr

/-- Every code. -/
def Code.all : List Code :=
  [.invalidCharacter, .unexpectedCharacter, .unterminatedString, .malformedNumber,
   .unexpectedToken, .emptyParens, .parseTooDeep, .tooManyArguments, .chainTooLong,
   .tooManyExpressions, .trailingInput, .codegenTooDeep, .outputTooLarge, .unknownFunction]

/-- The spelling of a code, which never changes. -/
def Code.text : Code → String
  | .invalidCharacter => "FORMCALC_INVALID_CHARACTER"
  | .unexpectedCharacter => "FORMCALC_UNEXPECTED_CHARACTER"
  | .unterminatedString => "FORMCALC_UNTERMINATED_STRING"
  | .malformedNumber => "FORMCALC_MALFORMED_NUMBER"
  | .unexpectedToken => "FORMCALC_UNEXPECTED_TOKEN"
  | .emptyParens => "FORMCALC_EMPTY_PARENS"
  | .parseTooDeep => "FORMCALC_PARSE_TOO_DEEP"
  | .tooManyArguments => "FORMCALC_TOO_MANY_ARGUMENTS"
  | .chainTooLong => "FORMCALC_CHAIN_TOO_LONG"
  | .tooManyExpressions => "FORMCALC_TOO_MANY_EXPRESSIONS"
  | .trailingInput => "FORMCALC_TRAILING_INPUT"
  | .codegenTooDeep => "FORMCALC_CODEGEN_TOO_DEEP"
  | .outputTooLarge => "FORMCALC_OUTPUT_TOO_LARGE"
  | .unknownFunction => "FORMCALC_UNKNOWN_FUNCTION"

/-- The code of a lexical fault. -/
def LexicalCause.code : LexicalCause → Code
  | .invalidCharacter _ => .invalidCharacter
  | .unexpectedCharacter _ => .unexpectedCharacter
  | .unterminatedString => .unterminatedString
  | .malformedNumber => .malformedNumber

/-- The code of a grammatical fault.  A missing expression counts as an unexpected
token. -/
def GrammarCause.code : GrammarCause → Code
  | .lexical cause => cause.code
  | .unexpectedToken _ _ | .expectedExpression _ => .unexpectedToken
  | .emptyParens => .emptyParens
  | .tooDeep _ => .parseTooDeep
  | .tooManyArguments _ => .tooManyArguments
  | .chainTooLong _ => .chainTooLong
  | .tooManyExpressions _ => .tooManyExpressions
  | .trailingInput _ => .trailingInput

/-- The code of a fault in writing. -/
def OutputCause.code : OutputCause → Code
  | .tooDeep _ => .codegenTooDeep
  | .tooLarge _ => .outputTooLarge
  | .unknownFunction _ => .unknownFunction

/-- The code of a cause. -/
def Cause.code : Cause → Code
  | .grammar cause => cause.code
  | .output cause => cause.code

end FormCalc
