/-!
# Kinds of token

A token is a symbol, a keyword, or one of the terminals: identifiers, numbers and
strings, whose text varies, the end of the input, and the mark that scanning leaves
where it fails.

* `Symbol.text`, `Keyword.text`: the one spelling of a symbol or keyword.
* `Kind.ofWord?`: the kind of a word that is not an identifier.  Words are matched
  exactly, so `IF` is an identifier.
* `Kind.startsExpression`, `Kind.endsList`: the two sets of kinds that steer the grammar.
-/

namespace FormCalc

/-- Punctuation and operators that are written in signs. -/
inductive Symbol where
  | leftParen | rightParen | leftBracket | rightBracket | comma
  | dot | dotDot | dotHash | dotStar
  | assign | equal | unequal | less | lessEqual | greater | greaterEqual
  | plus | minus | star | slash | ampersand | bar
  deriving DecidableEq, Repr

/-- Words with a meaning of their own.  The last five are reserved: no rule of the
grammar accepts them. -/
inductive Keyword where
  | kwEq | kwNe | kwLt | kwLe | kwGt | kwGe | kwAnd | kwOr | kwNot
  | kwDo | kwEnd | kwIf | kwThen | kwElseif | kwElse | kwEndif
  | kwWhile | kwEndwhile | kwFor | kwUpto | kwDownto | kwStep | kwEndfor
  | kwForeach | kwIn | kwFunc | kwEndfunc | kwVar | kwBreak | kwContinue | kwNull
  | kwReturn | kwExit | kwThrow | kwNan | kwInfinity
  deriving DecidableEq, Repr

/-- What a token is. -/
inductive Kind where
  | symbol (s : Symbol)
  | keyword (k : Keyword)
  | identifier
  | number
  | string
  | endOfInput
  /-- The mark that a scan leaves where it fails. -/
  | invalid
  deriving DecidableEq, Repr

/-- The spelling of a symbol. -/
def Symbol.text : Symbol → String
  | .leftParen => "("
  | .rightParen => ")"
  | .leftBracket => "["
  | .rightBracket => "]"
  | .comma => ","
  | .dot => "."
  | .dotDot => ".."
  | .dotHash => ".#"
  | .dotStar => ".*"
  | .assign => "="
  | .equal => "=="
  | .unequal => "<>"
  | .less => "<"
  | .lessEqual => "<="
  | .greater => ">"
  | .greaterEqual => ">="
  | .plus => "+"
  | .minus => "-"
  | .star => "*"
  | .slash => "/"
  | .ampersand => "&"
  | .bar => "|"

/-- The spelling of a keyword. -/
def Keyword.text : Keyword → String
  | .kwEq => "eq"
  | .kwNe => "ne"
  | .kwLt => "lt"
  | .kwLe => "le"
  | .kwGt => "gt"
  | .kwGe => "ge"
  | .kwAnd => "and"
  | .kwOr => "or"
  | .kwNot => "not"
  | .kwDo => "do"
  | .kwEnd => "end"
  | .kwIf => "if"
  | .kwThen => "then"
  | .kwElseif => "elseif"
  | .kwElse => "else"
  | .kwEndif => "endif"
  | .kwWhile => "while"
  | .kwEndwhile => "endwhile"
  | .kwFor => "for"
  | .kwUpto => "upto"
  | .kwDownto => "downto"
  | .kwStep => "step"
  | .kwEndfor => "endfor"
  | .kwForeach => "foreach"
  | .kwIn => "in"
  | .kwFunc => "func"
  | .kwEndfunc => "endfunc"
  | .kwVar => "var"
  | .kwBreak => "break"
  | .kwContinue => "continue"
  | .kwNull => "null"
  | .kwReturn => "return"
  | .kwExit => "exit"
  | .kwThrow => "throw"
  | .kwNan => "nan"
  | .kwInfinity => "infinity"

namespace Kind

/-- The spelling of a fixed token, or the name of a terminal. -/
def text : Kind → String
  | .symbol s => s.text
  | .keyword k => k.text
  | .identifier => "identifier"
  | .number => "number"
  | .string => "string"
  | .endOfInput => "end of input"
  | .invalid => "invalid input"

/-- The kind as messages show it: spellings are quoted, names of terminals are not. -/
def shown : Kind → String
  | .symbol s => "`" ++ s.text ++ "`"
  | .keyword k => "`" ++ k.text ++ "`"
  | kind => kind.text

/-- Whether the kind is a keyword. -/
def isKeyword : Kind → Bool
  | .keyword _ => true
  | _ => false

/-- Whether a token of this kind can begin an expression. -/
def startsExpression : Kind → Bool
  | .keyword .kwNull | .keyword .kwNot => true
  | .symbol .plus | .symbol .minus | .symbol .leftParen => true
  | .identifier | .number | .string => true
  | _ => false

/-- Whether a token of this kind closes a list of statements. -/
def endsList : Kind → Bool
  | .keyword .kwEndfunc | .keyword .kwEndif | .keyword .kwElseif | .keyword .kwElse => true
  | .keyword .kwEndwhile | .keyword .kwEndfor | .keyword .kwEnd => true
  | .endOfInput | .invalid => true
  | _ => false

/-- The words that are no identifiers, with their kinds.  The word `eof` ends the input
wherever it stands. -/
def words : List (String × Kind) :=
  [("do", .keyword .kwDo), ("eq", .keyword .kwEq), ("ge", .keyword .kwGe),
   ("gt", .keyword .kwGt), ("if", .keyword .kwIf), ("in", .keyword .kwIn),
   ("le", .keyword .kwLe), ("lt", .keyword .kwLt), ("ne", .keyword .kwNe),
   ("or", .keyword .kwOr), ("null", .keyword .kwNull), ("break", .keyword .kwBreak),
   ("and", .keyword .kwAnd), ("end", .keyword .kwEnd), ("eof", .endOfInput),
   ("for", .keyword .kwFor), ("nan", .keyword .kwNan), ("not", .keyword .kwNot),
   ("var", .keyword .kwVar), ("then", .keyword .kwThen), ("else", .keyword .kwElse),
   ("exit", .keyword .kwExit), ("downto", .keyword .kwDownto), ("return", .keyword .kwReturn),
   ("infinity", .keyword .kwInfinity), ("endwhile", .keyword .kwEndwhile),
   ("foreach", .keyword .kwForeach), ("endfunc", .keyword .kwEndfunc),
   ("elseif", .keyword .kwElseif), ("while", .keyword .kwWhile),
   ("endfor", .keyword .kwEndfor), ("throw", .keyword .kwThrow), ("step", .keyword .kwStep),
   ("upto", .keyword .kwUpto), ("continue", .keyword .kwContinue), ("func", .keyword .kwFunc),
   ("endif", .keyword .kwEndif)]

/-- The kind of a word that is not an identifier. -/
def ofWord? (word : String) : Option Kind := words.lookup word

/-- The kind of a word. -/
def ofWord (word : String) : Kind := (ofWord? word).getD .identifier

end Kind

end FormCalc
