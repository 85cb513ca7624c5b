import FormCalc.Token.Kind

/-!
# Operators

The operators of expressions and how tightly they bind.  There are six layers of binary
operators, all of them left-associative; prefix operators bind tighter than any of them.
-/

namespace FormCalc

/-- An operator in front of its operand. -/
inductive UnaryOp where
  | plus | minus | not
  deriving DecidableEq, Repr

/-- An operator between its operands. -/
inductive BinaryOp where
  | or | and | eq | ne | lt | gt | le | ge | add | sub | mul | div
  deriving DecidableEq, Repr

/-- The layers of binary operators, from the one that binds loosest. -/
inductive Layer where
  | logicalOr | logicalAnd | equality | relational | additive | multiplicative
  deriving DecidableEq, Repr

/-- The layer that binds next tighter, if there is one. -/
def Layer.tighter? : Layer → Option Layer
  | .logicalOr => some .logicalAnd
  | .logicalAnd => some .equality
  | .equality => some .relational
  | .relational => some .additive
  | .additive => some .multiplicative
  | .multiplicative => none

namespace UnaryOp

/-- The operator that a token in front of an operand spells. -/
def ofKind? : Kind → Option UnaryOp
  | .symbol .plus => some .plus
  | .symbol .minus => some .minus
  | .keyword .kwNot => some .not
  | _ => none

end UnaryOp

namespace BinaryOp

/-- The layer that an operator belongs to. -/
def layer : BinaryOp → Layer
  | .or => .logicalOr
  | .and => .logicalAnd
  | .eq | .ne => .equality
  | .lt | .gt | .le | .ge => .relational
  | .add | .sub => .additive
  | .mul | .div => .multiplicative

/-- The operator that a token between two operands spells.  Most have a sign and a
word. -/
def ofKind? : Kind → Option BinaryOp
  | .symbol .bar | .keyword .kwOr => some .or
  | .symbol .ampersand | .keyword .kwAnd => some .and
  | .symbol .equal | .keyword .kwEq => some .eq
  | .symbol .unequal | .keyword .kwNe => some .ne
  | .symbol .less | .keyword .kwLt => some .lt
  | .symbol .greater | .keyword .kwGt => some .gt
  | .symbol .lessEqual | .keyword .kwLe => some .le
  | .symbol .greaterEqual | .keyword .kwGe => some .ge
  | .symbol .plus => some .add
  | .symbol .minus => some .sub
  | .symbol .star => some .mul
  | .symbol .slash => some .div
  | _ => none

end BinaryOp

/-- The operator of a layer that a token spells. -/
def Layer.operator? (layer : Layer) (kind : Kind) : Option BinaryOp :=
  (BinaryOp.ofKind? kind).filter (·.layer = layer)

end FormCalc
