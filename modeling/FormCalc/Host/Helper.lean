/-!
# Helpers of the host

The JavaScript that a script becomes calls into one object of its host.  These are the
members of that object that carry the meaning of operators, accessors and assignments.
Hosts implement them by name, so the names are fixed.
-/

namespace FormCalc.Host

/-- The object that the generated code calls into. -/
def objectName : String := "pfm_rt"

/-- A member of the host's object that is no built-in function. -/
inductive Helper where
  | posOp | negOp | logNotOp | logOrOp | logAndOp
  | eqOp | neqOp | ltOp | leOp | gtOp | geOp
  | plusOp | minusOp | mulOp | divOp | asgnValOp
  | dotAcc | dotdotAcc | concatObj | isObj | isAry | getVal | getJsobj | varFilter
  /-- Compiles a script while the program runs. -/
  | translate
  deriving DecidableEq, Repr

namespace Helper

/-- The name of a helper. -/
def name : Helper → String
  | .posOp => "pos_op"
  | .negOp => "neg_op"
  | .logNotOp => "log_not_op"
  | .logOrOp => "log_or_op"
  | .logAndOp => "log_and_op"
  | .eqOp => "eq_op"
  | .neqOp => "neq_op"
  | .ltOp => "lt_op"
  | .leOp => "le_op"
  | .gtOp => "gt_op"
  | .geOp => "ge_op"
  | .plusOp => "plus_op"
  | .minusOp => "minus_op"
  | .mulOp => "mul_op"
  | .divOp => "div_op"
  | .asgnValOp => "asgn_val_op"
  | .dotAcc => "dot_acc"
  | .dotdotAcc => "dotdot_acc"
  | .concatObj => "concat_obj"
  | .isObj => "is_obj"
  | .isAry => "is_ary"
  | .getVal => "get_val"
  | .getJsobj => "get_jsobj"
  | .varFilter => "var_filter"
  | .translate => "Translate"

/-- Every helper. -/
def all : List Helper :=
  [.posOp, .negOp, .logNotOp, .logOrOp, .logAndOp, .eqOp, .neqOp, .ltOp, .leOp, .gtOp, .geOp,
   .plusOp, .minusOp, .mulOp, .divOp, .asgnValOp, .dotAcc, .dotdotAcc, .concatObj, .isObj,
   .isAry, .getVal, .getJsobj, .varFilter, .translate]

end Helper

end FormCalc.Host
