import FormCalc.Proofs.Grammar.Derivation

/-!
# Where a rule stands

A derivation says what a whole list of terminals is.  Here is what the first terminals of such
a list say: which rule has to go on behind them.

* `Rule.Opens`: the parts of an alternative, each with what stands in front of it.  A list or
  chain is one part of what holds it, so only its beginning leads to it, never a place inside.
* `Rule.Leads`: from a rule to a part of a part, and so on.
* `Derivation.StandsIn`: whether a derivation is what the tokens hold at such a place.
-/

namespace FormCalc

open Terminal

/-- Whether the terminals in front, read from the first rule on, are followed by what the
second rule derives. -/
inductive Rule.Opens : Rule → List Terminal → Rule → Prop
  /-- Some statements, and one more. -/
  | item (list : Derivation .statements) : Opens .statements list.yield .statement
  | function (name : String) (params : List String) :
      Opens .statement ([word .kwFunc, identifier name, symbol .leftParen] ++ nameList params ++
        [symbol .rightParen] ++ [word .kwDo]) .statements
  | init (name : String) :
      Opens .statement [word .kwVar, identifier name] (.optional (.symbol .assign))
  | target : Opens .statement [] .simple
  | assigned (target : Derivation .simple) :
      Opens .statement (target.yield ++ [symbol .assign]) .simple
  | ifCond : Opens .statement [word .kwIf] .group
  | ifBody (cond : Derivation .group) :
      Opens .statement ([word .kwIf] ++ cond.yield ++ [word .kwThen]) .statements
  | ifRest (cond : Derivation .group) (body : Derivation .statements) :
      Opens .statement ([word .kwIf] ++ cond.yield ++ [word .kwThen] ++ body.yield) .otherwise
  | whileCond : Opens .statement [word .kwWhile] .group
  | whileBody (cond : Derivation .group) :
      Opens .statement ([word .kwWhile] ++ cond.yield ++ [word .kwDo]) .statements
  | start (name : String) :
      Opens .statement [word .kwFor, identifier name, symbol .assign] .simple
  | stop (name : String) (start : Derivation .simple) (direction : Direction) :
      Opens .statement ([word .kwFor, identifier name, symbol .assign] ++ start.yield ++
        [word direction.keyword]) .simple
  | step (name : String) (start : Derivation .simple) (direction : Direction)
      (stop : Derivation .simple) :
      Opens .statement ([word .kwFor, identifier name, symbol .assign] ++ start.yield ++
        [word direction.keyword] ++ stop.yield) (.optional (.keyword .kwStep))
  | forBody (name : String) (start : Derivation .simple) (direction : Direction)
      (stop : Derivation .simple) (step : Derivation (.optional (.keyword .kwStep))) :
      Opens .statement ([word .kwFor, identifier name, symbol .assign] ++ start.yield ++
        [word direction.keyword] ++ stop.yield ++ step.yield ++ [word .kwDo]) .statements
  /-- The collections of a loop are a list of arguments. -/
  | collections (name : String) :
      Opens .statement [word .kwForeach, identifier name, word .kwIn, symbol .leftParen] .arguments
  | eachBody (name : String) (collections : Derivation .arguments) :
      Opens .statement ([word .kwForeach, identifier name, word .kwIn, symbol .leftParen] ++
        collections.yield ++ [symbol .rightParen] ++ [word .kwDo]) .statements
  | scope : Opens .statement [word .kwDo] .statements
  | last : Opens .otherwise [word .kwElse] .statements
  | elseIfCond : Opens .otherwise [word .kwElseif] .group
  | elseIfBody (cond : Derivation .group) :
      Opens .otherwise ([word .kwElseif] ++ cond.yield ++ [word .kwThen]) .statements
  | elseIfRest (cond : Derivation .group) (body : Derivation .statements) :
      Opens .otherwise ([word .kwElseif] ++ cond.yield ++ [word .kwThen] ++ body.yield) .otherwise
  | present (mark : Kind) : Opens (.optional mark) [⟨mark, ""⟩] .simple
  | left (layer : Layer) : Opens (.layer (some layer)) [] (.layer layer.operands)
  | operations {layer : Layer} (first : Derivation (.layer layer.operands)) :
      Opens (.layer (some layer)) first.yield (.operations layer)
  | right {layer : Layer} (sign : layer.Sign) :
      Opens (.operations layer) [⟨sign.kind, ""⟩] (.layer layer.operands)
  | further {layer : Layer} (sign : layer.Sign) (right : Derivation (.layer layer.operands)) :
      Opens (.operations layer) ([⟨sign.kind, ""⟩] ++ right.yield) (.operations layer)
  | operand (op : UnaryOp) : Opens (.layer none) [⟨op.kind, ""⟩] (.layer none)
  | plain : Opens (.layer none) [] .primary
  | value : Opens .group [symbol .leftParen] .simple
  | element (name : String) : Opens .primary [identifier name] .index
  | named (name : String) (index : Derivation .optionalIndex) :
      Opens .primary ([identifier name] ++ index.yield) .suffixes
  | group : Opens .primary [] .group
  | grouped (value : Derivation .group) : Opens .primary value.yield .suffixes
  /-- Some links of a chain, and one more. -/
  | link (links : Derivation .suffixes) : Opens .suffixes links.yield .suffix
  | call : Opens .suffix [symbol .leftParen] .arguments
  | called (args : Derivation .arguments) :
      Opens .suffix ([symbol .leftParen] ++ args.yield ++ [symbol .rightParen]) .index
  | method (name : String) :
      Opens .suffix [symbol .dot, identifier name, symbol .leftParen] .arguments
  | methodCalled (name : String) (args : Derivation .arguments) :
      Opens .suffix ([symbol .dot, identifier name, symbol .leftParen] ++ args.yield ++
        [symbol .rightParen]) .index
  | member (name : String) : Opens .suffix [symbol .dot, identifier name] .index
  | descendant (name : String) : Opens .suffix [symbol .dotDot, identifier name] .index
  | hash (name : String) : Opens .suffix [symbol .dotHash, identifier name] .index
  | entry (mode : IndexMode) : Opens .index ([symbol .leftBracket] ++ mode.sign) .simple
  | argument : Opens .arguments [] .simple
  /-- Some arguments, and one more. -/
  | nextArgument (first : Derivation .simple) (more : Derivation .moreArguments) :
      Opens .arguments (first.yield ++ more.yield ++ [symbol .comma]) .simple

/-- Whether the terminals in front, read from the first rule on, are followed by what the second
rule derives, maybe as a part of a part. -/
inductive Rule.Leads : Rule → List Terminal → Rule → Prop
  | here (r : Rule) : Leads r [] r
  | into {r part inner : Rule} {front more : List Terminal} (hopens : r.Opens front part)
      (hleads : Leads part more inner) : Leads r (front ++ more) inner

/-- Whether tokens, read from a rule on, hold a derivation in a place of its own rule, with
these tokens behind it. -/
def Derivation.StandsIn (start : Rule) (tokens : List Token) {r : Rule} (d : Derivation r)
    (behind : List Token) : Prop :=
  ∃ front own, tokens = front ++ (own ++ behind) ∧ start.Leads (front.map Token.terminal) r ∧
    own.map Token.terminal = d.yield

namespace Derivation.StandsIn

variable {r start part : Rule} {d : Derivation r} {tokens behind segment : List Token}

/-- A derivation stands in front of what is behind it. -/
theorem self (h : segment.map Token.terminal = d.yield) :
    d.StandsIn r (segment ++ behind) behind :=
  ⟨[], segment, rfl, .here r, h⟩

/-- What stands in a part stands in the whole. -/
theorem into (hopens : start.Opens (segment.map Token.terminal) part)
    (h : d.StandsIn part tokens behind) : d.StandsIn start (segment ++ tokens) behind := by
  obtain ⟨front, own, rfl, hleads, hown⟩ := h
  refine ⟨segment ++ front, own, (List.append_assoc ..).symm, ?_, hown⟩
  rw [List.map_append]
  exact .into hopens hleads

end Derivation.StandsIn

end FormCalc
