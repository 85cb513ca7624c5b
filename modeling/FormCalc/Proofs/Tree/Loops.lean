import FormCalc.Proofs.Tree.Shape

/-!
# Loops over collections

What is said about the loops over collections of a script, apart from any text.

* `Expr.names`, `Stmt.names`, `Program.names`: the names that a script uses.
* `Stmt.loops`, `Program.loops`: the bodies of the loops over collections, at any depth, each with
  whether its value is kept.
* `Stmt.outer`, `Block.outer`: what is left of a statement if an empty block stands in place of
  every function that is defined in it.  The loops of this are those that run in the same function
  as the statement itself.
-/

namespace FormCalc

/-! ### Names -/

/-- The names in what a point selects. -/
def Member.names : Member → List String
  | .named name | .hash name => [name]
  | .star | .callResult => []

mutual

/-- The names in an expression. -/
def Expr.names : Expr → List String
  | .null _ | .number .. | .string .. => []
  | .identifier name _ => [name]
  | .unary _ operand _ => operand.names
  | .binary _ left right _ => left.names ++ right.names
  | .assign target value _ => target.names ++ value.names
  | .call callee args _ _ => callee.names ++ argumentNames args
  | .dot base member index _ => base.names ++ member.names ++ index.names
  | .element member index _ => member.names ++ index.names
  | .descendant base name index _ => base.names ++ [name] ++ index.names
  | .method receiver call _ => receiver.names ++ call.names

/-- The names in an index. -/
def Index.names : Index → List String
  | .none | .star => []
  | .entry _ expr => expr.names

/-- The names in arguments. -/
def argumentNames : List Expr → List String
  | [] => []
  | arg :: rest => arg.names ++ argumentNames rest

end

/-- The names in an optional part. -/
def optionalNames (part : Option Expr) : List String := part.elim [] Expr.names

mutual

/-- The names in a statement, those that it declares among them. -/
def Stmt.names : Stmt → List String
  | .function name params body _ => name :: params ++ stmtsNames body
  | .var name init _ => name :: optionalNames init
  | .expr expr _ => expr.names
  | .scope body _ => body.names
  | .branch cond body otherwise _ => cond.names ++ body.names ++ otherwise.names
  | .loop cond body _ => cond.names ++ body.names
  | .count var start stop _ step body _ =>
    var :: start.names ++ stop.names ++ optionalNames step ++ body.names
  | .each var collections body _ => var :: argumentNames collections ++ body.names
  | .leave _ | .skip _ => []

/-- The names in a block. -/
def Block.names : Block → List String
  | .mk stmts _ => stmtsNames stmts

/-- The names in the parts of an `if` behind its first block. -/
def Otherwise.names : Otherwise → List String
  | .nothing => []
  | .last body => body.names
  | .elseIf cond body rest => cond.names ++ body.names ++ rest.names

/-- The names in statements. -/
def stmtsNames : List Stmt → List String
  | [] => []
  | stmt :: rest => stmt.names ++ stmtsNames rest

end

/-- The names in a script. -/
def Program.names (program : Program) : List String := stmtsNames program.stmts

/-! ### Loops -/

mutual

/-- The bodies of the loops over collections in a statement.  `keep` tells whether the value of the
statement is the result, and each body comes with whether its own value is. -/
def Stmt.loops (keep : Bool) : Stmt → List (Bool × Block)
  | .function _ _ body _ => stmtsLoops true body
  | .scope body _ | .loop _ body _ | .count _ _ _ _ _ body _ => body.loops keep
  | .branch _ body otherwise _ => body.loops keep ++ otherwise.loops keep
  | .each _ _ body _ => (keep, body) :: body.loops keep
  | .var .. | .expr .. | .leave _ | .skip _ => []

/-- The bodies of the loops over collections in a block. -/
def Block.loops (keep : Bool) : Block → List (Bool × Block)
  | .mk stmts _ => stmtsLoops keep stmts

/-- The bodies of the loops over collections behind the first block of an `if`. -/
def Otherwise.loops (keep : Bool) : Otherwise → List (Bool × Block)
  | .nothing => []
  | .last body => body.loops keep
  | .elseIf _ body rest => body.loops keep ++ rest.loops keep

/-- The bodies of the loops over collections in statements. -/
def stmtsLoops (keep : Bool) : List Stmt → List (Bool × Block)
  | [] => []
  | stmt :: rest => stmt.loops (keep && rest.isEmpty) ++ stmtsLoops keep rest

end

/-- The bodies of the loops over collections in a script. -/
def Program.loops (program : Program) : List (Bool × Block) := stmtsLoops true program.stmts

/-! ### What runs in one function -/

mutual

/-- A statement with an empty block in place of every function that is defined in it. -/
def Stmt.outer : Stmt → Stmt
  | .function _ _ _ span => .scope (.mk [] span) span
  | .scope body span => .scope body.outer span
  | .branch cond body otherwise span => .branch cond body.outer otherwise.outer span
  | .loop cond body span => .loop cond body.outer span
  | .count var start stop direction step body span =>
    .count var start stop direction step body.outer span
  | .each var collections body span => .each var collections body.outer span
  | .var name init span => .var name init span
  | .expr expr span => .expr expr span
  | .leave span => .leave span
  | .skip span => .skip span

/-- A block with an empty block in place of every function that is defined in it. -/
def Block.outer : Block → Block
  | .mk stmts span => .mk (outerStmts stmts) span

/-- The parts of an `if` behind its first block, with an empty block in place of every function. -/
def Otherwise.outer : Otherwise → Otherwise
  | .nothing => .nothing
  | .last body => .last body.outer
  | .elseIf cond body rest => .elseIf cond body.outer rest.outer

/-- Statements with an empty block in place of every function that is defined in them. -/
def outerStmts : List Stmt → List Stmt
  | [] => []
  | stmt :: rest => stmt.outer :: outerStmts rest

end

/-! ### Bodies of loops are parts of their script -/

theorem subset_middle (front names back : List String) : names ⊆ front ++ names ++ back :=
  List.Subset.trans (List.subset_append_right ..) (List.subset_append_left ..)

mutual

/-- The body of a loop has its shape and uses no names but those of the statement it stands in. -/
theorem Stmt.body_of_loops : (stmt : Stmt) → (keep : Bool) → stmt.Shaped →
    ∀ loop ∈ stmt.loops keep, loop.2.Shaped ∧ loop.2.names ⊆ stmt.names
  | .function name params body _, _, h => by
    intro loop hloop
    obtain ⟨hshaped, hnames⟩ := body_of_stmtsLoops body true h.2.2.1 loop hloop
    exact ⟨hshaped, List.Subset.trans hnames (List.subset_append_right ..)⟩
  | .scope body _, keep, h => body.body_of_loops keep h
  | .branch cond body otherwise _, keep, h => by
    refine List.forall_mem_append.mpr ⟨fun loop hloop => ?_, fun loop hloop => ?_⟩
    · obtain ⟨hshaped, hnames⟩ := body.body_of_loops keep h.2.1 loop hloop
      exact ⟨hshaped, List.Subset.trans hnames (subset_middle ..)⟩
    · obtain ⟨hshaped, hnames⟩ := otherwise.body_of_loops keep h.2.2 loop hloop
      exact ⟨hshaped, List.Subset.trans hnames (List.subset_append_right ..)⟩
  | .loop cond body _, keep, h => by
    intro loop hloop
    obtain ⟨hshaped, hnames⟩ := body.body_of_loops keep h.2 loop hloop
    exact ⟨hshaped, List.Subset.trans hnames (List.subset_append_right ..)⟩
  | .count var start stop _ step body _, keep, h => by
    intro loop hloop
    obtain ⟨hshaped, hnames⟩ := body.body_of_loops keep h.2.2.2.2 loop hloop
    exact ⟨hshaped, List.Subset.trans hnames (List.subset_append_right ..)⟩
  | .each var collections body _, keep, h => by
    have hbody : body.names ⊆ var :: argumentNames collections ++ body.names :=
      List.subset_append_right ..
    refine List.forall_mem_cons.mpr ⟨⟨h.2.2.2.2, hbody⟩, fun loop hloop => ?_⟩
    obtain ⟨hshaped, hnames⟩ := body.body_of_loops keep h.2.2.2.2 loop hloop
    exact ⟨hshaped, List.Subset.trans hnames hbody⟩
  | .var .., _, _ | .expr .., _, _ | .leave _, _, _ | .skip _, _, _ => nofun

theorem Block.body_of_loops : (body : Block) → (keep : Bool) → body.Shaped →
    ∀ loop ∈ body.loops keep, loop.2.Shaped ∧ loop.2.names ⊆ body.names
  | .mk stmts _, keep, h => body_of_stmtsLoops stmts keep h.1

theorem Otherwise.body_of_loops : (rest : Otherwise) → (keep : Bool) → rest.Shaped →
    ∀ loop ∈ rest.loops keep, loop.2.Shaped ∧ loop.2.names ⊆ rest.names
  | .nothing, _, _ => nofun
  | .last body, keep, h => body.body_of_loops keep h
  | .elseIf cond body rest, keep, h => by
    refine List.forall_mem_append.mpr ⟨fun loop hloop => ?_, fun loop hloop => ?_⟩
    · obtain ⟨hshaped, hnames⟩ := body.body_of_loops keep h.2.1 loop hloop
      exact ⟨hshaped, List.Subset.trans hnames (subset_middle ..)⟩
    · obtain ⟨hshaped, hnames⟩ := rest.body_of_loops keep h.2.2 loop hloop
      exact ⟨hshaped, List.Subset.trans hnames (List.subset_append_right ..)⟩

theorem body_of_stmtsLoops : (stmts : List Stmt) → (keep : Bool) → ShapedStmts stmts →
    ∀ loop ∈ stmtsLoops keep stmts, loop.2.Shaped ∧ loop.2.names ⊆ stmtsNames stmts
  | [], _, _ => nofun
  | stmt :: rest, keep, h => by
    refine List.forall_mem_append.mpr ⟨fun loop hloop => ?_, fun loop hloop => ?_⟩
    · obtain ⟨hshaped, hnames⟩ := stmt.body_of_loops _ h.1 loop hloop
      exact ⟨hshaped, List.Subset.trans hnames (List.subset_append_left ..)⟩
    · obtain ⟨hshaped, hnames⟩ := body_of_stmtsLoops rest keep h.2 loop hloop
      exact ⟨hshaped, List.Subset.trans hnames (List.subset_append_right ..)⟩

end

end FormCalc
