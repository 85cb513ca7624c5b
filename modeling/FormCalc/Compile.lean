import FormCalc.Error
import FormCalc.Output.JavaScript
import FormCalc.Text.Utf16
import FormCalc.Tree.Grammar

/-!
# Compiling scripts

The whole way from the text of a script to JavaScript.  It is all or nothing: the first
fault is the only answer.

* `compile`: a script given as text.
* `compileUnits`: a script given as UTF-16 units, the form in which documents carry it.
* `translate`: what a running program asks for when it evaluates a script.
-/

namespace FormCalc

/-- The limits of a compilation. -/
structure Options where
  maxParseDepth : Nat := defaultParseDepth
  output : OutputLimits := {}
  deriving DecidableEq, Repr

/-- The JavaScript of a script. -/
def compile (options : Options) (text : String) : Except Error String :=
  match Program.parse options.maxParseDepth text with
  | .error fault => .error (fault.map .grammar)
  | .ok program =>
    match program.write options.output with
    | .error fault => .error (fault.map .output)
    | .ok javascript => .ok javascript

/-- The error of a unit that is half of a pair.  It counts as one byte of the text. -/
def Text.Utf16.Unpaired.error (unpaired : Unpaired) : Error :=
  ⟨.grammar (.lexical (.invalidCharacter unpaired.unit.toNat)),
    ⟨unpaired.offset, unpaired.offset + 1⟩⟩

/-- The JavaScript of a script given as UTF-16 units. -/
def compileUnits (options : Options) (units : List UInt16) : Except Error String :=
  match Text.Utf16.text? units with
  | .error unpaired => .error unpaired.error
  | .ok text => compile options text

/-- The JavaScript of a script met while a program runs.  The empty script becomes empty
text. -/
def translate (text : String) : Except Error String :=
  if text.isEmpty then .ok "" else compile {} text

end FormCalc
