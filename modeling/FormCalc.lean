import FormCalc.Main
import FormCalc.Proofs.Command.Encoding
import FormCalc.Proofs.Command.Unpaired
import FormCalc.Proofs.Compile.Behind
import FormCalc.Proofs.Compile.Captures
import FormCalc.Proofs.Compile.Clean
import FormCalc.Proofs.Compile.Fault
import FormCalc.Proofs.Compile.Invariance
import FormCalc.Proofs.Compile.Loops
import FormCalc.Proofs.Compile.Scanned
import FormCalc.Proofs.Compile.Size
import FormCalc.Proofs.Compile.Unknown
import FormCalc.Proofs.Grammar.Calls
import FormCalc.Proofs.Grammar.Completeness
import FormCalc.Proofs.Grammar.Contexts
import FormCalc.Proofs.Grammar.Correctness
import FormCalc.Proofs.Grammar.Demand
import FormCalc.Proofs.Grammar.Derivation
import FormCalc.Proofs.Grammar.Fault
import FormCalc.Proofs.Grammar.Levels
import FormCalc.Proofs.Grammar.Limits
import FormCalc.Proofs.Grammar.Placed
import FormCalc.Proofs.Grammar.Printed
import FormCalc.Proofs.Grammar.Progress
import FormCalc.Proofs.Grammar.Reading
import FormCalc.Proofs.Grammar.Refused
import FormCalc.Proofs.Grammar.Relocated
import FormCalc.Proofs.Grammar.RoundTrip
import FormCalc.Proofs.Grammar.Shape
import FormCalc.Proofs.Grammar.Soundness
import FormCalc.Proofs.Grammar.Unambiguous
import FormCalc.Proofs.Grammar.Weight
import FormCalc.Proofs.Host.Builtin
import FormCalc.Proofs.Host.Tables
import FormCalc.Proofs.Output.Depth
import FormCalc.Proofs.Output.Fault
import FormCalc.Proofs.Output.Length
import FormCalc.Proofs.Output.Literal
import FormCalc.Proofs.Output.Loops
import FormCalc.Proofs.Output.Markup
import FormCalc.Proofs.Output.Names
import FormCalc.Proofs.Output.Nesting
import FormCalc.Proofs.Output.Plain
import FormCalc.Proofs.Output.Relocated
import FormCalc.Proofs.Output.Rendering
import FormCalc.Proofs.Output.Requoted
import FormCalc.Proofs.Output.Scan
import FormCalc.Proofs.Output.Scanned
import FormCalc.Proofs.Output.Scopes
import FormCalc.Proofs.Output.Size
import FormCalc.Proofs.Output.Unknown
import FormCalc.Proofs.Output.Words
import FormCalc.Proofs.Text.Halving
import FormCalc.Proofs.Text.Lines
import FormCalc.Proofs.Text.Position
import FormCalc.Proofs.Text.Surrogates
import FormCalc.Proofs.Token.Ahead
import FormCalc.Proofs.Token.Alone
import FormCalc.Proofs.Token.Characters
import FormCalc.Proofs.Token.Conserved
import FormCalc.Proofs.Token.Fault
import FormCalc.Proofs.Token.Final
import FormCalc.Proofs.Token.Layout
import FormCalc.Proofs.Token.Longest
import FormCalc.Proofs.Token.Place
import FormCalc.Proofs.Token.Quoted
import FormCalc.Proofs.Token.Spaced
import FormCalc.Proofs.Token.Spelling
import FormCalc.Proofs.Token.Stream
import FormCalc.Proofs.Tree.Bare
import FormCalc.Proofs.Tree.Callees
import FormCalc.Proofs.Tree.Loops
import FormCalc.Proofs.Tree.Placed
import FormCalc.Proofs.Tree.Printed
import FormCalc.Proofs.Tree.References
import FormCalc.Proofs.Tree.Relocated
import FormCalc.Proofs.Tree.Shape
