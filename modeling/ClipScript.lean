import ClipScript.CommandLine
import ClipScript.Main
import ClipScript.Proofs.Attribution
import ClipScript.Proofs.Binding
import ClipScript.Proofs.Bookkeeping
import ClipScript.Proofs.Coupling
import ClipScript.Proofs.Coupling.Evaluation
import ClipScript.Proofs.Coupling.Symmetry
import ClipScript.Proofs.Coupling.Tables
import ClipScript.Proofs.Depth
import ClipScript.Proofs.Discipline
import ClipScript.Proofs.Discipline.Evaluation
import ClipScript.Proofs.Frame
import ClipScript.Proofs.Grammar
import ClipScript.Proofs.Importless
import ClipScript.Proofs.Isolation
import ClipScript.Proofs.Natives
import ClipScript.Proofs.Node.Declared
import ClipScript.Proofs.Node.Unplaced
import ClipScript.Proofs.Parser.Ahead
import ClipScript.Proofs.Parser.Crossing
import ClipScript.Proofs.Parser.Derivation
import ClipScript.Proofs.Parser.Expressions
import ClipScript.Proofs.Parser.Levels
import ClipScript.Proofs.Parser.Pairing
import ClipScript.Proofs.Parser.Reading
import ClipScript.Proofs.Parser.Selfsame
import ClipScript.Proofs.Parser.Statements
import ClipScript.Proofs.Storable
import ClipScript.Proofs.Surface
import ClipScript.Proofs.Unchaining
import ClipScript.Proofs.Lexer.Spacing
import ClipScript.Proofs.Text.Accurate
import ClipScript.Proofs.Lexer.Layout
import ClipScript.Proofs.Node.Twins
import ClipScript.Proofs.Parser.Twins
import ClipScript.Proofs.Places
import ClipScript.Proofs.Insertion
import ClipScript.Proofs.Inertness
import ClipScript.Proofs.Node.Formed
import ClipScript.Proofs.Parser.Forms
import ClipScript.Proofs.Faults
import ClipScript.Proofs.Regime
import ClipScript.Proofs.Regime.Evaluation
import ClipScript.Proofs.Regime.Formed
import ClipScript.Proofs.Order
import ClipScript.Proofs.Returns
import ClipScript.Proofs.Grammar.Words
import ClipScript.Proofs.Parser.Continuation
import ClipScript.Proofs.Concatenation
import ClipScript.Proofs.Node.Regrouped
import ClipScript.Proofs.Node.Grouping
import ClipScript.Proofs.Parser.Knowing
import ClipScript.Proofs.Regime.Regrouped
import ClipScript.Proofs.Recognition
import ClipScript.Proofs.Lexer.Spelling
import ClipScript.Proofs.Contract
import ClipScript.Proofs.Contract.Evaluation
import ClipScript.Proofs.Registration
import ClipScript.Proofs.Scoping
import ClipScript.Proofs.Node.Plain
import ClipScript.Proofs.Halting
import ClipScript.Proofs.Node.Normal
import ClipScript.Proofs.Node.Links
import ClipScript.Proofs.Passing
import ClipScript.Proofs.Parser.Settling
import ClipScript.Proofs.Parser.Settled
import ClipScript.Proofs.Verdict
import ClipScript.Proofs.Arguments
import ClipScript.Proofs.Options
import ClipScript.Proofs.Piping
import ClipScript.Proofs.Node.Standing
import ClipScript.Proofs.Recording
import ClipScript.Proofs.Parser.Nesting
import ClipScript.Proofs.Snippet
import ClipScript.Proofs.WellFormed
import ClipScript.Proofs.Node.Defaults
import ClipScript.Proofs.Growth
import ClipScript.Proofs.Filling
import ClipScript.Proofs.Defaults
import ClipScript.Proofs.Parser.Progress
import ClipScript.Proofs.Parser.Unrolling
import ClipScript.Proofs.Parser.Walk
