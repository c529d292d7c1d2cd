import ExLine.Main
import ExLine.Proofs.Engine.Effects
import ExLine.Proofs.Engine.Frames
import ExLine.Proofs.Engine.Definitions
import ExLine.Proofs.Expr.Separators
import ExLine.Proofs.Engine.Conditions
import ExLine.Proofs.Engine.Unseen
import ExLine.Proofs.Engine.Reachable
import ExLine.Proofs.Line.Head
import ExLine.Proofs.Line.Arguments
import ExLine.Proofs.Script.Structured
import ExLine.Proofs.Script.Lines
import ExLine.Proofs.Script.Steps
import ExLine.Proofs.Script.Refinement
import ExLine.Proofs.Line.Rest
import ExLine.Proofs.Engine.Chain
import ExLine.Proofs.Line.Padding
import ExLine.Proofs.Engine.Visits
import ExLine.Proofs.Engine.Wrappers
import ExLine.Proofs.Engine.Handover
import ExLine.Proofs.Engine.Alike
import ExLine.Proofs.Engine.Bodies
import ExLine.Proofs.Command.Registry
import ExLine.Proofs.Command.Uniqueness
import ExLine.Proofs.Engine.Sessions
import ExLine.Proofs.Engine.Naming
import ExLine.Proofs.Engine.Plans
import ExLine.Proofs.Engine.Skipping
import ExLine.Proofs.Range.InView
import ExLine.Proofs.Engine.Stopping
import ExLine.Proofs.Engine.Recovery
import ExLine.Proofs.Engine.Restoring
import ExLine.Proofs.Script.Isolation
import ExLine.Proofs.Line.Trimming
import ExLine.Proofs.Engine.ShellText
import ExLine.Proofs.Engine.Calls
import ExLine.Proofs.Expr.Blanks
import ExLine.Proofs.Expr.Decimal
import ExLine.Proofs.Expr.Assignments
import ExLine.Proofs.Expr.Literals
import ExLine.Proofs.Engine.Printing
import ExLine.Proofs.Engine.Counting
import ExLine.Proofs.Range.Written
import ExLine.Proofs.Range.Denotation
import ExLine.Proofs.Engine.Cursor
import ExLine.Proofs.Line.BeforeBar
import ExLine.Proofs.Engine.Composition
import ExLine.Proofs.Script.Continuations
import ExLine.Proofs.Expr.Grammar
import ExLine.Proofs.Expr.Parsing
import ExLine.Proofs.Line.Lexemes
import ExLine.Proofs.Line.Words
import ExLine.Proofs.Line.Quotes
import ExLine.Proofs.Line.Quoting
import ExLine.Proofs.Expr.Bounds
import ExLine.Proofs.Expr.Stepwise
import ExLine.Proofs.Expr.SideBySide
import ExLine.Proofs.Expr.Printer
import ExLine.Proofs.Expr.ShortCircuit
import ExLine.Proofs.Expr.Comparison
import ExLine.Proofs.Command.Resolution
import ExLine.Proofs.Command.Listing
import ExLine.Proofs.Engine.Selection
import ExLine.Proofs.Engine.Failures
import ExLine.Proofs.Engine.Directories
import ExLine.Proofs.Range.Reading
import ExLine.Proofs.Text.Runs
import ExLine.Proofs.Engine.Expansion
import ExLine.Proofs.Line.TrailingBlanks
import ExLine.Proofs.Expr.Concatenation
