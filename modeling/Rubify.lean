import Rubify.Convert
import Rubify.Flow.Closure
import Rubify.Flow.Normalize
import Rubify.Flow.Stmt
import Rubify.Grammar.Declaration
import Rubify.Grammar.Expression
import Rubify.Grammar.Reader
import Rubify.Grammar.Type
import Rubify.Grammar.Unit
import Rubify.Grammar.Variable
import Rubify.Java.Type
import Rubify.Json.Scan
import Rubify.Json.Text
import Rubify.Output.Emitter
import Rubify.Output.Layout
import Rubify.Phrase.Basic
import Rubify.Phrase.Declaration
import Rubify.Phrase.Statement
import Rubify.Program.Context
import Rubify.Program.Declare
import Rubify.Program.Graph
import Rubify.Program.Init
import Rubify.Program.Module
import Rubify.Proofs.Comments.Conservation
import Rubify.Proofs.Comments.Grammar
import Rubify.Proofs.Comments.Held
import Rubify.Proofs.Comments.Normalized
import Rubify.Proofs.Comments.Reader
import Rubify.Proofs.Comments.Written
import Rubify.Proofs.Flow.Bodies
import Rubify.Proofs.Flow.Breaks
import Rubify.Proofs.Flow.Collect
import Rubify.Proofs.Flow.Completion
import Rubify.Proofs.Flow.Erasure
import Rubify.Proofs.Flow.FallThrough
import Rubify.Proofs.Flow.Merge
import Rubify.Proofs.Flow.Modes
import Rubify.Proofs.Flow.NormalForm
import Rubify.Proofs.Flow.Reading
import Rubify.Proofs.Flow.Refinement
import Rubify.Proofs.Flow.Refusal
import Rubify.Proofs.Grammar.Accepts
import Rubify.Proofs.Grammar.Alike
import Rubify.Proofs.Grammar.Blind
import Rubify.Proofs.Grammar.Collected
import Rubify.Proofs.Grammar.Increments
import Rubify.Proofs.Grammar.Parameters
import Rubify.Proofs.Grammar.Shape
import Rubify.Proofs.Grammar.Spelling
import Rubify.Proofs.Grammar.Takes
import Rubify.Proofs.Grammar.Tracking
import Rubify.Proofs.Grammar.Types
import Rubify.Proofs.Json.Scan
import Rubify.Proofs.Output.Levels
import Rubify.Proofs.Output.Rows
import Rubify.Proofs.Output.Splicing
import Rubify.Proofs.Phrase.Class
import Rubify.Proofs.Phrase.Declaration
import Rubify.Proofs.Phrase.Pieces
import Rubify.Proofs.Phrase.Statement
import Rubify.Proofs.Phrase.Types
import Rubify.Proofs.Program.Built
import Rubify.Proofs.Program.Declared
import Rubify.Proofs.Program.Enums
import Rubify.Proofs.Program.Forest
import Rubify.Proofs.Program.Growth
import Rubify.Proofs.Program.Initialization
import Rubify.Proofs.Program.Invariant
import Rubify.Proofs.Program.Listing
import Rubify.Proofs.Program.LocalTypes
import Rubify.Proofs.Program.Parts
import Rubify.Proofs.Program.Paths
import Rubify.Proofs.Program.Places
import Rubify.Proofs.Program.Projection
import Rubify.Proofs.Program.References
import Rubify.Proofs.Program.Scopes
import Rubify.Proofs.Program.Steps
import Rubify.Proofs.Ruby.Commented
import Rubify.Proofs.Ruby.Dispatch
import Rubify.Proofs.Ruby.Joining
import Rubify.Proofs.Ruby.Line
import Rubify.Proofs.Ruby.Overloads
import Rubify.Proofs.Ruby.Parsing
import Rubify.Proofs.Ruby.Taking
import Rubify.Proofs.Settings.Override
import Rubify.Proofs.Tree.Frames
import Rubify.Proofs.Tree.Json
import Rubify.Proofs.Tree.Log
import Rubify.Proofs.Tree.LongestMatch
import Rubify.Proofs.Tree.Simulation
import Rubify.Proofs.Tree.Visits
import Rubify.Ruby.Expr
import Rubify.Ruby.Module
import Rubify.Ruby.Stmt
import Rubify.Settings.Basic
import Rubify.Settings.Load
import Rubify.Settings.LogFilter
import Rubify.Syntax.Decl
import Rubify.Syntax.Expr
import Rubify.Text.Alphabetic
import Rubify.Text.Capital
import Rubify.Text.CharSet
import Rubify.Text.Digit
import Rubify.Text.ExtendingMark
import Rubify.Text.Ignorable
import Rubify.Text.Lines
import Rubify.Text.Numeric
import Rubify.Text.Quoted
import Rubify.Text.Scan
import Rubify.Text.Unprinted
import Rubify.Text.Uppercase
import Rubify.Text.Whitespace
import Rubify.Text.Word
import Rubify.Toml.DateTime
import Rubify.Toml.Document
import Rubify.Toml.Number
import Rubify.Toml.Table
import Rubify.Toml.Text
import Rubify.Tree.Json
import Rubify.Tree.Lookahead
import Rubify.Tree.Node
import Rubify.Tree.Siblings
import Rubify.Tree.Walk
