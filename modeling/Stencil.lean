import Stencil.Build
import Stencil.Chain
import Stencil.Decimal.Layout
import Stencil.Decimal.Nearest
import Stencil.Decimal.Shortest
import Stencil.Disk.Basic
import Stencil.Disk.Library
import Stencil.Disk.Path
import Stencil.Disk.Walk
import Stencil.Event
import Stencil.Expr.Arithmetic
import Stencil.Expr.Basic
import Stencil.Expr.Builder
import Stencil.Expr.Compare
import Stencil.Expr.Error
import Stencil.Expr.Eval
import Stencil.Expr.Lexeme
import Stencil.Expr.Scan
import Stencil.Failure
import Stencil.Glob.Basic
import Stencil.Glob.Reader
import Stencil.Json.Codec
import Stencil.Json.Datum
import Stencil.Json.Failure
import Stencil.Json.Lexeme
import Stencil.Json.Numeral
import Stencil.Json.Plan
import Stencil.Json.Reader
import Stencil.Json.Writer
import Stencil.Library
import Stencil.Markup.Builder
import Stencil.Markup.Error
import Stencil.Markup.Node
import Stencil.Markup.Scan
import Stencil.Markup.Token
import Stencil.Page
import Stencil.Proofs.Ascent
import Stencil.Proofs.Building
import Stencil.Proofs.Columns
import Stencil.Proofs.Evaluation
import Stencil.Proofs.Grammar
import Stencil.Proofs.Precedence
import Stencil.Proofs.Reading
import Stencil.Proofs.Rendering
import Stencil.Proofs.Respacing
import Stencil.Proofs.Results
import Stencil.Table
import Stencil.Text.Blank
import Stencil.Text.Letter
import Stencil.Text.Words
import Stencil.Unmet
import Stencil.Value
import Stencil.Proofs.Reduction
import Stencil.Proofs.Recognition
import Stencil.Proofs.Writes
import Stencil.Proofs.Parametricity
import Stencil.Proofs.Sources
import Stencil.Proofs.Concatenation
import Stencil.Proofs.Quotation
import Stencil.Proofs.Exactness
import Stencil.Proofs.Following
import Stencil.Proofs.Trees
import Stencil.Proofs.Paths
import Stencil.Proofs.Directories
import Stencil.Proofs.Saving
import Stencil.Proofs.Filling
import Stencil.Proofs.Walking
import Stencil.Proofs.Looking
import Stencil.Proofs.Isolation
import Stencil.Proofs.Resaving
import Stencil.Proofs.Rewalking
import Stencil.Proofs.Rebuilding
import Stencil.Proofs.Markers
import Stencil.Proofs.Finality
import Stencil.Proofs.Branches
import Stencil.Proofs.Mentions
import Stencil.Proofs.Additions
import Stencil.Proofs.Strays
import Stencil.Proofs.Cutting
import Stencil.Proofs.Delivery
import Stencil.Proofs.Lines
import Stencil.Proofs.Codecs
import Stencil.Proofs.Nesting
import Stencil.Proofs.Halting
import Stencil.Proofs.Unfilled
import Stencil.Proofs.Fitting
import Stencil.Proofs.Conjunction
import Stencil.Proofs.Growth
import Stencil.Proofs.Handover
import Stencil.Proofs.Viability
import Stencil.Proofs.Spacing
import Stencil.Proofs.Comparing
import Stencil.Proofs.Promotion
import Stencil.Proofs.Rereading
import Stencil.Proofs.Positions
