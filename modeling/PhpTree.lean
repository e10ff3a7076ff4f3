import PhpTree.CommandLine.FileStore
import PhpTree.CommandLine.FileTree
import PhpTree.CommandLine.Report
import PhpTree.CommandLine.Request
import PhpTree.Json.Basic
import PhpTree.Main
import PhpTree.Parse.Basic
import PhpTree.Parse.Cursor
import PhpTree.Parse.Declaration
import PhpTree.Parse.Error
import PhpTree.Parse.Expr
import PhpTree.Parse.Name
import PhpTree.Parse.Program
import PhpTree.Parse.Statement
import PhpTree.Proofs.Accounts
import PhpTree.Proofs.BlankTails
import PhpTree.Proofs.Building
import PhpTree.Proofs.Census
import PhpTree.Proofs.ChangedOptions
import PhpTree.Proofs.Comments
import PhpTree.Proofs.CursorAgreement
import PhpTree.Proofs.Delimiters
import PhpTree.Proofs.Descent
import PhpTree.Proofs.DocClaims
import PhpTree.Proofs.DocComments
import PhpTree.Proofs.DocScope
import PhpTree.Proofs.Elements
import PhpTree.Proofs.Erasing
import PhpTree.Proofs.ErrorOrder
import PhpTree.Proofs.Extents
import PhpTree.Proofs.Faithful.Forms
import PhpTree.Proofs.Faithful.Json
import PhpTree.Proofs.Faithful.Rendering
import PhpTree.Proofs.Faithful.SExpr
import PhpTree.Proofs.Faithful.Text
import PhpTree.Proofs.Gaps
import PhpTree.Proofs.Heights
import PhpTree.Proofs.Joining.Crossing
import PhpTree.Proofs.Joining.Programs
import PhpTree.Proofs.Layout
import PhpTree.Proofs.Leaves
import PhpTree.Proofs.Levels
import PhpTree.Proofs.Lines
import PhpTree.Proofs.Locating
import PhpTree.Proofs.Lookahead
import PhpTree.Proofs.Modes
import PhpTree.Proofs.Nesting
import PhpTree.Proofs.NodeYields
import PhpTree.Proofs.Onward
import PhpTree.Proofs.Pairing.Productions
import PhpTree.Proofs.Pairing.Revisions
import PhpTree.Proofs.Pairing.Rules
import PhpTree.Proofs.ParseAgreement
import PhpTree.Proofs.Parts
import PhpTree.Proofs.Passage
import PhpTree.Proofs.Paths
import PhpTree.Proofs.Positions
import PhpTree.Proofs.Printing.Declarations
import PhpTree.Proofs.Printing.Encoding
import PhpTree.Proofs.Printing.Expressions
import PhpTree.Proofs.Printing.Fitting
import PhpTree.Proofs.Printing.Names
import PhpTree.Proofs.Printing.Operands
import PhpTree.Proofs.Printing.Printer
import PhpTree.Proofs.Printing.ReadBack
import PhpTree.Proofs.Printing.Recovery
import PhpTree.Proofs.Printing.RoundTrip
import PhpTree.Proofs.Printing.Statements
import PhpTree.Proofs.Printing.Words
import PhpTree.Proofs.Pruning
import PhpTree.Proofs.Reading.Declarations
import PhpTree.Proofs.Reading.Expressions
import PhpTree.Proofs.Reading.Names
import PhpTree.Proofs.Reading.Programs
import PhpTree.Proofs.Reading.Statements
import PhpTree.Proofs.RunMeets
import PhpTree.Proofs.Searches
import PhpTree.Proofs.Skipping
import PhpTree.Proofs.Sorting
import PhpTree.Proofs.Sorts
import PhpTree.Proofs.Spacing
import PhpTree.Proofs.Standing
import PhpTree.Proofs.Stream
import PhpTree.Proofs.Termination
import PhpTree.Proofs.Tiling
import PhpTree.Source.Position
import PhpTree.Text.Bytes
import PhpTree.Text.Quoted
import PhpTree.Token.AssignOp
import PhpTree.Token.Keyword
import PhpTree.Token.Kind
import PhpTree.Token.Lexer
import PhpTree.Token.Scan
import PhpTree.Tree.Attributes
import PhpTree.Tree.Build
import PhpTree.Tree.Form
import PhpTree.Tree.Json
import PhpTree.Tree.Locate
import PhpTree.Tree.SExpr
import PhpTree.Tree.Trace
