import ChatTemplate.Layout
import ChatTemplate.Lexeme
import ChatTemplate.Text.Case
import ChatTemplate.Text.Printable
import ChatTemplate.Expr
import ChatTemplate.Grammar.Basic
import ChatTemplate.Grammar.Expr
import ChatTemplate.Stmt
import ChatTemplate.Node
import ChatTemplate.Compile
import ChatTemplate.Number.Double
import ChatTemplate.Number.Reading
import ChatTemplate.Number.Shortest
import ChatTemplate.Slots
import ChatTemplate.Store
import ChatTemplate.Text.Lines
import ChatTemplate.Text.Quoted
import ChatTemplate.Text.Split
import ChatTemplate.Text.Title
import ChatTemplate.Datum
import ChatTemplate.Datum.Json
import ChatTemplate.Datum.Text
import ChatTemplate.Fault
import ChatTemplate.Eval.Arguments
import ChatTemplate.Eval.Operators
import ChatTemplate.Eval.Members
import ChatTemplate.Eval.Methods
import ChatTemplate.Eval.Tests
import ChatTemplate.Sorting
import ChatTemplate.Eval.Filters
import ChatTemplate.Eval.Binding
import ChatTemplate.Eval.Block
import ChatTemplate.Eval.Calls
import ChatTemplate.Eval.Expr
import ChatTemplate.Eval.Stmt
import ChatTemplate.CommandLine
import ChatTemplate.Main
import ChatTemplate.Proofs.Eval.Growth
import ChatTemplate.Proofs.Eval.Frames
import ChatTemplate.Proofs.Lexeme.Lossless
import ChatTemplate.Proofs.Grammar.Print
import ChatTemplate.Proofs.Grammar.Items
import ChatTemplate.Proofs.Grammar.Levels
import ChatTemplate.Proofs.Grammar.Complete
import ChatTemplate.Proofs.Grammar.Spelling
import ChatTemplate.Proofs.Grammar.Takes
import ChatTemplate.Proofs.Grammar.ExprSound
import ChatTemplate.Proofs.Grammar.StmtSound
import ChatTemplate.Proofs.Grammar.Leaves
import ChatTemplate.Proofs.Grammar.Parts
import ChatTemplate.Proofs.Grammar.Schema
import ChatTemplate.Proofs.Grammar.FilterCalls
import ChatTemplate.Proofs.Store.Saturation
import ChatTemplate.Proofs.Layout.Options
import ChatTemplate.Proofs.Layout.Breaks
import ChatTemplate.Proofs.Layout.TrimMarkers
import ChatTemplate.Proofs.Eval.Names
import ChatTemplate.Proofs.Eval.Pairing
import ChatTemplate.Proofs.Eval.View
import ChatTemplate.Proofs.Sorting.Renaming
import ChatTemplate.Proofs.Sorting.Errors
import ChatTemplate.Proofs.Eval.Contract
import ChatTemplate.Proofs.Eval.Primitives
import ChatTemplate.Proofs.Eval.FilterPrimitives
import ChatTemplate.Proofs.Eval.Simulation
import ChatTemplate.Proofs.Eval.Blindness
import ChatTemplate.Proofs.Eval.Dependence
import ChatTemplate.Proofs.Template.Allocation
import ChatTemplate.Proofs.Template.Declaration
import ChatTemplate.Proofs.Template.Variables
import ChatTemplate.Proofs.Eval.Tame
import ChatTemplate.Proofs.Eval.Dictionaries
import ChatTemplate.Proofs.Eval.Signals
import ChatTemplate.Proofs.Lexeme.Numerals
import ChatTemplate.Proofs.Template.Reachable
import ChatTemplate.Proofs.Template.Signals
import ChatTemplate.Proofs.Template.Escapes
import ChatTemplate.Proofs.Template.FilterNames
import ChatTemplate.Proofs.Template.CompileFaults
import ChatTemplate.Proofs.Template.Constructs
import ChatTemplate.Proofs.Template.Locations
import ChatTemplate.Proofs.Eval.Assignments
import ChatTemplate.Proofs.Heap.Changes
import ChatTemplate.Proofs.Template.Comments
import ChatTemplate.Proofs.Eval.StoreLogic
import ChatTemplate.Proofs.Json.Scalars
import ChatTemplate.Proofs.Json.RoundTrip
import ChatTemplate.Proofs.Eval.Exchange
import ChatTemplate.Proofs.Eval.Loops
import ChatTemplate.Proofs.Carrier.Passing
import ChatTemplate.Proofs.Carrier.Functions
import ChatTemplate.Proofs.Carrier.Filters
import ChatTemplate.Proofs.Carrier.Evaluation
import ChatTemplate.Proofs.Store.Reachability
import ChatTemplate.Proofs.Store.Answers
import ChatTemplate.Proofs.Eval.Provenance
import ChatTemplate.Proofs.Eval.Founded
import ChatTemplate.Proofs.Eval.Cycles
import ChatTemplate.Proofs.Template.Cycles
import ChatTemplate.Proofs.Eval.Slices
import ChatTemplate.Proofs.Template.Delivery
import ChatTemplate.Proofs.Template.CallBlocks
import ChatTemplate.Proofs.Sorting.Stability
import ChatTemplate.Proofs.Number.Amount
import ChatTemplate.Proofs.Eval.Steps
import ChatTemplate.Proofs.Eval.Sorted
import ChatTemplate.Proofs.Store.Equality
import ChatTemplate.Proofs.Eval.Uniqueness
import ChatTemplate.Proofs.Text.Splitting
import ChatTemplate.Proofs.Eval.Splitting
import ChatTemplate.Proofs.Text.Pieces
import ChatTemplate.Proofs.Eval.Indentation
import ChatTemplate.Proofs.Text.Quoted
import ChatTemplate.Proofs.Datum.Parts
import ChatTemplate.Proofs.Datum.Literal
import ChatTemplate.Proofs.Eval.Targets
import ChatTemplate.Proofs.Eval.Attributes
import ChatTemplate.Proofs.Eval.Conversion
import ChatTemplate.Proofs.Eval.Nesting
import ChatTemplate.Proofs.Eval.Arithmetic
import ChatTemplate.Proofs.Lexeme.Strings
import ChatTemplate.Proofs.Eval.Titles
