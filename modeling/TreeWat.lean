import TreeWat.Main
import TreeWat.Session
import TreeWat.Suite.Draft
import TreeWat.Proofs.Check.Expression
import TreeWat.Proofs.Check.Statement
import TreeWat.Proofs.Check.Lexical
import TreeWat.Proofs.Check.Rules
import TreeWat.Proofs.Check.Globals
import TreeWat.Proofs.Check.Function
import TreeWat.Proofs.Lower.Accepted
import TreeWat.Proofs.Check.Exit
import TreeWat.Proofs.Lower.Program
import TreeWat.Proofs.Check.Faultless
import TreeWat.Proofs.Compiler
import TreeWat.Proofs.Lower.Valid
import TreeWat.Proofs.Run
import TreeWat.Proofs.Wat.Machine
import TreeWat.Proofs.Source
import TreeWat.Proofs.Lower.Simulation.Expression
import TreeWat.Proofs.Lower.Literals
import TreeWat.Proofs.Lower.Simulation.Statement
import TreeWat.Proofs.Lower.Simulation.Function
import TreeWat.Proofs.Lower.Printing
import TreeWat.Proofs.Lower.Meaning
import TreeWat.Proofs.Lower.Simulation.Program
import TreeWat.Proofs.Lower.Behaviour
import TreeWat.Proofs.Lower.EntryPoint
import TreeWat.Proofs.Lower.Layout
import TreeWat.Proofs.Datum.Reading
import TreeWat.Proofs.Datum.Printing
import TreeWat.Proofs.Tree.Roundtrip
import TreeWat.Proofs.Source.Soundness
import TreeWat.Proofs.Lower.Diverts
import TreeWat.Proofs.Lower.Exits
import TreeWat.Proofs.Datum.Grammar
import TreeWat.Proofs.Datum.Roundtrip
import TreeWat.Proofs.Check.Shape
import TreeWat.Proofs.Text.Line
import TreeWat.Proofs.Message
import TreeWat.Proofs.Datum.Refusal
import TreeWat.Proofs.Tree.Refusal
import TreeWat.Proofs.Files
import TreeWat.Proofs.Host
import TreeWat.Proofs.Cli
import TreeWat.Proofs.Lower.Decimal
import TreeWat.Proofs.Lower.AnyState
import TreeWat.Proofs.Compiler.Placement
import TreeWat.Proofs.Check.Alike
import TreeWat.Proofs.Check.Order
import TreeWat.Proofs.Wat.StringText
import TreeWat.Proofs.Lower.Library
import TreeWat.Proofs.Check.Resolution
import TreeWat.Proofs.Loops
import TreeWat.Proofs.Lower.Traced
import TreeWat.Proofs.Check.Loops
import TreeWat.Proofs.Lower.Loops
import TreeWat.Proofs.Compiler.Loops
import TreeWat.Proofs.Session
import TreeWat.Proofs.Check.Collection
import TreeWat.Proofs.Check.Calls
import TreeWat.Proofs.Check.Refusal
import TreeWat.Proofs.Check.Blame
import TreeWat.Proofs.Check.Notes
import TreeWat.Proofs.Wat.Comments
import TreeWat.Proofs.Lower.Debug
import TreeWat.Proofs.Text.Rows
import TreeWat.Proofs.Wat.CommentRows
import TreeWat.Proofs.Lower.Rows
import TreeWat.Proofs.Lower.Shown
import TreeWat.Proofs.Compiler.Debug
import TreeWat.Proofs.Text.Integer
import TreeWat.Proofs.Wat.NumberText
import TreeWat.Proofs.Tree.Literals
import TreeWat.Proofs.Lower.Numbers
import TreeWat.Proofs.Scope.Table
import TreeWat.Proofs.Scope
import TreeWat.Proofs.Datum.Positions
import TreeWat.Proofs.Datum.Trailing
import TreeWat.Proofs.Suite
import TreeWat.Proofs.Check.Listing
import TreeWat.Proofs.Wat.Nesting
import TreeWat.Proofs.Text.Blank
import TreeWat.Proofs.Suite.Entry
import TreeWat.Proofs.Path
import TreeWat.Proofs.Cli.Source
import TreeWat.Proofs.Datum.Progress
import TreeWat.Proofs.Tree.Indices
import TreeWat.Proofs.Datum.Walk
import TreeWat.Proofs.Datum.Equations
import TreeWat.Proofs.Datum.Metadata
import TreeWat.Proofs.Tree.Metadata
