import Frontend.Arguments
import Frontend.BaseType
import Frontend.Constant.Basic
import Frontend.Constant.Floating
import Frontend.Constant.Fold
import Frontend.Constant.Text
import Frontend.Cycle
import Frontend.Cycle.Events
import Frontend.Decimal.Layout
import Frontend.Decimal.Shortest
import Frontend.Decl.Basic
import Frontend.Decl.Text
import Frontend.Declare.Actions
import Frontend.Declare.FieldCycle
import Frontend.Declare.Line
import Frontend.Diagnostic
import Frontend.Expr.Basic
import Frontend.Expr.Copy
import Frontend.Expr.Exits
import Frontend.Expr.FieldIndex
import Frontend.Expr.Parts
import Frontend.Expr.Statements
import Frontend.Expr.Subtrees
import Frontend.Fault
import Frontend.Library
import Frontend.NameMap
import Frontend.Optimizer.Passes
import Frontend.Optimizer.Reachability
import Frontend.Optimizer.Rounds
import Frontend.Optimizer.Rules
import Frontend.Program.Basic
import Frontend.Program.Names
import Frontend.Program.Validity
import Frontend.Record.Basic
import Frontend.Record.Format
import Frontend.Record.Read
import Frontend.Record.Values
import Frontend.Record.Workspace
import Frontend.Record.Write
import Frontend.Script.Basic
import Frontend.Script.Visitor
import Frontend.Sexp
import Frontend.Span
import Frontend.Store.Basic
import Frontend.Store.Ownership
import Frontend.Store.Registry
import Frontend.Table
import Frontend.Text.Letter
import Frontend.Text.Quoted
import Frontend.Text.Unprintable
import Frontend.Total
import Frontend.Traversal.Dump
import Frontend.Traversal.Program
import Frontend.Traversal.Visitor
import Frontend.Traversal.Walk
import Frontend.Traversal.Whole
import Frontend.Ty
import Frontend.Ty.Copying
import Frontend.Ty.Layout
import Frontend.Ty.Text
import Frontend.Proofs.Traversal.Children
import Frontend.Proofs.Traversal.Weight
import Frontend.Proofs.Traversal.Ends
import Frontend.Proofs.Traversal.Walk
import Frontend.Proofs.Table
import Frontend.Proofs.Traversal.Initializers
import Frontend.Proofs.Traversal.Meets
import Frontend.Proofs.Traversal.Module
import Frontend.Proofs.Ownership
import Frontend.Proofs.Traversal.Collecting
import Frontend.Proofs.Traversal.Rewriting
import Frontend.Proofs.Optimizer.Reachability
import Frontend.Proofs.Optimizer.Flattening
import Frontend.Proofs.Optimizer.Shrinking
import Frontend.Proofs.Optimizer.Tallies
import Frontend.Proofs.Optimizer.Bulk
import Frontend.Proofs.Optimizer.Firing
import Frontend.Proofs.Optimizer.Unused
import Frontend.Proofs.Constant.Words
import Frontend.Proofs.Semantics.Operators
import Frontend.Proofs.Semantics.Meaning
import Frontend.Proofs.Semantics.Passes
import Frontend.Proofs.Optimizer.Links
import Frontend.Proofs.Validity
import Frontend.Proofs.Resolution
import Frontend.Proofs.Optimizer.Rounds
import Frontend.Proofs.Optimizer.Validity
import Frontend.Proofs.Optimizer.Convergence
import Frontend.Proofs.Optimizer.Jumps
import Frontend.Proofs.Optimizer.Idle
import Frontend.Proofs.Optimizer.Fixpoint
import Frontend.Proofs.Optimizer.Failed
import Frontend.Proofs.Registration.Names
import Frontend.Proofs.Registration.Stamping
import Frontend.Proofs.Registration.Reached
import Frontend.Proofs.Registration.Labels
import Frontend.Proofs.Registration.Overloads
import Frontend.Proofs.Copying.Mentions
import Frontend.Proofs.Copying.Renaming
import Frontend.Proofs.Copying.Copies
import Frontend.Proofs.Copying.Growth
import Frontend.Proofs.Copying.SelfContained
import Frontend.Proofs.Registration.Decoding
import Frontend.Proofs.Registration.Refusal
import Frontend.Proofs.Traversal.Moving
import Frontend.Proofs.Registration.Succession
import Frontend.Proofs.Registration.Keeping
import Frontend.Proofs.Registration.Replacing
import Frontend.Proofs.Registration.Scripts
import Frontend.Proofs.Registration.AfterWalk
import Frontend.Proofs.Optimizer.Anchors
import Frontend.Proofs.Optimizer.Anchoring
import Frontend.Proofs.Registration.Shadowing
import Frontend.Proofs.Semantics.Leaving
import Frontend.Proofs.Traversal.Lossless
import Frontend.Proofs.Cycle
import Frontend.Proofs.Cycle.Events
import Frontend.Proofs.Layout.Containment
import Frontend.Proofs.Layout.FieldCycles
import Frontend.Proofs.Layout.Staying
import Frontend.Proofs.Layout.Cloning
import Frontend.Proofs.Copying.Faithful
import Frontend.Traversal.Dispatch
import Frontend.Proofs.Dump.Reading
import Frontend.Proofs.Dump.Copies
import Frontend.Proofs.Dump.Trees
import Frontend.Proofs.Dump.Recursion
import Frontend.Proofs.Traversal.Lists
import Frontend.Proofs.Traversal.ListNodes
import Frontend.Proofs.Declaring.Effects
import Frontend.Proofs.Declaring.Actions
import Frontend.Proofs.Declaring.Sessions
import Frontend.Proofs.Registration.Relinking
import Frontend.Proofs.Constant.Conversion
import Frontend.Proofs.Floating.Packing
import Frontend.Proofs.Floating.Rounding
import Frontend.Proofs.Floating.Words
import Frontend.Proofs.Constant.Casting
import Frontend.Proofs.Constant.Wide
import Frontend.Proofs.Registration.GlobalOrder
import Frontend.Proofs.Optimizer.Paths
import Frontend.Proofs.Optimizer.Exhausting
import Frontend.Proofs.Optimizer.Retaining
import Frontend.Proofs.Optimizer.Naming
import Frontend.Proofs.Optimizer.Pruning
import Frontend.Proofs.Optimizer.NormalForms
import Frontend.Proofs.Lookup.Searching
import Frontend.Proofs.Lookup.Calls
import Frontend.Proofs.Lookup.Candidates
import Frontend.Proofs.Lookup.TypeNames
import Frontend.Proofs.Declaring.Deriving
import Frontend.Proofs.Declaring.Numbering
import Frontend.Proofs.Declaring.Storage
import Frontend.Proofs.Layout.Alignment
import Frontend.Proofs.Layout.Casts
import Frontend.Proofs.Layout.Inheritance
import Frontend.Proofs.Layout.Soundness
import Frontend.Proofs.Layout.CopyOrder
import Frontend.Proofs.Lookup.Elements
import Frontend.Proofs.Layout.Demands
import Frontend.Proofs.Layout.Fitting
import Frontend.Proofs.Layout.Room
import Frontend.Proofs.Declaring.FirstOfName
import Frontend.Proofs.Declaring.Lines
import Frontend.Proofs.Declaring.Reporting
import Frontend.Proofs.Declaring.Redeclaring
import Frontend.Proofs.Declaring.Fields
import Frontend.Proofs.Declaring.Globals
import Frontend.Proofs.Declaring.Distinct
import Frontend.Proofs.Dump.LineBreaks
import Frontend.Proofs.Semantics.Stopping
