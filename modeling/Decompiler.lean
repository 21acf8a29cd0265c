import Decompiler.Arguments
import Decompiler.Code.Basic
import Decompiler.Code.Expression
import Decompiler.Code.Listing
import Decompiler.Code.Printer
import Decompiler.Command
import Decompiler.Decimal.Notation
import Decompiler.Decimal.Shortest
import Decompiler.Decompile
import Decompiler.Descriptor
import Decompiler.Error
import Decompiler.Event.Assembler
import Decompiler.Event.Basic
import Decompiler.Event.Feed
import Decompiler.Event.FeedWriter
import Decompiler.Execution.Basic
import Decompiler.Execution.Body
import Decompiler.Execution.Idiom
import Decompiler.Execution.Instruction
import Decompiler.Execution.Run
import Decompiler.Filter
import Decompiler.Graph.Basic
import Decompiler.Graph.Disposal
import Decompiler.Graph.Dominance
import Decompiler.Graph.Dot
import Decompiler.Graph.Dump
import Decompiler.Graph.Merge
import Decompiler.Graph.Node
import Decompiler.Graph.Region
import Decompiler.Graph.Split
import Decompiler.Graph.Stack
import Decompiler.Graph.Switch
import Decompiler.History
import Decompiler.Json.Basic
import Decompiler.Json.Fields
import Decompiler.Json.Parser
import Decompiler.Json.Printer
import Decompiler.JvmType
import Decompiler.Local.Placement
import Decompiler.Local.Table
import Decompiler.Main
import Decompiler.Opcode.Basic
import Decompiler.Opcode.Category
import Decompiler.Operand.Basic
import Decompiler.Operand.Coercion
import Decompiler.Operand.Condition
import Decompiler.Operand.Display
import Decompiler.Operand.Operator
import Decompiler.Operand.Traversal
import Decompiler.Options
import Decompiler.Report
import Decompiler.Structure.Fold
import Decompiler.Structure.Folding
import Decompiler.Structure.Iteration
import Decompiler.Structure.Loop
import Decompiler.Structure.Reach
import Decompiler.Structure.Nesting
import Decompiler.Structure.Tree
import Decompiler.Symbols
import Decompiler.Text.Escaped
import Decompiler.Text.Printable
import Decompiler.Text.Quoted
import Decompiler.TypeCell
import Decompiler.Proofs.Expression.Decompiled
import Decompiler.Proofs.Graph.Operation
import Decompiler.Proofs.Arithmetic.Agreement
import Decompiler.Proofs.Dominance.Session
import Decompiler.Proofs.Structure.Decompiled
import Decompiler.Proofs.Structure.Jumping
import Decompiler.Proofs.Structure.Standing
import Decompiler.Proofs.Structure.Omitting
import Decompiler.Proofs.Structure.Conserved
import Decompiler.Proofs.Region.Purging
import Decompiler.Proofs.Region.Dominated
import Decompiler.Proofs.Region.Copies
import Decompiler.Proofs.Region.Table
import Decompiler.Proofs.Switch.Heads
import Decompiler.Proofs.Structure.Iterating
import Decompiler.Proofs.Types.Operation
import Decompiler.Proofs.Types.Binding
import Decompiler.Proofs.Execution.Rules
import Decompiler.Proofs.Graph.Trimming
import Decompiler.Proofs.Execution.Anchored
import Decompiler.Proofs.Execution.Settling
import Decompiler.Proofs.Graph.Splicing
import Decompiler.Proofs.Event.RoundTrip
import Decompiler.Proofs.Condition.Truth
import Decompiler.Proofs.Condition.Negation
import Decompiler.Proofs.Graph.Merging
import Decompiler.Proofs.Graph.Reachable
import Decompiler.Proofs.Graph.Backedges
import Decompiler.Proofs.Dominance.Common
import Decompiler.Proofs.Graph.FlatStack
import Decompiler.Proofs.Assignment.Compound
import Decompiler.Proofs.Execution.Concatenation
import Decompiler.Proofs.Initializer.Created
import Decompiler.Proofs.Execution.Joining
import Decompiler.Proofs.Descriptor.Method
import Decompiler.Proofs.Literal.Constant
import Decompiler.Proofs.Switch.Dispatch
import Decompiler.Proofs.Local.Calls
import Decompiler.Proofs.Local.Placing
import Decompiler.Proofs.Graph.Drawing
import Decompiler.Proofs.Graph.Dangling
import Decompiler.Proofs.Graph.Branching
import Decompiler.Proofs.Source.Rendered
import Decompiler.Proofs.Operand.Redirecting
import Decompiler.Proofs.History.Recorded
