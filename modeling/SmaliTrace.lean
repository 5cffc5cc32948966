import SmaliTrace.Analysis.Basic
import SmaliTrace.BlockGraph.Basic
import SmaliTrace.BlockGraph.Build
import SmaliTrace.BlockGraph.Builder
import SmaliTrace.BlockGraph.Flow
import SmaliTrace.ClassFile.Access
import SmaliTrace.ClassFile.Basic
import SmaliTrace.ClassFile.Parser
import SmaliTrace.CommandLine.Analyze
import SmaliTrace.CommandLine.BlockDump
import SmaliTrace.CommandLine.Flags
import SmaliTrace.CommandLine.Outcome
import SmaliTrace.Config.Basic
import SmaliTrace.Config.Decode
import SmaliTrace.Counters
import SmaliTrace.Dot
import SmaliTrace.FileTree
import SmaliTrace.Graph.Traversal
import SmaliTrace.Index.Basic
import SmaliTrace.Index.Site
import SmaliTrace.Index.Summary
import SmaliTrace.Log
import SmaliTrace.Main
import SmaliTrace.Markdown.Block
import SmaliTrace.Markdown.Block.Parser
import SmaliTrace.Markdown.Character
import SmaliTrace.Markdown.Cursor
import SmaliTrace.Markdown.Entity
import SmaliTrace.Markdown.Html
import SmaliTrace.Markdown.Inline
import SmaliTrace.Markdown.Inline.Parser
import SmaliTrace.Markdown.Link
import SmaliTrace.Markdown.Plain
import SmaliTrace.Markdown.Tag
import SmaliTrace.Number.Double
import SmaliTrace.Number.Radix
import SmaliTrace.Number.Shortest
import SmaliTrace.Number.Word
import SmaliTrace.Program.Basic
import SmaliTrace.Program.Hierarchy
import SmaliTrace.Program.Load
import SmaliTrace.Proofs.Analysis.Findings
import SmaliTrace.Proofs.Analysis.Trace
import SmaliTrace.Proofs.BlockGraph.Blocks
import SmaliTrace.Proofs.BlockGraph.Builder
import SmaliTrace.Proofs.BlockGraph.Departure
import SmaliTrace.Proofs.BlockGraph.Edges
import SmaliTrace.Proofs.BlockGraph.Failure
import SmaliTrace.Proofs.BlockGraph.Labels
import SmaliTrace.Proofs.BlockGraph.Links
import SmaliTrace.Proofs.BlockGraph.Machine
import SmaliTrace.Proofs.BlockGraph.NoDeadCode
import SmaliTrace.Proofs.BlockGraph.Partition
import SmaliTrace.Proofs.BlockGraph.Simulation
import SmaliTrace.Proofs.ClassFile.Annotations
import SmaliTrace.Proofs.ClassFile.Bodies
import SmaliTrace.Proofs.ClassFile.Comments
import SmaliTrace.Proofs.ClassFile.Containment
import SmaliTrace.Proofs.ClassFile.Declarations
import SmaliTrace.Proofs.ClassFile.Descriptors
import SmaliTrace.Proofs.ClassFile.Reading
import SmaliTrace.Proofs.ClassFile.Slots
import SmaliTrace.Proofs.ClassFile.Spelling
import SmaliTrace.Proofs.Graph.BackLinks
import SmaliTrace.Proofs.Graph.BreadthFirst
import SmaliTrace.Proofs.Graph.DepthFirst
import SmaliTrace.Proofs.Graph.ShortestPath
import SmaliTrace.Proofs.Graph.SimplePaths
import SmaliTrace.Proofs.Index.CallSites
import SmaliTrace.Proofs.Index.Embedding
import SmaliTrace.Proofs.Index.Exclusion
import SmaliTrace.Proofs.Index.IntegerLoads
import SmaliTrace.Proofs.Index.Neighbours
import SmaliTrace.Proofs.Index.Orderly
import SmaliTrace.Proofs.Index.Scan
import SmaliTrace.Proofs.Index.Sites
import SmaliTrace.Proofs.Index.StringLoads
import SmaliTrace.Proofs.Index.Warnings
import SmaliTrace.Proofs.Number.Decimal
import SmaliTrace.Proofs.Number.Digits
import SmaliTrace.Proofs.Program.Construction
import SmaliTrace.Proofs.Program.Hierarchy
import SmaliTrace.Proofs.Program.Restriction
import SmaliTrace.Proofs.Program.Subtypes
import SmaliTrace.Proofs.Slice.Action
import SmaliTrace.Proofs.Slice.ArrayMode
import SmaliTrace.Proofs.Slice.ArrayWalk
import SmaliTrace.Proofs.Slice.BackwardLine
import SmaliTrace.Proofs.Slice.Caps
import SmaliTrace.Proofs.Slice.Ceiling
import SmaliTrace.Proofs.Slice.Climb
import SmaliTrace.Proofs.Slice.Completeness
import SmaliTrace.Proofs.Slice.Connection
import SmaliTrace.Proofs.Slice.Counts
import SmaliTrace.Proofs.Slice.Develops
import SmaliTrace.Proofs.Slice.DiscoveryOrder
import SmaliTrace.Proofs.Slice.Exception
import SmaliTrace.Proofs.Slice.Exclusion
import SmaliTrace.Proofs.Slice.ForwardCompleteness
import SmaliTrace.Proofs.Slice.FuzzyCeiling
import SmaliTrace.Proofs.Slice.Graph
import SmaliTrace.Proofs.Slice.Grounded
import SmaliTrace.Proofs.Slice.GroundedActions
import SmaliTrace.Proofs.Slice.GroundedRun
import SmaliTrace.Proofs.Slice.Growth
import SmaliTrace.Proofs.Slice.Keys
import SmaliTrace.Proofs.Slice.Level
import SmaliTrace.Proofs.Slice.Literals
import SmaliTrace.Proofs.Slice.Logical
import SmaliTrace.Proofs.Slice.LogicalRun
import SmaliTrace.Proofs.Slice.Loops
import SmaliTrace.Proofs.Slice.Mirror
import SmaliTrace.Proofs.Slice.Paths
import SmaliTrace.Proofs.Slice.Performed
import SmaliTrace.Proofs.Slice.Recording
import SmaliTrace.Proofs.Slice.Records
import SmaliTrace.Proofs.Slice.Renaming
import SmaliTrace.Proofs.Slice.Representation
import SmaliTrace.Proofs.Slice.Retrace
import SmaliTrace.Proofs.Slice.RetraceActions
import SmaliTrace.Proofs.Slice.RetraceRun
import SmaliTrace.Proofs.Slice.Session
import SmaliTrace.Proofs.Slice.Termination
import SmaliTrace.Proofs.Slice.TrackedMethod
import SmaliTrace.Proofs.Slice.Tree
import SmaliTrace.Proofs.Slice.Turn
import SmaliTrace.Proofs.Slice.Uncalled
import SmaliTrace.Proofs.Slice.ValuePath
import SmaliTrace.Proofs.Slice.Visits
import SmaliTrace.Proofs.Slice.Worklist
import SmaliTrace.Proofs.Smali.Decoder
import SmaliTrace.Proofs.Smali.Decodings
import SmaliTrace.Proofs.Smali.Integer
import SmaliTrace.Proofs.Smali.Literal
import SmaliTrace.Proofs.Smali.Reference
import SmaliTrace.Proofs.Smali.Register
import SmaliTrace.Proofs.Smali.RegisterRange
import SmaliTrace.Proofs.Smali.Shape
import SmaliTrace.Proofs.Store.Database
import SmaliTrace.Proofs.Store.History
import SmaliTrace.Proofs.Store.Json
import SmaliTrace.Proofs.Store.Laws
import SmaliTrace.Proofs.Store.Record
import SmaliTrace.Proofs.Text.Cut
import SmaliTrace.Proofs.Text.Octets
import SmaliTrace.Proofs.Text.Quoted
import SmaliTrace.Proofs.Timestamp
import SmaliTrace.Regex.Basic
import SmaliTrace.Regex.Fold
import SmaliTrace.Regex.Parser
import SmaliTrace.Regex.Property
import SmaliTrace.Regex.Size
import SmaliTrace.Report.Console
import SmaliTrace.Report.Document
import SmaliTrace.Report.Page
import SmaliTrace.Slice.Array
import SmaliTrace.Slice.Backward
import SmaliTrace.Slice.Constant
import SmaliTrace.Slice.Fault
import SmaliTrace.Slice.Forward
import SmaliTrace.Slice.Graph
import SmaliTrace.Slice.Options
import SmaliTrace.Slice.Origin
import SmaliTrace.Slice.Pattern
import SmaliTrace.Slice.Run
import SmaliTrace.Slice.Search
import SmaliTrace.Slice.Tree
import SmaliTrace.Slice.Worklist
import SmaliTrace.Smali.Decoder
import SmaliTrace.Smali.Error
import SmaliTrace.Smali.Instruction
import SmaliTrace.Smali.Kind
import SmaliTrace.Smali.Literal
import SmaliTrace.Smali.Reference
import SmaliTrace.Smali.Register
import SmaliTrace.Store.Archive
import SmaliTrace.Store.Basic
import SmaliTrace.Store.Engine
import SmaliTrace.Store.Json
import SmaliTrace.Store.Record
import SmaliTrace.Text.Base64
import SmaliTrace.Text.Category
import SmaliTrace.Text.Cut
import SmaliTrace.Text.Digit
import SmaliTrace.Text.Interval
import SmaliTrace.Text.Lines
import SmaliTrace.Text.Octets
import SmaliTrace.Text.Quoted
import SmaliTrace.Text.Script
import SmaliTrace.Timestamp
import SmaliTrace.Yaml.Decoder
import SmaliTrace.Yaml.Event
import SmaliTrace.Yaml.Node
import SmaliTrace.Yaml.Scalar
import SmaliTrace.Yaml.Source
import SmaliTrace.Yaml.Tag
import SmaliTrace.Yaml.Token.Lexer
import SmaliTrace.Yaml.Value
