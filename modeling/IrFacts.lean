import IrFacts.Decimal.Layout
import IrFacts.Decimal.Shortest
import IrFacts.Diagnostics.Counter
import IrFacts.Diagnostics.Problem
import IrFacts.Diagnostics.Severity
import IrFacts.Digest.Sha256
import IrFacts.Extraction.ClassQueue
import IrFacts.Extraction.Code
import IrFacts.Extraction.Declarations
import IrFacts.Extraction.Labels
import IrFacts.Extraction.Members
import IrFacts.Extraction.Projection
import IrFacts.Extraction.Session
import IrFacts.Files.Basic
import IrFacts.Files.Disk
import IrFacts.Ir.Declaration
import IrFacts.Ir.Decode
import IrFacts.Ir.Encode
import IrFacts.Ir.Expr
import IrFacts.Ir.Location
import IrFacts.Ir.Type
import IrFacts.Json.Decoder
import IrFacts.Json.Node
import IrFacts.Json.Numeral
import IrFacts.Json.Parse
import IrFacts.Json.Value
import IrFacts.Main
import IrFacts.Output.ClassPath
import IrFacts.Output.ClassTrap
import IrFacts.Output.Drain
import IrFacts.Output.Fingerprint
import IrFacts.Output.Task
import IrFacts.Program
import IrFacts.Proofs.Code.Constructs
import IrFacts.Proofs.Code.DeclarationRows
import IrFacts.Proofs.Code.Filled
import IrFacts.Proofs.Code.Hidden
import IrFacts.Proofs.Code.Initialization
import IrFacts.Proofs.Code.Jumps
import IrFacts.Proofs.Code.LaidOut
import IrFacts.Proofs.Code.Layout
import IrFacts.Proofs.Code.Located
import IrFacts.Proofs.Code.LocatedCode
import IrFacts.Proofs.Code.Nodes
import IrFacts.Proofs.Code.Owed
import IrFacts.Proofs.Code.Parts
import IrFacts.Proofs.Code.Placed
import IrFacts.Proofs.Code.Played
import IrFacts.Proofs.Code.RowTree
import IrFacts.Proofs.Code.Scopes
import IrFacts.Proofs.Code.Unfolding
import IrFacts.Proofs.Diagnostics.Counts
import IrFacts.Proofs.Diagnostics.RateLimit
import IrFacts.Proofs.Diagnostics.Reports
import IrFacts.Proofs.Diagnostics.SiteLimits
import IrFacts.Proofs.Diagnostics.Unreached
import IrFacts.Proofs.Files.Ancestors
import IrFacts.Proofs.Files.Endings
import IrFacts.Proofs.Files.FileNames
import IrFacts.Proofs.Files.Frame
import IrFacts.Proofs.Files.Locations
import IrFacts.Proofs.Files.Operations
import IrFacts.Proofs.Files.Spares
import IrFacts.Proofs.Files.Stores
import IrFacts.Proofs.Ir.LineTables
import IrFacts.Proofs.Ir.RoundTrip
import IrFacts.Proofs.Json.DecodeBack
import IrFacts.Proofs.Json.Printable
import IrFacts.Proofs.Json.ReadBack
import IrFacts.Proofs.Labels.DeclaredParameters
import IrFacts.Proofs.Labels.DefinedFirst
import IrFacts.Proofs.Labels.Faithful
import IrFacts.Proofs.Labels.IntroducedOnce
import IrFacts.Proofs.Labels.NestedClasses
import IrFacts.Proofs.Labels.Overloads
import IrFacts.Proofs.Labels.Placeholders
import IrFacts.Proofs.Labels.Recall
import IrFacts.Proofs.Labels.Stability
import IrFacts.Proofs.Output.Bounded
import IrFacts.Proofs.Output.Closure
import IrFacts.Proofs.Output.Conduct
import IrFacts.Proofs.Output.Confined
import IrFacts.Proofs.Output.Containment
import IrFacts.Proofs.Output.Coverage
import IrFacts.Proofs.Output.DrainLog
import IrFacts.Proofs.Output.FailedClass
import IrFacts.Proofs.Output.FileResults
import IrFacts.Proofs.Output.FreshDrain
import IrFacts.Proofs.Output.Freshness
import IrFacts.Proofs.Output.InvocationTrap
import IrFacts.Proofs.Output.KeptTraps
import IrFacts.Proofs.Output.Outcome
import IrFacts.Proofs.Output.References
import IrFacts.Proofs.Output.Rerun
import IrFacts.Proofs.Output.SecondDrain
import IrFacts.Proofs.Output.SourceTraps
import IrFacts.Proofs.Output.Sparing
import IrFacts.Proofs.Output.Targets
import IrFacts.Proofs.Output.TrapOfClass
import IrFacts.Proofs.Output.TrapPlaces
import IrFacts.Proofs.Output.Vouching
import IrFacts.Proofs.Program.ClassIndex
import IrFacts.Proofs.Program.ExactWalks
import IrFacts.Proofs.Program.SymbolTable
import IrFacts.Proofs.Program.WalkLimits
import IrFacts.Proofs.Program.Walks
import IrFacts.Proofs.Queue.FirstAsked
import IrFacts.Proofs.Run.Account
import IrFacts.Proofs.Run.AccountedCode
import IrFacts.Proofs.Run.AccountedProjection
import IrFacts.Proofs.Run.Action
import IrFacts.Proofs.Run.AskedProjection
import IrFacts.Proofs.Run.Asks
import IrFacts.Proofs.Run.Code
import IrFacts.Proofs.Run.Contexts
import IrFacts.Proofs.Run.Declarations
import IrFacts.Proofs.Run.Event
import IrFacts.Proofs.Run.Fuel
import IrFacts.Proofs.Run.Growth
import IrFacts.Proofs.Run.Initializations
import IrFacts.Proofs.Run.Invocation
import IrFacts.Proofs.Run.Members
import IrFacts.Proofs.Run.Names
import IrFacts.Proofs.Run.Oblivious
import IrFacts.Proofs.Run.Operation
import IrFacts.Proofs.Run.Places
import IrFacts.Proofs.Run.Projection
import IrFacts.Proofs.Run.ReadCode
import IrFacts.Proofs.Run.ReadDeclarations
import IrFacts.Proofs.Run.Reading
import IrFacts.Proofs.Run.Scope
import IrFacts.Proofs.Run.Script
import IrFacts.Proofs.Run.ScriptedCode
import IrFacts.Proofs.Run.Seats
import IrFacts.Proofs.Run.SettledParents
import IrFacts.Proofs.Run.SettledProjection
import IrFacts.Proofs.Run.Settles
import IrFacts.Proofs.Run.Sink
import IrFacts.Proofs.Text.Bytes
import IrFacts.Proofs.Text.Places
import IrFacts.Proofs.Trap.Commands
import IrFacts.Proofs.Trap.Comparison
import IrFacts.Proofs.Trap.DecodedTables
import IrFacts.Proofs.Trap.DefinedKeys
import IrFacts.Proofs.Trap.EquivalenceLaws
import IrFacts.Proofs.Trap.FolderForest
import IrFacts.Proofs.Trap.ReadBack
import IrFacts.Proofs.Trap.Refusals
import IrFacts.Proofs.Trap.SpanLocations
import IrFacts.Proofs.Trap.Verdicts
import IrFacts.Proofs.Types.ArrayElements
import IrFacts.Proofs.Types.ArrayFacts
import IrFacts.Proofs.Types.ArrayLabels
import IrFacts.Proofs.Types.CloneForm
import IrFacts.Proofs.Types.Dangling
import IrFacts.Proofs.Types.ErasureRule
import IrFacts.Proofs.Types.Family
import IrFacts.Proofs.Types.Form
import IrFacts.Proofs.Types.HashConsing
import IrFacts.Proofs.Types.InstanceFacts
import IrFacts.Proofs.Types.Instances
import IrFacts.Proofs.Types.Needs
import IrFacts.Proofs.Types.NormalForm
import IrFacts.Proofs.Types.Parts
import IrFacts.Proofs.Types.Returns
import IrFacts.Proofs.Types.SameLabel
import IrFacts.Run.Basic
import IrFacts.Run.CommandLine
import IrFacts.Run.Config
import IrFacts.Run.Error
import IrFacts.Run.Load
import IrFacts.Run.SourceTrap
import IrFacts.Text.Blank
import IrFacts.Text.Natural
import IrFacts.Text.Path
import IrFacts.Text.Uppercase
import IrFacts.Trap.Equivalence
import IrFacts.Trap.FileWriter
import IrFacts.Trap.Label
import IrFacts.Trap.Line
import IrFacts.Trap.Schema
import IrFacts.Trap.Sink
import IrFacts.Trap.Writer
import IrFacts.Types.Arrays
import IrFacts.Types.Builtins
import IrFacts.Types.Erasure
import IrFacts.Types.ShortName
