import ScriptHeap.Data.FinMap
import ScriptHeap.Data.FinSet
import ScriptHeap.Text.Quoted
import ScriptHeap.Decimal.Layout
import ScriptHeap.Json.Reader
import ScriptHeap.Json.Shape
import ScriptHeap.Json.Writer
import ScriptHeap.CallString
import ScriptHeap.Place
import ScriptHeap.ScopeChain
import ScriptHeap.Token
import ScriptHeap.Value.Printer
import ScriptHeap.Options
import ScriptHeap.Program.FlowGraph
import ScriptHeap.Interner
import ScriptHeap.Localization
import ScriptHeap.State.Join
import ScriptHeap.State.Printer
import ScriptHeap.State.Variables
import ScriptHeap.Session.Command
import ScriptHeap.Program.Description
import ScriptHeap.Report.Heap
import ScriptHeap.Report.Program
import ScriptHeap.Host.ClassTable
import ScriptHeap.Transfer.Foreign
import ScriptHeap.Report.Analysis
import ScriptHeap.Proofs.Analysis.HostMemory
import ScriptHeap.Proofs.Analysis.MustFacts
import ScriptHeap.Proofs.Transfer.Receivers
import ScriptHeap.Proofs.State.Contents
import ScriptHeap.Proofs.Transfer.Step
import ScriptHeap.Proofs.Analysis.PropertyFacts
import ScriptHeap.Proofs.Analysis.EntryValues
import ScriptHeap.Proofs.Analysis.Invariants
import ScriptHeap.Proofs.Analysis.Outline
import ScriptHeap.Proofs.Analysis.Termination
import ScriptHeap.Proofs.Transfer.Monotone
import ScriptHeap.Proofs.State.Merge
import ScriptHeap.Proofs.Transfer.Hostless
import ScriptHeap.Proofs.Analysis.Conservative
import ScriptHeap.Proofs.State.View
import ScriptHeap.Proofs.State.Holders
import ScriptHeap.Proofs.Session.FullCopies
import ScriptHeap.Proofs.Session.Ledger
import ScriptHeap.Proofs.Transfer.Blind
import ScriptHeap.Proofs.Analysis.CopyOnWrite
import ScriptHeap.Proofs.Analysis.Occurrence
import ScriptHeap.Proofs.Analysis.Consistency
import ScriptHeap.Proofs.Transfer.HostShapes
import ScriptHeap.Proofs.Analysis.HostObjects
import ScriptHeap.Proofs.Session.Mutation
import ScriptHeap.Proofs.State.Restore
import ScriptHeap.Proofs.Analysis.Pushes
import ScriptHeap.Proofs.Analysis.Coverage
import ScriptHeap.Proofs.Interner
import ScriptHeap.Proofs.State.Defaults
import ScriptHeap.Proofs.Program.Builder
import ScriptHeap.Proofs.Program.Serialization
import ScriptHeap.Proofs.Analysis.Arguments
import ScriptHeap.Proofs.Localization
import ScriptHeap.Proofs.Session.Labels
import ScriptHeap.Proofs.State.Parts
import ScriptHeap.Proofs.State.Properties
import ScriptHeap.Proofs.ArrayIndex
import ScriptHeap.Proofs.Program.PostOrder
import ScriptHeap.Proofs.State.Writes
import ScriptHeap.Proofs.Transfer.MixedReads
import ScriptHeap.Proofs.Host.Replay
import ScriptHeap.Proofs.Names
