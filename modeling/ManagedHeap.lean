import ManagedHeap.Bag
import ManagedHeap.Binary32
import ManagedHeap.Bitmap
import ManagedHeap.Bitmap.Shelf
import ManagedHeap.Cells
import ManagedHeap.Config
import ManagedHeap.Error
import ManagedHeap.Gaps
import ManagedHeap.Heap
import ManagedHeap.Heap.Callbacks
import ManagedHeap.Heap.Chronicle
import ManagedHeap.Heap.Deeds
import ManagedHeap.Heap.Collection
import ManagedHeap.Heap.Operation
import ManagedHeap.Heap.Handles
import ManagedHeap.Heap.Requests
import ManagedHeap.Heap.Journal
import ManagedHeap.Heap.Watching
import ManagedHeap.MarkStack
import ManagedHeap.Marking
import ManagedHeap.Marking.References
import ManagedHeap.Marking.Sweep
import ManagedHeap.Nearest
import ManagedHeap.Object
import ManagedHeap.ObjectModel
import ManagedHeap.Profile
import ManagedHeap.Region
import ManagedHeap.Report
import ManagedHeap.Roots
import ManagedHeap.Rounding
import ManagedHeap.Safepoint
import ManagedHeap.Safepoint.Operation
import ManagedHeap.Script.Execution
import ManagedHeap.Script.KeptBitmaps
import ManagedHeap.Script.Phases
import ManagedHeap.Script.Program
import ManagedHeap.Script.Session
import ManagedHeap.Script.Vocabulary
import ManagedHeap.Script.Workbench
import ManagedHeap.Size
import ManagedHeap.Source
import ManagedHeap.Source.Allocation
import ManagedHeap.Source.Arenas
import ManagedHeap.Source.External
import ManagedHeap.Source.Operation
import ManagedHeap.Source.Sizing
import ManagedHeap.Space
import ManagedHeap.Space.Operation
import ManagedHeap.Tables
import ManagedHeap.Text.ByteCount
import ManagedHeap.Text.Graphic
import ManagedHeap.Text.Quoted
import ManagedHeap.Word
import ManagedHeap.WorkQueue
import ManagedHeap.Proofs.Actions
import ManagedHeap.Proofs.Bitmaps
import ManagedHeap.Proofs.Walks
import ManagedHeap.Proofs.Shelves
import ManagedHeap.Proofs.Sizes
import ManagedHeap.Proofs.Spaces
import ManagedHeap.Proofs.Chunks
import ManagedHeap.Proofs.Sources
import ManagedHeap.Proofs.Memory
import ManagedHeap.Proofs.SourceCases
import ManagedHeap.Proofs.CycleCases
import ManagedHeap.Proofs.HeapCases
import ManagedHeap.Proofs.SourceSteps
import ManagedHeap.Proofs.ArenaSteps
import ManagedHeap.Proofs.Steering
import ManagedHeap.Proofs.Contents
import ManagedHeap.Proofs.SourceRuns
import ManagedHeap.Proofs.FrozenArenas
import ManagedHeap.Proofs.Ledgers
import ManagedHeap.Proofs.Counting
import ManagedHeap.Proofs.Consistency
import ManagedHeap.Proofs.Apportioning
import ManagedHeap.Proofs.Backing
import ManagedHeap.Proofs.LastResorts
import ManagedHeap.Proofs.Marks
import ManagedHeap.Proofs.Tracing
import ManagedHeap.Proofs.Scanning
import ManagedHeap.Proofs.References
import ManagedHeap.Proofs.Sweeping
import ManagedHeap.Proofs.Collection
import ManagedHeap.Proofs.Cycles
import ManagedHeap.Proofs.Scheduling
import ManagedHeap.Proofs.Clearing
import ManagedHeap.Proofs.Heaps
import ManagedHeap.Proofs.TableEntries
import ManagedHeap.Proofs.Operations
import ManagedHeap.Proofs.Reachability
import ManagedHeap.Proofs.Rooms
import ManagedHeap.Proofs.HeapRuns
import ManagedHeap.Proofs.Chronicles
import ManagedHeap.Proofs.ExternalMemory
import ManagedHeap.Proofs.Survival
import ManagedHeap.Proofs.HeldReferences
import ManagedHeap.Proofs.StackDepth
import ManagedHeap.Proofs.Filling
import ManagedHeap.Proofs.Finalization
import ManagedHeap.Proofs.Journals
import ManagedHeap.Proofs.CallbackOrder
import ManagedHeap.Proofs.Phantoms
import ManagedHeap.Proofs.Weaving
import ManagedHeap.Proofs.Tiling
import ManagedHeap.Proofs.Isolation
import ManagedHeap.Proofs.LiveTables
import ManagedHeap.Proofs.QueuedReferences
import ManagedHeap.Proofs.Queries
import ManagedHeap.Proofs.LiveCalls
import ManagedHeap.Proofs.ChronicleRuns
import ManagedHeap.Proofs.Hysteresis
import ManagedHeap.Proofs.Conservation
import ManagedHeap.Proofs.NewChunks
import ManagedHeap.Proofs.OutOfMemory
import ManagedHeap.Proofs.Requests
import ManagedHeap.Proofs.Simulations
import ManagedHeap.Proofs.Renumbering
import ManagedHeap.Proofs.RenumberedRuns
import ManagedHeap.Proofs.RenumberedChronicles
import ManagedHeap.Proofs.CompactBitmaps
import ManagedHeap.Proofs.SwappedBitmaps
import ManagedHeap.Proofs.Snapshots
import ManagedHeap.Proofs.SharedReferents
import ManagedHeap.Proofs.BestFit
import ManagedHeap.Proofs.Reversal
import ManagedHeap.Proofs.ChunkRecords
import ManagedHeap.Proofs.Charges
import ManagedHeap.Proofs.Utilization
import ManagedHeap.Proofs.Retained
import ManagedHeap.Proofs.ExternalAccounts
import ManagedHeap.Proofs.Placements
import ManagedHeap.Proofs.SoftLimits
import ManagedHeap.Proofs.StrayFrees
import ManagedHeap.Proofs.Allowances
import ManagedHeap.Proofs.ExternalRequests
import ManagedHeap.Proofs.MakingRoom
import ManagedHeap.Proofs.Ratios
import ManagedHeap.Proofs.Draining
import ManagedHeap.Proofs.Reporting
import ManagedHeap.Proofs.Profiles
import ManagedHeap.Proofs.Suspension
import ManagedHeap.Proofs.Deeds
import ManagedHeap.Proofs.MarkContexts
import ManagedHeap.Proofs.Visits
import ManagedHeap.Proofs.VisitedOnce
