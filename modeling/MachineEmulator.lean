import MachineEmulator.Library.Accounts
import MachineEmulator.Library.BinaryCounter
import MachineEmulator.Library.DeviceTree
import MachineEmulator.Library.Frontier
import MachineEmulator.Library.JobQueue
import MachineEmulator.Library.LinkedRing
import MachineEmulator.Library.MerkleSketch
import MachineEmulator.Library.MerkleTree
import MachineEmulator.Library.Overlay
import MachineEmulator.Library.PartialTree
import MachineEmulator.Library.Peg
import MachineEmulator.Library.Program
import MachineEmulator.Library.Rehash
import MachineEmulator.Library.Rounding
import MachineEmulator.Library.Settling
import MachineEmulator.Library.SlidingWindow
import MachineEmulator.Library.Walk
import MachineEmulator.Construction.AccessLog
import MachineEmulator.Construction.Cmio.LogSendCmioResponse
import MachineEmulator.Construction.Cmio.SendCmioResponse
import MachineEmulator.Construction.Collect.BackMerkleTree
import MachineEmulator.Construction.Collect.McycleRootHashes
import MachineEmulator.Construction.Console.MachineConsole
import MachineEmulator.Construction.Console.SetConfig
import MachineEmulator.Construction.Evmu.Decode
import MachineEmulator.Construction.Evmu.Encode
import MachineEmulator.Construction.Evmu.Grammar
import MachineEmulator.Construction.Evmu.TypeSpec
import MachineEmulator.Construction.Evmu.Value
import MachineEmulator.Construction.Failure
import MachineEmulator.Construction.Fdt.FdtBuilder
import MachineEmulator.Construction.HashTree.CacheStorage
import MachineEmulator.Construction.HashTree.DirtyPageTree
import MachineEmulator.Construction.HashTree.EntryCache
import MachineEmulator.Construction.HashTree.HashTree
import MachineEmulator.Construction.HashTree.Increment
import MachineEmulator.Construction.HashTree.PageHashTreeCache
import MachineEmulator.Construction.HashTree.PageTrees
import MachineEmulator.Construction.HashTree.ProofSlice
import MachineEmulator.Construction.HashTree.Query
import MachineEmulator.Construction.Hasher
import MachineEmulator.Construction.Interpret.Csr
import MachineEmulator.Construction.Interpret.Devices
import MachineEmulator.Construction.Interpret.Loop
import MachineEmulator.Construction.Interpret.Plic
import MachineEmulator.Construction.Interpret.Registers
import MachineEmulator.Construction.Interpret.TranslateVirtualAddress
import MachineEmulator.Construction.Interpret.Trap
import MachineEmulator.Construction.Json.Base64
import MachineEmulator.Construction.Json.ConfigFile
import MachineEmulator.Construction.Json.JsonUtil
import MachineEmulator.Construction.Json.MachineConfig
import MachineEmulator.Construction.Json.Value
import MachineEmulator.Construction.Machine.AddressRange
import MachineEmulator.Construction.Machine.AdjustDefaults
import MachineEmulator.Construction.Machine.MachineConfig
import MachineEmulator.Construction.Memory
import MachineEmulator.Construction.Outputs.HashTree
import MachineEmulator.Construction.Outputs.RootHash
import MachineEmulator.Construction.SoftFloat.Arithmetic
import MachineEmulator.Construction.SoftFloat.Comparisons
import MachineEmulator.Construction.SoftFloat.Conversions
import MachineEmulator.Construction.SoftFloat.Format
import MachineEmulator.Construction.StepLog.Record
import MachineEmulator.Construction.StepLog.Replay
import MachineEmulator.Construction.SymbolicHasher
import MachineEmulator.Construction.Uarch.Direct
import MachineEmulator.Construction.Uarch.Interpret
import MachineEmulator.Construction.Uarch.Plain
import MachineEmulator.Construction.Uarch.Record
import MachineEmulator.Construction.Uarch.Replay
import MachineEmulator.Construction.Uarch.ResetState
import MachineEmulator.Construction.Uarch.Rv64i
import MachineEmulator.Construction.Uarch.SolidityCompat
import MachineEmulator.Construction.Uarch.StateAccess
import MachineEmulator.Construction.Uarch.Step
import MachineEmulator.Construction.Virtio.AddressRange
import MachineEmulator.Construction.Virtio.Block
import MachineEmulator.Construction.Virtio.Console
import MachineEmulator.Construction.Virtio.NetHost
import MachineEmulator.Construction.Virtio.Virtqueue
import MachineEmulator.Proof.AccessAccepts
import MachineEmulator.Proof.AccessBinding
import MachineEmulator.Proof.AccessChecks
import MachineEmulator.Proof.Cmio.RecordReplays
import MachineEmulator.Proof.Cmio.ReplayAccepts
import MachineEmulator.Proof.Cmio.ReplayChecks
import MachineEmulator.Proof.Cmio.ReplayHandler
import MachineEmulator.Proof.Cmio.ResponseEffect
import MachineEmulator.Proof.Cmio.VerifySound
import MachineEmulator.Proof.Collect.BackMerkleTree
import MachineEmulator.Proof.Collect.BackTreeLeaves
import MachineEmulator.Proof.Collect.BackTreePadding
import MachineEmulator.Proof.Collect.BackTreeRebuild
import MachineEmulator.Proof.Collect.McycleBoundaries
import MachineEmulator.Proof.Collect.McycleCalls
import MachineEmulator.Proof.Collect.McycleComposition
import MachineEmulator.Proof.Collect.McyclePeriods
import MachineEmulator.Proof.Collect.McycleSplits
import MachineEmulator.Proof.Collect.McycleWrapAround
import MachineEmulator.Proof.Console.Buffers
import MachineEmulator.Proof.Console.Configuration
import MachineEmulator.Proof.Console.Functions
import MachineEmulator.Proof.Console.Lives
import MachineEmulator.Proof.Console.Queues
import MachineEmulator.Proof.Evmu.AcceptedSpelling
import MachineEmulator.Proof.Evmu.CalldataBounds
import MachineEmulator.Proof.Evmu.CalldataSpec
import MachineEmulator.Proof.Evmu.CanonicSpelling
import MachineEmulator.Proof.Evmu.DecodeCalldata
import MachineEmulator.Proof.Evmu.Hex
import MachineEmulator.Proof.Evmu.ParseFuncSig
import MachineEmulator.Proof.Evmu.ReadParams
import MachineEmulator.Proof.Evmu.ReadPieces
import MachineEmulator.Proof.Evmu.ReadSpelling
import MachineEmulator.Proof.Evmu.ReadTokens
import MachineEmulator.Proof.Evmu.Spelling
import MachineEmulator.Proof.Fdt.EmitTree
import MachineEmulator.Proof.Fdt.Finish
import MachineEmulator.Proof.Fdt.PutWords
import MachineEmulator.Proof.Fdt.Strings
import MachineEmulator.Proof.HashTree.CacheStorage
import MachineEmulator.Proof.HashTree.DenseTrees
import MachineEmulator.Proof.HashTree.DirtyPageRuns
import MachineEmulator.Proof.HashTree.DirtyPages
import MachineEmulator.Proof.HashTree.EntryCacheRuns
import MachineEmulator.Proof.HashTree.EntryUpdate
import MachineEmulator.Proof.HashTree.Layout
import MachineEmulator.Proof.HashTree.PageHashes
import MachineEmulator.Proof.HashTree.ProofSlice
import MachineEmulator.Proof.HashTree.SparseTree
import MachineEmulator.Proof.Interpret.CsrInstructions
import MachineEmulator.Proof.Interpret.InterruptController
import MachineEmulator.Proof.Interpret.PageTableWalk
import MachineEmulator.Proof.Interpret.RetiredInstructions
import MachineEmulator.Proof.Interpret.TargetCycle
import MachineEmulator.Proof.Interpret.TimerInterrupt
import MachineEmulator.Proof.Json.AccessLogRoundTrip
import MachineEmulator.Proof.Json.Base64
import MachineEmulator.Proof.Json.ConfigRoundTrip
import MachineEmulator.Proof.Json.Fields
import MachineEmulator.Proof.Json.RoundTrip
import MachineEmulator.Proof.Json.Sizes
import MachineEmulator.Proof.Machine.AddressRanges
import MachineEmulator.Proof.Machine.DrivePlacement
import MachineEmulator.Proof.Machine.MemoryWrites
import MachineEmulator.Proof.Machine.PhysicalMemory
import MachineEmulator.Proof.Machine.VirtualMemory
import MachineEmulator.Proof.Outputs.Frontier
import MachineEmulator.Proof.Outputs.RootHash
import MachineEmulator.Proof.SoftFloat.Addition
import MachineEmulator.Proof.SoftFloat.Comparisons
import MachineEmulator.Proof.SoftFloat.DoubleWords
import MachineEmulator.Proof.SoftFloat.Fields
import MachineEmulator.Proof.SoftFloat.FormatConversions
import MachineEmulator.Proof.SoftFloat.FusedMultiplyAdd
import MachineEmulator.Proof.SoftFloat.IntegerConversions
import MachineEmulator.Proof.SoftFloat.Multiplication
import MachineEmulator.Proof.SoftFloat.Operations
import MachineEmulator.Proof.SoftFloat.RoundPack
import MachineEmulator.Proof.SoftFloat.SquareRoot
import MachineEmulator.Proof.SoftFloat.Standard
import MachineEmulator.Proof.StepLog.Acceptance
import MachineEmulator.Proof.StepLog.Completeness
import MachineEmulator.Proof.StepLog.Format
import MachineEmulator.Proof.StepLog.PageOverlay
import MachineEmulator.Proof.StepLog.RootHash
import MachineEmulator.Proof.StepLog.Soundness
import MachineEmulator.Proof.Uarch.InterpretRuns
import MachineEmulator.Proof.Uarch.MixedAccess
import MachineEmulator.Proof.Uarch.ReplayAccepts
import MachineEmulator.Proof.Uarch.ReplayChecks
import MachineEmulator.Proof.Uarch.ReplayHandler
import MachineEmulator.Proof.Uarch.ReplaySound
import MachineEmulator.Proof.Uarch.Rv64iDecoding
import MachineEmulator.Proof.Uarch.Rv64iExecution
import MachineEmulator.Proof.Uarch.Rv64iRefinement
import MachineEmulator.Proof.Uarch.StepCalls
import MachineEmulator.Proof.Uarch.SubWordAccess
import MachineEmulator.Proof.Uarch.VerifySound
import MachineEmulator.Proof.Virtio.BlockLedger
import MachineEmulator.Proof.Virtio.BlockLifecycle
import MachineEmulator.Proof.Virtio.BlockRequests
import MachineEmulator.Proof.Virtio.BlockRuns
import MachineEmulator.Proof.Virtio.ChainWalks
import MachineEmulator.Proof.Virtio.ConsoleOutput
import MachineEmulator.Proof.Virtio.ConsoleRuns
import MachineEmulator.Proof.Virtio.DescriptorChain
import MachineEmulator.Proof.Virtio.NetLedger
import MachineEmulator.Proof.Virtio.NetQueues
import MachineEmulator.Proof.Virtio.NetRuns
import MachineEmulator.Proof.Virtio.Registers
import MachineEmulator.Proof.Virtio.ScatterGather
