import SonicPins.Lib.History
import SonicPins.Lib.Status
import SonicPins.Lib.Text
import SonicPins.Lib.SortedMap
import SonicPins.Lib.Json
import SonicPins.P4rtApp.SdnControllerManager
import SonicPins.P4rtApp.ArbitrationCalls
import SonicPins.P4rtApp.ArbitrationInvariant
import SonicPins.P4rtApp.MutationFencing
import SonicPins.P4rtApp.ArbitrationNotifications
import SonicPins.Lib.JsonRoundTrip
import SonicPins.Lib.DoubleIndex
import SonicPins.Pdpi.Messages
import SonicPins.Pdpi.P4InfoConsistency
import SonicPins.Pdpi.Values
import SonicPins.Pdpi.PiToIr
import SonicPins.Pdpi.IrToPi
import SonicPins.P4rtApp.IrTranslation
import SonicPins.Sonic.AppDbEncoding
import SonicPins.Sonic.AppDbManager
import SonicPins.P4rtApp.EntityUpdate
import SonicPins.P4rtApp.ResourceUtilization
import SonicPins.P4rtApp.Write
import SonicPins.Sonic.FailOnFirst
import SonicPins.P4rtApp.ReportableErrors
import SonicPins.P4rtApp.Admission
import SonicPins.P4rtApp.WriteStatuses
import SonicPins.Lib.MapTotals
import SonicPins.Pdpi.TranslationSpecs
import SonicPins.P4rtApp.ActionProfileAccounting
import SonicPins.P4rtApp.CapacityLimits
import SonicPins.P4Fuzzer.SwitchState
import SonicPins.P4Fuzzer.EntryTables
import SonicPins.P4Fuzzer.StateChanges
import SonicPins.P4Fuzzer.SwitchStateBookkeeping
import SonicPins.P4Fuzzer.ResourceExhaustion
import SonicPins.Lib.Layering
import SonicPins.Pdpi.Sequencing
import SonicPins.Pdpi.SequencingOrder
import SonicPins.Pdpi.ValueCodec
import SonicPins.Pdpi.NormalForm
import SonicPins.Lib.TextReading
import SonicPins.Sonic.AppDbDecoding
import SonicPins.Sonic.AppDbRoundTrip
import SonicPins.Pdpi.References
import SonicPins.Pdpi.ReferenceMatching
import SonicPins.Sonic.AppDbReading
import SonicPins.P4rtApp.EntityCacheRebuild
import SonicPins.Lib.SetDifference
import SonicPins.P4rtApp.P4InfoReconcile
import SonicPins.P4rtApp.AclTransition
import SonicPins.Lib.AssertionStack
import SonicPins.P4Symbolic.PacketSynthesis
import SonicPins.P4Symbolic.IncrementalSynthesis
import SonicPins.Dvaas.TestRunValidation
import SonicPins.Dvaas.OutputMatching
import SonicPins.Lib.Bits
import SonicPins.Packetlib.HexStrings
import SonicPins.Packetlib.Headers
import SonicPins.Packetlib.Parsing
import SonicPins.Packetlib.Serialization
import SonicPins.Packetlib.Validation
import SonicPins.Packetlib.ComputedFields
import SonicPins.Packetlib.CrashSafety
import SonicPins.Packetlib.Lossless
import SonicPins.Packetlib.Reprinting
import SonicPins.Packetlib.ValidHeaders
import SonicPins.Packetlib.SameValues
import SonicPins.Packetlib.ValidityKept
import SonicPins.Packetlib.WireSurvival
import SonicPins.Sonic.RequestOrder
import SonicPins.P4rtApp.RepeatedKeys
import SonicPins.Sonic.ResponseRollback
import SonicPins.P4rtApp.MachineCounters
import SonicPins.P4rtApp.EntityReads
import SonicPins.P4rtApp.UpdatedCapacities
import SonicPins.P4rtApp.TranslationSafety
import SonicPins.P4rtApp.MulticastRoundTrip
import SonicPins.Sonic.Annotations
import SonicPins.Sonic.Hashing
import SonicPins.Sonic.AclDefinition
import SonicPins.P4rtApp.TransitionPlan
import SonicPins.Lib.PhasedChanges
import SonicPins.P4rtApp.EntryRows
import SonicPins.P4rtApp.MakeBeforeBreak
import SonicPins.P4rtApp.PipelineConfig
import SonicPins.P4rtApp.PushAtomicity
import SonicPins.P4rtApp.PushAccounting
import SonicPins.Pdpi.FixedWidth
import SonicPins.Pdpi.WriteRpcStatus
import SonicPins.Lib.SortedMerge
import SonicPins.Sonic.StateVerification
import SonicPins.P4rtApp.TranslationInverse
import SonicPins.Pdpi.PacketIo
import SonicPins.Pdpi.PdMessages
import SonicPins.Pdpi.IrToPd
import SonicPins.Pdpi.PdToIr
import SonicPins.Pdpi.MulticastMeaning
import SonicPins.Lib.PointUpdates
import SonicPins.Pdpi.PdLosses
import SonicPins.Pdpi.OnlyKeyPd
import SonicPins.Pdpi.PdRoundTrip
import SonicPins.Lib.Chunks
import SonicPins.Pdpi.WriteRequests
import SonicPins.Lib.LongestPaths
import SonicPins.Pdpi.DependencyRanks
import SonicPins.Lib.StableSort
import SonicPins.Pdpi.DependencySorting
import SonicPins.Lib.KeyedReachability
import SonicPins.Pdpi.GarbageCollection
import SonicPins.Lib.Comparison
import SonicPins.Lib.WireFormat
import SonicPins.Pdpi.EntityKeys
import SonicPins.P4Fuzzer.RejectedUpdates
import SonicPins.Lib.KeyedUnion
import SonicPins.Pdpi.P4Info
import SonicPins.Pdpi.P4InfoUnion
import SonicPins.Pdpi.P4InfoUnionLaws
import SonicPins.Lib.IndexBuilding
import SonicPins.Pdpi.ReferenceAnnotations
import SonicPins.Pdpi.IrP4InfoCreation
import SonicPins.Pdpi.DefinitionIndexing
import SonicPins.Pdpi.ReferenceMirroring
import SonicPins.Lib.Numbering
import SonicPins.P4Symbolic.IdAllocator
import SonicPins.P4Symbolic.IdAllocation
import SonicPins.Lib.SolverTerms
import SonicPins.P4Symbolic.Operators
import SonicPins.P4Symbolic.OperatorMeaning
import SonicPins.P4Symbolic.Ir
import SonicPins.P4Symbolic.Truncation
import SonicPins.P4Symbolic.Values
import SonicPins.P4Symbolic.SymbolicEntries
import SonicPins.P4Symbolic.StaticTranslations
import SonicPins.P4Symbolic.Z3Util
import SonicPins.P4Symbolic.Z3Values
import SonicPins.Lib.SetMatching
import SonicPins.P4Fuzzer.StateComparison
import SonicPins.Pdpi.CanonicalEntries
import SonicPins.P4Fuzzer.ComparedEntries
import SonicPins.Lib.Dominators
import SonicPins.P4Symbolic.Cfg
import SonicPins.P4Symbolic.CfgConstruction
import SonicPins.P4Symbolic.ContractedPaths
import SonicPins.P4Symbolic.ControlFlowAnalysis
import SonicPins.Pdpi.ClientBatching
import SonicPins.Pdpi.ClientInstalls
import SonicPins.Dvaas.FailureMinimization
import SonicPins.Lib.Brackets
import SonicPins.P4rtApp.PortTables
import SonicPins.Sonic.ArgumentLists
import SonicPins.Lib.JsonTree
import SonicPins.Lib.JsonOrder
import SonicPins.Lib.Renaming
import SonicPins.JsonYang.NameReplacement
import SonicPins.JsonYang.ValueEquality
import SonicPins.JsonYang.Flattening
import SonicPins.JsonYang.FlatComparison
import SonicPins.StringEncodings.HexStrings
import SonicPins.StringEncodings.ByteStrings
import SonicPins.SaiP4.AuxiliaryEntries
import SonicPins.Lib.OnesComplement
import SonicPins.Packetlib.Checksums
import SonicPins.StringEncodings.DecimalStrings
import SonicPins.StringEncodings.BitStrings
import SonicPins.P4Symbolic.EntryPriorities
import SonicPins.P4Symbolic.NestedControls
import SonicPins.P4Symbolic.V1model
import SonicPins.Netaddr.NetworkAddresses
import SonicPins.Lib.WellNested
