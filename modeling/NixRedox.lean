import NixRedox.GraphSearch
import NixRedox.PathInfoDb
import NixRedox.GcRoots
import NixRedox.StoreClosure
import NixRedox.StoreGc
import NixRedox.Text
import NixRedox.Redox
import NixRedox.UnixPath
import NixRedox.StoredResolve
import NixRedox.BuildAllowList
import NixRedox.BuildFlags
import NixRedox.BuildHandler
import NixRedox.BuildContainment
import NixRedox.StepRuns
import NixRedox.BuildRename
import NixRedox.BuildSizes
import NixRedox.Derivation
import NixRedox.BuildPolicy
import NixRedox.DepthFirst
import NixRedox.LocalBuild
import NixRedox.BuildRuns
import NixRedox.BuildProvenance
import NixRedox.NarExtract
import NixRedox.StoredLazy
import NixRedox.Paging
import NixRedox.ManifestListing
import NixRedox.SeparatedPaths
import NixRedox.Getdents
import NixRedox.SystemManifest
import NixRedox.SystemGcRoots
import NixRedox.SystemGenerations
import NixRedox.SystemFreshIds
import NixRedox.SystemAgreement
import NixRedox.CacheFetch
import NixRedox.CacheClosure
import NixRedox.FileTree
import NixRedox.FileWays
import NixRedox.ConfigFiles
import NixRedox.ConfigActions
import NixRedox.ConfigConverge
import NixRedox.EtcStatic
import NixRedox.EtcLinks
import NixRedox.EtcFarm
import NixRedox.EtcSweep
import NixRedox.EtcSetup
import NixRedox.DerivedFiles
import NixRedox.ManifestTree
import NixRedox.StoredManifest
import NixRedox.ProfileUnion
import NixRedox.ProfileOpen
import NixRedox.BuildFixed
import NixRedox.BuildClosure
import NixRedox.EagerFetch
import NixRedox.EagerVerified
import NixRedox.FlakeInputs
import NixRedox.KeyedMap
import NixRedox.Rebuild
import NixRedox.RebuildChanges
import NixRedox.RebuildConverge
import NixRedox.NativeRebuild
import NixRedox.BootUnits
import NixRedox.InstallProfile
import NixRedox.NarWrite
import NixRedox.NarRehash
import NixRedox.BridgeExchange
import NixRedox.AttrSets
import NixRedox.BridgeEval
import NixRedox.BridgeHonour
import NixRedox.BridgeInstall
import NixRedox.TrackedFiles
import NixRedox.SortedLists
import NixRedox.SystemDeletion
import NixRedox.Bytes
import NixRedox.VirtioFs
import NixRedox.VirtioFsListing
import NixRedox.VirtioFsHandles
import NixRedox.ByteMemory
import NixRedox.Gdbstub
import NixRedox.GdbBreakpoints
import NixRedox.Igcd
import NixRedox.IgcdTransmit
import NixRedox.IrohBridge
import NixRedox.IrohDelivery
import NixRedox.OptionTypes
import NixRedox.SubstratePlan
import NixRedox.SubstrateModule
import NixRedox.Attempts
import NixRedox.SubstrateBuild
import NixRedox.StoreCollect
import NixRedox.BuildAccess
import NixRedox.LexicalForm
import NixRedox.StoredTotal
import NixRedox.CivilCalendar
import NixRedox.SystemTimestamps
import NixRedox.ProfileStore
import NixRedox.ProfileControl
import NixRedox.Kahn
import NixRedox.TopoSort
import NixRedox.FileRename
import NixRedox.ProfileSwap
import NixRedox.Serde
import NixRedox.ManifestSchema
import NixRedox.ImageConfig
import NixRedox.ImageManifest
import NixRedox.ManifestAgreement
import NixRedox.CheckedWords
import NixRedox.TimestampTotal
import NixRedox.SnapshotFiles
import NixRedox.NarContained
import NixRedox.ManifestRemoval
import NixRedox.UpstreamPathInfo
import NixRedox.AsciiRuns
import NixRedox.BuildReferences
import NixRedox.FilePassage
import NixRedox.TarExtract
import NixRedox.TailCalls
import NixRedox.FlakeFollows
import NixRedox.NixStrings
import NixRedox.EvalOutput
import NixRedox.TarPlain
import NixRedox.RawOutput
import NixRedox.FlakeExpression
import NixRedox.ManagedFiles
import NixRedox.DepthFirstOrder
import NixRedox.BuildOrder
import NixRedox.VirtioFsDirents
import NixRedox.FuseSession
import NixRedox.FuseReplies
import NixRedox.FileRanges
import NixRedox.FuseFiles
import NixRedox.VirtioFsTree
import NixRedox.VirtioFsResolve
import NixRedox.VirtioFsUnlink
import NixRedox.FallibleRuns
import NixRedox.Castore
import NixRedox.SourceImport
import NixRedox.SourcePublish
import NixRedox.StringSplits
import NixRedox.SubstrateFiles
import NixRedox.BasicStrings
import NixRedox.InitScripts
import NixRedox.UnitStrings
import NixRedox.SubstrateServices
import NixRedox.GdbCodecs
import NixRedox.GdbPackets
import NixRedox.Nixbase32
import NixRedox.Utf8Order
import NixRedox.NarSerialize
import NixRedox.KahnLayers
import NixRedox.ServiceOrder
import NixRedox.ServiceNumbers
import NixRedox.Toml
import NixRedox.UnitText
import NixRedox.SeekableFile
import NixRedox.ElfPalign
import NixRedox.PalignExact
import NixRedox.CyclicIds
import NixRedox.BuildIds
import NixRedox.SchemeHandles
import NixRedox.KeyedLists
import NixRedox.BuildMaps
import NixRedox.IgcdReceive
import NixRedox.IrohInbox
import NixRedox.SubstrateRenormal
