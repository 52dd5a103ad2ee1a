import XianAbci.Lib.PyDict
import XianAbci.Lib.Treap
import XianAbci.StateRoot
import XianAbci.Builtins
import XianAbci.Driver
import XianAbci.StateRootInv
import XianAbci.Block
import XianAbci.StateExport
import XianAbci.StateImport
import XianAbci.StateSync
import XianAbci.StateSyncInv
import XianAbci.Lib.Reach
import XianAbci.PreparedContracts
import XianAbci.Codec
import XianAbci.RestartRoot
import XianAbci.StatePatches
import XianAbci.Lib.FloorSplit
import XianAbci.Lib.ReadM
import XianAbci.Rewards
import XianAbci.RewardsBound
import XianAbci.Fees
import XianAbci.Parallel
import XianAbci.FinalizeBlock
import XianAbci.FinalizeFailure
import XianAbci.CommitCrash
import XianAbci.BlockStages
import XianAbci.Proposal
import XianAbci.Lib.MapDiff
import XianAbci.Validators
import XianAbci.ValidatorTracking
import XianAbci.ReplayProtection
import XianAbci.Lib.Bytes
import XianAbci.RootBinding
import XianAbci.Lib.PrefixCode
import XianAbci.JsonText
import XianAbci.ValueBinding
import XianAbci.Evidence
import XianAbci.ValidatorData
import XianAbci.Indexing
import XianAbci.LocalSettings
import XianAbci.Bds
import XianAbci.BdsOrder
import XianAbci.JsonLoads
import XianAbci.TransactionBytes
import XianAbci.TransactionCodec
import XianAbci.TransactionFormat
import XianAbci.Framing
import XianAbci.ExportRoundTrip
import XianAbci.GenesisExport
import XianAbci.BdsBuffer
import XianAbci.BdsSpool
import XianAbci.BdsSchema
import XianAbci.Lib.Exactly
import XianAbci.BdsPersist
import XianAbci.BdsRows
import XianAbci.BdsIndexable
import XianAbci.NonceStorage
import XianAbci.NonceSafety
import XianAbci.NonceProposal
import XianAbci.ValidatorOrder
import XianAbci.Lib.Binary64
import XianAbci.SnapshotChunks
import XianAbci.ResultAlignment
import XianAbci.RewardConservation
import XianAbci.ChiCostCache
import XianAbci.RewardViews
import XianAbci.VmBoundary
import XianAbci.FailureAtomicity
import XianAbci.RewardPayees
import XianAbci.EffectEncoding
import XianAbci.LatestBlockMirror
import XianAbci.Lib.StableSort
import XianAbci.PatchBundles
import XianAbci.PatchManager
import XianAbci.PatchReplay
import XianAbci.PatchOnce
import XianAbci.PatchDeterminism
import XianAbci.BdsChain
import XianAbci.PayloadScanner
import XianAbci.KeysQuery
import XianAbci.Lib.FileTree
import XianAbci.SimulatorIpc
import XianAbci.SnapshotPublish
import XianAbci.SpoolFormat
import XianAbci.IndexTables
import XianAbci.Replicas
import XianAbci.SnapshotTransfer
import XianAbci.Lib.Base64
import XianAbci.Lib.Civil
import XianAbci.Lib.Sweep
import XianAbci.RebuiltBlocks
import XianAbci.ReindexRuns
