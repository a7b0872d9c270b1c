import LedgerSim.Exec
import LedgerSim.Codec
import LedgerSim.Coroutine
import LedgerSim.Batching
import LedgerSim.TaskPool
import LedgerSim.Interleaving
import LedgerSim.Dict
import LedgerSim.BigEndian
import LedgerSim.Hashable
import LedgerSim.Environment
import LedgerSim.Streamable
import LedgerSim.Signature
import LedgerSim.Conditions
import LedgerSim.Storage
import LedgerSim.ChainView
import LedgerSim.Refusal
import LedgerSim.RaisedErrors
import LedgerSim.ConditionChecks
import LedgerSim.TimeLocks
import LedgerSim.AcceptedBlock
import LedgerSim.RefusedBlock
import LedgerSim.Farming
import LedgerSim.LedgerApi
import LedgerSim.AsyncLedger
import LedgerSim.SpeculativeLedger
import LedgerSim.ApplyDeltas
import LedgerSim.HashAssumptions
import LedgerSim.Sha256
import LedgerSim.ReferenceEnvironment
import LedgerSim.WireFormat
import LedgerSim.Augmentation
import LedgerSim.AcceptedValues
import LedgerSim.PointerResolution
import LedgerSim.BlockSpends
import LedgerSim.MalformedData
import LedgerSim.UnknownErrors
import LedgerSim.EnforcedConditions
import LedgerSim.PermanentErrors
import LedgerSim.SpendOrder
import LedgerSim.SpendPermutation
import LedgerSim.SignatureAggregation
import LedgerSim.AuthoredBlocks
import LedgerSim.FarmedBlock
import LedgerSim.FarmerAgreement
import LedgerSim.LedgerStep
import LedgerSim.SequentialRequests
import LedgerSim.LedgerRun
import LedgerSim.ChainHistory
import LedgerSim.ConcurrentRequests
import LedgerSim.TipView
import LedgerSim.Mempool
import LedgerSim.ClockLimit
import LedgerSim.HashChain
import LedgerSim.ChainCommitment
import LedgerSim.TreeHash
import LedgerSim.RemovalErrors
import LedgerSim.Rollback
import LedgerSim.RememberedChain
import LedgerSim.BlockQueries
import LedgerSim.PuzzleLanguage
import LedgerSim.DelegatedPuzzle
import LedgerSim.Keychain
import LedgerSim.JointSpends
import LedgerSim.CborMessages
import LedgerSim.ApiServer
import LedgerSim.CborStream
import LedgerSim.NonceWatcher
import LedgerSim.ReplyRouting
import LedgerSim.RemoteCalls
import LedgerSim.FramedLink
import LedgerSim.ClientMessages
import LedgerSim.ReferenceMessaging
import LedgerSim.RemoteSystem
import LedgerSim.RemoteHistory
import LedgerSim.IdleConnection
import LedgerSim.RemoteProgress
import LedgerSim.LedgerService
import LedgerSim.RemoteLedger
import LedgerSim.RemoteBlocks
import LedgerSim.MinedBlocks
import LedgerSim.ReferenceWallet
import LedgerSim.AuthorisedSpends
import LedgerSim.IndependentBundles
import LedgerSim.WalletCoins
import LedgerSim.MadeConditions
import LedgerSim.Payments
import LedgerSim.RemotePreimages
