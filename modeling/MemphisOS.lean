import MemphisOS.Ecma.JsonRoundTrip
import MemphisOS.Ecma.Value
import MemphisOS.Serde.Value
import MemphisOS.Ecma.Equality
import MemphisOS.Ecma.Date
import MemphisOS.Systems.Transition
import MemphisOS.Sql.Program
import MemphisOS.Core.Memory
import MemphisOS.Core.Replay
import MemphisOS.DualApproval.Safety
import MemphisOS.DualApproval.Idempotency
import MemphisOS.DualApproval.AuditLog
import MemphisOS.DualApproval.SingleUse
import MemphisOS.TaskQueue.Restart
import MemphisOS.TaskQueue.Resume
import MemphisOS.Cognitive.Voting
import MemphisOS.Cognitive.EarlyClosing
import MemphisOS.Decision.History
import MemphisOS.Decision.Dedupe
import MemphisOS.Chain.Tamper
import MemphisOS.Chain.Extraction
import MemphisOS.Chain.RecordForms
import MemphisOS.TaskExecutor.Dedupe
import MemphisOS.Bridge.ReadOrder
import MemphisOS.Bridge.Replay
import MemphisOS.Bridge.Interchange
import MemphisOS.Vault.Durability
import MemphisOS.TrustRoot.History
import MemphisOS.Sync.HashChains
import MemphisOS.Sync.Trade
import MemphisOS.Sync.InSync
import MemphisOS.Sync.Gossip
import MemphisOS.Sync.Registry
import MemphisOS.Apps.Agreement
import MemphisOS.Backup.RollbackFailure
import MemphisOS.Backup.RestoreExcluded
import MemphisOS.Incident.Laundering
import MemphisOS.Incident.Soundness
import MemphisOS.Incident.Revocation
import MemphisOS.Incident.EncryptedBlob
import MemphisOS.Incident.Passphrases
import MemphisOS.Incident.BundleRedaction
import MemphisOS.Incident.Retention
import MemphisOS.Incident.RotationOutput
import MemphisOS.Incident.KeyFiles
import MemphisOS.Admin.MessageBinding
import MemphisOS.Chain.Confinement
import MemphisOS.Runtime.EmergencyLog
import MemphisOS.Runtime.Metrics
import MemphisOS.Runtime.AlertSuppression
import MemphisOS.SafeMode.Agreement
import MemphisOS.Chat.Redispatch
import MemphisOS.Chat.AskSessionRuns
import MemphisOS.Integrity.Repair
import MemphisOS.Orchestration.Cooldown
import MemphisOS.ChainImport.Reconcile
import MemphisOS.Workspace.SyncedBlock
import MemphisOS.Vault.Legacy
import MemphisOS.Vault.LazyLoader
import MemphisOS.Cli.Placement
import MemphisOS.Vault.LosslessSave
import MemphisOS.ChainImport.WriteBlocks
import MemphisOS.ChainImport.Authenticity
import MemphisOS.Archives.Selection
import MemphisOS.Archives.Cleaning
import MemphisOS.Archives.RoundTrip
import MemphisOS.Http.Routes
import MemphisOS.Http.RateLimit
import MemphisOS.Embedding.Cache
import MemphisOS.Embedding.SearchCache
import MemphisOS.Embedding.Persistence
import MemphisOS.Embedding.ChainStore
import MemphisOS.Embedding.HnswLosses
import MemphisOS.Embedding.HnswOrder
import MemphisOS.Storage.BatcherRuns
import MemphisOS.Caches.ChainCache
import MemphisOS.Caches.BufferPool
import MemphisOS.Caches.FileCache
import MemphisOS.Caches.QueryCache
import MemphisOS.Gateway.Confinement
import MemphisOS.Gateway.NativeTransport
