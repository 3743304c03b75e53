import Kinglet.AlloyDb.DryRun
import Kinglet.AlloyDb.MaskLaw
import Kinglet.Armor.BodyInspection
import Kinglet.Armor.ClientKeys
import Kinglet.Armor.Headers
import Kinglet.Armor.Isolation
import Kinglet.Armor.PriorityWalk
import Kinglet.Armor.RateLimitRun
import Kinglet.Armor.Validation
import Kinglet.CloudSql.SettingsLock
import Kinglet.Compute.Downgrade
import Kinglet.Compute.Ranges
import Kinglet.Discovery.Consistency
import Kinglet.Gateway.ComposedOperations
import Kinglet.Gateway.ProtoTime
import Kinglet.Gateway.StreamIterable
import Kinglet.Gcs.ObjectLists
import Kinglet.Gcs.ObjectRuns
import Kinglet.Kms.Base64
import Kinglet.Kms.Decryption
import Kinglet.Memorystore.AclHistory
import Kinglet.Memorystore.BackupStats
import Kinglet.Memorystore.PortAccounting
import Kinglet.Memorystore.TokenAuthIntegrity
import Kinglet.Postgres.AuthenticationGate
import Kinglet.Postgres.DataPaths
import Kinglet.Postgres.PreparedNames
import Kinglet.Pubsub.DeadLetter
import Kinglet.Pubsub.NestedWrites
import Kinglet.Pubsub.PullComplete
import Kinglet.Pubsub.Seek
import Kinglet.Pubsub.Separation
import Kinglet.Pubsub.StreamingPull
import Kinglet.Scheduler.TickServes
import Kinglet.Shared.PortAllocator
import Kinglet.Storage.Coherence
import Kinglet.Storage.LruCache
import Kinglet.Storage.Transaction
import Kinglet.Storage.UniqueNames
import Kinglet.Tasks.Attempts
import Kinglet.Tasks.DueTasks
import Kinglet.Tasks.RateLaw
import Kinglet.Workflows.Escaping
import Kinglet.Workflows.LoopVariables
import Kinglet.Workflows.Retries
import Kinglet.Workflows.RevisionHistory
