import LlamaAgents.Theorems.StreamAccounting
import LlamaAgents.Theorems.Collection
import LlamaAgents.Theorems.Emission
import LlamaAgents.Theorems.Reducer
import LlamaAgents.Theorems.Snapshot
import LlamaAgents.Theorems.TerminalStatus
import LlamaAgents.Theorems.HandlerRuns
import LlamaAgents.Theorems.EventStreams
import LlamaAgents.Theorems.HandlerStores
import LlamaAgents.Theorems.TickWrites
import LlamaAgents.Theorems.AgentSubscription
import LlamaAgents.Theorems.Resumption
import LlamaAgents.Theorems.TaskJournal
import LlamaAgents.Theorems.ExecutorLease
import LlamaAgents.Theorems.FailedGenerations
import LlamaAgents.Theorems.CapacityGates
import LlamaAgents.Theorems.ArtifactCollection
import LlamaAgents.Theorems.SourceCoherence
import LlamaAgents.Theorems.PushRequests
import LlamaAgents.Theorems.Backup
import LlamaAgents.Theorems.Wakeups
import LlamaAgents.Theorems.Idleness
import LlamaAgents.Theorems.FormatStream
import LlamaAgents.Theorems.EventEnvelope
import LlamaAgents.Theorems.KeyedLock
import LlamaAgents.Theorems.ReplicaSets
import LlamaAgents.Theorems.Serializers
import LlamaAgents.Theorems.Rollback
import LlamaAgents.Theorems.BuildJobs
import LlamaAgents.Theorems.Pauses
import LlamaAgents.Theorems.Retention
import LlamaAgents.Theorems.MemorySubscription
import LlamaAgents.Theorems.DeploymentIds
import LlamaAgents.Theorems.GitConnections
import LlamaAgents.Theorems.EnvironmentFiles
import LlamaAgents.Theorems.ConfigReading
import LlamaAgents.Theorems.Annotations
import LlamaAgents.Theorems.RestoreConflicts
import LlamaAgents.Theorems.SecretRollout
import LlamaAgents.Theorems.Apply
import LlamaAgents.Theorems.StreamTraversal
