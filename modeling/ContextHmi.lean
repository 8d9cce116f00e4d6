import ContextHmi.Engine.Chain
import ContextHmi.Engine.Settling
import ContextHmi.Engine.Classification
import ContextHmi.Engine.Idempotence
import ContextHmi.Engine.Renewal
import ContextHmi.Engine.Reads
import ContextHmi.Engine.Exactness
import ContextHmi.Execution.Dispatch
import ContextHmi.Execution.Pool
import ContextHmi.Runtime.Budget
import ContextHmi.Runtime.Separation
import ContextHmi.Retrieval.Honesty
import ContextHmi.Retrieval.References
import ContextHmi.Runtime.Clarification
import ContextHmi.Runtime.Conflicts
import ContextHmi.Runtime.Transparency
import ContextHmi.Telemetry.Acceptance
import ContextHmi.Telemetry.Runs
import ContextHmi.Runtime.CacheRuns
import ContextHmi.Import.Csv
import ContextHmi.Diagnostics.Logger
import ContextHmi.Storage.Failures
import ContextHmi.Storage.ReadBack
import ContextHmi.Runtime.Nesting
import ContextHmi.Http.StreamRoutes
import ContextHmi.Import.Reordering
import ContextHmi.Runtime.Ingestion
import ContextHmi.Runtime.Shutdown
import ContextHmi.Runtime.Watcher
import ContextHmi.Diagnostics.Queue
import ContextHmi.Inference.Address
import ContextHmi.Storage.Damage
