import Conductor.Lib.Tables
import Conductor.Lib.Txn
import Conductor.Lib.Runs
import Conductor.Lib.ReadCommitted
import Conductor.Lib.Moments
import Conductor.Values
import Conductor.State
import Conductor.Retry
import Conductor.Dag
import Conductor.DagSpec
import Conductor.Models
import Conductor.Workflows
import Conductor.Runs
import Conductor.Lib.Precedence
import Conductor.Rows
import Conductor.RunsSpec
import Conductor.WorkflowsSpec
import Conductor.Invariant
import Conductor.Service
import Conductor.Blocking
import Conductor.Budget
import Conductor.Dependencies
import Conductor.Lifecycle
import Conductor.Attempts
import Conductor.Leases
import Conductor.Requests
import Conductor.Freshness
import Conductor.Workers
import Conductor.Heartbeat
import Conductor.NulText
import Conductor.Postgres
import Conductor.RunOnce
import Conductor.Cursor
import Conductor.Interleaving
import Conductor.LostLease
import Conductor.FinishedRuns
import Conductor.Lib.HeapOrder
import Conductor.Heap
import Conductor.HeapSpec
import Conductor.DueEntries
import Conductor.Lib.Links
import Conductor.Lib.Rounds
import Conductor.Lru
import Conductor.LruSpec
import Conductor.Lib.Keyset
import Conductor.Lib.Base64
import Conductor.Pages
import Conductor.Tokens
import Conductor.Lib.Outcomes
import Conductor.Lib.Contracts
import Conductor.Lib.LeadsTo
import Conductor.Api
import Conductor.Idempotency
import Conductor.RacingRetries
import Conductor.RateLimit
import Conductor.RateBound
import Conductor.RetryAfter
import Conductor.Tenants
import Conductor.RetryWire
import Conductor.DagBuild
import Conductor.CycleSearch
import Conductor.CursorReports
import Conductor.Draining
import Conductor.Lib.Numbering
import Conductor.Versions
import Conductor.Publishing
import Conductor.Conflicts
import Conductor.PostWorkflow
import Conductor.LocalRepair
import Conductor.RetryHeader
import Conductor.Backoff
import Conductor.PolicyOptions
import Conductor.BuildPolicy
import Conductor.RetryBudget
import Conductor.ExactlyOnce
import Conductor.OptimisticLock
import Conductor.QueueDrains
import Conductor.RunForever
import Conductor.WorkerDrains
import Conductor.RecordedRuns
import Conductor.Lib.Readers
import Conductor.Inspection
import Conductor.Sessions
import Conductor.Traffic
import Conductor.RunFeed
import Conductor.Lib.Verdicts
import Conductor.RunOutcomes
import Conductor.CancelRun
import Conductor.Catalogue
import Conductor.Recovery
import Conductor.Polling
import Conductor.Admission
import Conductor.RateLimited
import Conductor.Refusals
import Conductor.RetryTiming
import Conductor.Lib.Recency
import Conductor.CacheSizes
