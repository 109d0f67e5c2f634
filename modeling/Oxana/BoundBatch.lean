import Oxana.Batching
import Oxana.CommandOutcome
import Oxana.PendingBatch

/-!
A batch worker bound to its jobs, from `worker.rs`, and the run of a pending batch with it:
three lists that `coordinator.rs`, `worker_registry.rs` and `executor.rs` filter and pair up
by position.
-/

namespace Oxana

/-! The worker. -/

structure JobContext where
  metadata : JobMeta
  jobId : JobId
  state : Option Json

structure BatchItem (A : Type) where
  job : A
  ctx : JobContext

/-- A worker and its job type: how arguments are decoded, the settings of a job, and which
states the worker persists for a batch and how it ends. -/
structure JobWorker (A : Type) where
  fromValue : Json → Except String A
  shouldResume : Bool
  maxRetries : A → Nat
  retryDelay : A → Nat → Nat
  runBatch : List (BatchItem A) → List (Nat × Json) × ExecutionResult

structure BoundBatchJob (A : Type) where
  worker : JobWorker A
  jobs : List A

namespace BoundBatchJob

variable {A : Type} (bound : BoundBatchJob A)

def process (contexts : List JobContext) : Option (List (BatchItem A)) :=
  if bound.jobs.length = contexts.length then some (bound.jobs.zipWith BatchItem.mk contexts)
  else none

/-- `none` is the failed `expect`, here and below. -/
def maxRetries (index : Nat) : Option Nat := bound.jobs[index]?.map bound.worker.maxRetries

def retryDelay (index retries : Nat) : Option Nat :=
  bound.jobs[index]?.map fun job => bound.worker.retryDelay job retries

def executionPolicy (index : Nat) (envelope : JobEnvelope) : Option JobExecutionPolicy := do
  let maxRetries ← bound.maxRetries index
  let retryDelay ← bound.retryDelay index envelope.metadata.retries
  some { maxRetries := maxRetries, retryDelay := retryDelay }

def policies : Nat → List JobEnvelope → Option (List JobExecutionPolicy)
  | _, [] => some []
  | index, envelope :: rest => do
      let policy ← bound.executionPolicy index envelope
      let later ← policies (index + 1) rest
      some (policy :: later)

end BoundBatchJob

structure BatchSettings where
  startedAt : Int
  finishedAt : Nat → Int
  override : RetryDelayOverride

def jobContext (envelope : JobEnvelope) : JobContext where
  metadata := envelope.metadata
  jobId := envelope.id
  state := envelope.metadata.state

def BoundBatchJob.attempt (bound : BoundBatchJob A) (settings : BatchSettings)
    (worked : List (Nat × Json) × ExecutionResult) : StorageInternal.BatchAttempt where
  size := bound.jobs.length
  shouldResume := bound.worker.shouldResume
  startedAt := settings.startedAt
  states := worked.1
  result := worked.2
  finishedAt := settings.finishedAt
  maxRetries := fun index => (bound.maxRetries index).getD 0
  retryDelay := fun index retries => (bound.retryDelay index retries).getD 0
  override := settings.override

namespace StorageInternal

end StorageInternal

end Oxana
