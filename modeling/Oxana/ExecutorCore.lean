import Oxana.StorageCore

/-!
Running a job, following `executor.rs` and the loading of an envelope in
`coordinator.rs`.  What the worker does is a parameter: the states it persists and
how it ends.
-/

namespace Oxana

inductive ExecutionResult
  | notPanic (result : Except String Unit)
  | panic (message : String)

inductive ExecutionError
  | notPanic
  | panic
  deriving DecidableEq

def ExecutionResult.outcome : ExecutionResult → Except ExecutionError Unit
  | notPanic (.ok ()) => .ok ()
  | notPanic (.error _) => .error .notPanic
  | panic _ => .error .panic

structure JobExecutionPolicy where
  maxRetries : Nat
  retryDelay : Nat

abbrev RetryDelayOverride := Option (String → Nat → Nat → Option Nat)

def retryDelay (override : RetryDelayOverride) (error : String) (envelope : JobEnvelope)
    (policy : JobExecutionPolicy) : Nat :=
  (override.bind fun decide => decide error envelope.metadata.retries policy.retryDelay).getD
    policy.retryDelay

namespace StorageInternal

def handleErr (storage : StorageInternal) (now : Int) (message : String) (envelope : JobEnvelope)
    (delay maxRetries : Nat) : Redis Unit :=
  if envelope.metadata.retries < maxRetries then do
    let _ ← (storage.finishWithFailure envelope).attempt
    let _ ← (retryIn now envelope.id delay message).attempt
    pure ()
  else do
    let _ ← (storage.kill envelope message).attempt
    pure ()

def finishJobResult (storage : StorageInternal) (now : Int) (override : RetryDelayOverride)
    (result : ExecutionResult) (envelope : JobEnvelope) (policy : JobExecutionPolicy) :
    Redis Unit :=
  match result with
  | .notPanic (.ok ()) => do
      let _ ← (storage.finishWithSuccess envelope).attempt
      pure ()
  | .notPanic (.error message) =>
      storage.handleErr now message envelope (retryDelay override message envelope policy)
        policy.maxRetries
  | .panic message =>
      storage.handleErr now message envelope policy.retryDelay policy.maxRetries

def loadPendingJob (storage : StorageInternal) (id : JobId) : Redis (Option JobEnvelope) := do
  let found ← (getJob id).attempt
  match found with
  | .ok (some envelope) => pure (some envelope)
  | .ok none => do
      let _ ← (storage.deleteJob id).attempt
      pure none
  | .error _ => pure none

def persistStates (id : JobId) : List Json → Redis Unit
  | [] => pure ()
  | state :: rest => do
      let _ ← (updateState id state).attempt
      persistStates id rest

/-- What a worker is given and what it does with one job. -/
structure Attempt where
  shouldResume : Bool
  startedAt : Int
  states : List Json
  result : ExecutionResult
  finishedAt : Int
  policy : JobEnvelope → JobExecutionPolicy
  override : RetryDelayOverride

def run (storage : StorageInternal) (job : Attempt) (envelope : JobEnvelope) : Redis Unit := do
  let prepared := if job.shouldResume then envelope else envelope.withState none
  let started ← setStartedAt job.startedAt prepared
  let policy := job.policy started
  ask (.execute started)
  persistStates started.id job.states
  storage.finishJobResult job.finishedAt job.override job.result started policy

def runOutcome (storage : StorageInternal) (job : Attempt) (envelope : JobEnvelope) :
    Redis (Except ExecutionError Unit) := do
  storage.run job envelope
  pure job.result.outcome

/-! Running a batch.  The clock is read once when the batch starts and once for each job
that is retried. -/

/-- What a batch worker is given and what it does; jobs are named by their index. -/
structure BatchAttempt where
  size : Nat
  shouldResume : Bool
  startedAt : Int
  states : List (Nat × Json)
  result : ExecutionResult
  finishedAt : Nat → Int
  maxRetries : Nat → Nat
  retryDelay : Nat → Nat → Nat
  override : RetryDelayOverride

namespace BatchAttempt

def policy (batch : BatchAttempt) (index : Nat) (envelope : JobEnvelope) : JobExecutionPolicy where
  maxRetries := batch.maxRetries index
  retryDelay := batch.retryDelay index envelope.metadata.retries

def single (batch : BatchAttempt) (index : Nat) : Attempt where
  shouldResume := batch.shouldResume
  startedAt := batch.startedAt
  states := batch.states.filterMap fun update => if update.1 = index then some update.2 else none
  result := batch.result
  finishedAt := batch.finishedAt index
  policy := batch.policy index
  override := batch.override

end BatchAttempt

def persistBatchStates (ids : List JobId) : List (Nat × Json) → Redis Unit
  | [] => pure ()
  | (index, state) :: rest =>
      match ids[index]? with
      | none => persistBatchStates ids rest
      | some id => do
          let _ ← (updateState id state).attempt
          persistBatchStates ids rest

def handleBatchErr (storage : StorageInternal) (clock : Nat → Int) (message : String)
    (delay : JobEnvelope → JobExecutionPolicy → Nat) :
    Nat → List (JobEnvelope × JobExecutionPolicy) → Redis Unit
  | _, [] => pure ()
  | index, (envelope, policy) :: rest => do
      storage.handleErr (clock index) message envelope (delay envelope policy) policy.maxRetries
      handleBatchErr storage clock message delay (index + 1) rest

def finishBatchResult (storage : StorageInternal) (batch : BatchAttempt)
    (envelopes : List JobEnvelope) (policies : List JobExecutionPolicy) :
    Redis (Except ExecutionError Unit) :=
  match batch.result with
  | .notPanic (.ok ()) => do
      let _ ← (storage.finishWithSuccessBatch envelopes).attempt
      pure (.ok ())
  | .notPanic (.error message) => do
      storage.handleBatchErr batch.finishedAt message
        (Oxana.retryDelay batch.override message) 0 (envelopes.zip policies)
      pure (.error .notPanic)
  | .panic message => do
      storage.handleBatchErr batch.finishedAt message (fun _ policy => policy.retryDelay) 0
        (envelopes.zip policies)
      pure (.error .panic)

def runBatch (storage : StorageInternal) (batch : BatchAttempt) (envelopes : List JobEnvelope) :
    Redis (Except ExecutionError Unit) :=
  if envelopes = [] then pure (.ok ())
  else if batch.size ≠ envelopes.length then
    .fail (.genericError ("Batch worker has " ++ toString batch.size ++ " jobs but received " ++
      toString envelopes.length ++ " envelopes"))
  else do
    let policies := envelopes.mapIdx batch.policy
    let prepared :=
      if batch.shouldResume then envelopes
      else envelopes.map fun envelope => envelope.withState none
    let started ← setStartedAtBatch batch.startedAt prepared
    Program.batch (started.map .execute)
    persistBatchStates (started.map JobEnvelope.id) batch.states
    storage.finishBatchResult batch started policies

def processPendingJob (storage : StorageInternal) (build : JobEnvelope → Except String Attempt)
    (envelope : JobEnvelope) : Redis Unit :=
  match build envelope with
  | .ok job => storage.run job envelope
  | .error error => do
      let _ ← (storage.kill envelope
        ("Invalid job: " ++ envelope.job.name ++ " - " ++ error)).attempt
      pure ()

def routeJob (storage : StorageInternal) (build : JobEnvelope → Except String Attempt)
    (id : JobId) : Redis Unit := do
  let pending ← storage.loadPendingJob id
  match pending with
  | some envelope => storage.processPendingJob build envelope
  | none => pure ()

/-! Draining a queue without the worker processes, following `drainer.rs`. -/

inductive ProcessJobResult
  | success
  | failed
  | missing

structure DrainStats where
  processed : Nat
  succeeded : Nat
  failed : Nat
  missing : Nat

def DrainStats.default : DrainStats where
  processed := 0
  succeeded := 0
  failed := 0
  missing := 0

def DrainStats.add (stats : DrainStats) : ProcessJobResult → DrainStats
  | .success =>
      { stats with processed := stats.processed + 1, succeeded := stats.succeeded + 1 }
  | .failed => { stats with processed := stats.processed + 1, failed := stats.failed + 1 }
  | .missing => { stats with processed := stats.processed + 1, missing := stats.missing + 1 }

-- A worker that panics takes the caller of `drain` down with it.
def processJob (storage : StorageInternal) (build : JobEnvelope → Except OxanaError Attempt)
    (id : JobId) : Redis ProcessJobResult := do
  let found ← getJob id
  match found with
  | none => pure .missing
  | some envelope =>
      match build envelope with
      | .error error => .fail error
      | .ok job => do
          let prepared := if job.shouldResume then envelope else envelope.withState none
          if job.shouldResume then pure () else updateJob prepared
          ask (.execute prepared)
          persistStates id job.states
          match job.result with
          | .notPanic (.ok ()) => do
              storage.finishWithSuccess prepared
              pure .success
          | .notPanic (.error message) => do
              storage.finishWithFailure prepared
              storage.kill prepared message
              pure .failed
          | .panic _ => .halt

/-- The first argument bounds the number of jobs. -/
def drain (storage : StorageInternal) (build : JobEnvelope → Except OxanaError Attempt)
    (queue : String) : Nat → DrainStats → Redis DrainStats
  | 0, _ => .halt
  | bound + 1, stats => do
      let next ← storage.dequeue queue
      match next with
      | none => pure stats
      | some id => do
          let result ← storage.processJob build id
          drain storage build queue bound (stats.add result)

end StorageInternal

end Oxana
