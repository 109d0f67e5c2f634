import Mathlib.Algebra.GroupWithZero.Nat
import Oxana.Batching
import Oxana.QueueControls
import Oxana.StrandedJobs

/-!
`coordinator::run` of one queue: its dispatchers, the channel of jobs, the `select!` loop,
the worker tasks and the batchers, and what it does once the runtime is cancelled.  No
command fails.
-/

namespace Oxana

open Program

/-! Calls in progress. -/

/-- A call up to its next command, the ids it has in the processing list and whether it has
started a job. -/
structure Running (α : Type) where
  program : Redis α
  held : List JobId
  started : Bool

def heldAfter (held : List JobId) : (command : Command) → command.Reply → List JobId
  | .lmove _ _, (reply : Option JobId) => reply.toList ++ held
  | .lrem _ _ member, _ => held.erase member
  | _, _ => held

namespace Running

variable {α : Type}

def start (program : Redis α) (held : List JobId) : Running α where
  program := program
  held := held
  started := false

def advance (running : Running α) (command : Command)
    (next : Except OxanaError command.Reply → Redis α) (store : Store) : Running α where
  program := next (.ok (serve command store).1)
  held := heldAfter running.held command (serve command store).1
  started := running.started || isExecute command

end Running

/-! The tasks. -/

structure WorkerJob where
  jobId : JobId
  permit : Nat

inductive DispatcherStage
  | acquiring
  | popping (pop : Running (Option JobId))
  | sending (jobId : JobId)
  | stopped

structure QueueDispatcher where
  queueKey : String
  stage : DispatcherStage

def QueueDispatcher.held (dispatcher : QueueDispatcher) : List JobId :=
  match dispatcher.stage with
  | .popping pop => pop.held
  | .sending jobId => [jobId]
  | _ => []

structure WorkerTask where
  jobs : List PendingJob
  running : Running Unit
  permits : List Nat

namespace WorkerTask

def ids (task : WorkerTask) : List JobId :=
  task.jobs.map fun job => job.envelope.id

def single (storage : StorageInternal) (build : JobEnvelope → Except String StorageInternal.Attempt)
    (job : PendingJob) : WorkerTask where
  jobs := [job]
  running := .start (storage.processPendingJob build job.envelope) [job.envelope.id]
  permits := [job.permit]

def batch (storage : StorageInternal) (registry : String → Option BatchWorker)
    (jobs : List PendingJob) : WorkerTask where
  jobs := jobs
  running := .start (storage.processPendingBatch (buildBatch registry)
    (jobs.map PendingJob.envelope)) (jobs.map fun job => job.envelope.id)
  permits := jobs.map PendingJob.permit

end WorkerTask

inductive CoordinatorStage
  | selecting
  | routing (job : WorkerJob) (load : Running (Option JobEnvelope))
  | waiting
  | joining
  | returned

namespace CoordinatorStage

def left : CoordinatorStage → Bool
  | .selecting => false
  | .routing _ _ => false
  | _ => true

def held : CoordinatorStage → List JobId
  | .routing _ load => load.held
  | _ => []

def carried : CoordinatorStage → List JobId
  | .routing job _ => [job.jobId]
  | _ => []

end CoordinatorStage

/-- The control of a dispatcher has its index, which is the number of its permits.
`unanswered` are commands of dropped calls that the server may still apply; `moved` are all
ids that pops have moved, `missing` those without an envelope. -/
structure QueueRun where
  store : Store
  watching : Bool
  controls : List QueueControl
  dispatchers : List QueueDispatcher
  unanswered : List Command
  jobs : MpscChannel WorkerJob
  coordinator : CoordinatorStage
  batching : Batching
  tasks : List WorkerTask
  moved : List JobId
  missing : List JobId

namespace QueueRun

def start (store : Store) (concurrency : QueueConcurrency) : QueueRun where
  store := store
  watching := true
  controls := []
  dispatchers := []
  unanswered := []
  jobs := .new (max concurrency.defaultConcurrency 1)
  coordinator := .selecting
  batching := .idle
  tasks := []
  moved := []
  missing := []

def busyCount (run : QueueRun) : Nat :=
  (run.controls.map QueueControl.active).sum

def release (run : QueueRun) (permit : Nat) : List QueueControl :=
  run.controls.modify permit QueueControl.release

end QueueRun

/-- The throttler is reached: it answers without an error. -/
def Answers (throttler : Option ThrottlerCalls) : Prop :=
  ∀ calls, throttler = some calls →
    (∃ state, calls.state = .ok state) ∧ ∀ cost, ∃ state, calls.consume cost = .ok state

/-! Steps. -/

inductive QueueEvent
  | pop (dispatcher : Nat)
  | stop (dispatcher : Nat)
  | settle (command : Command)
  | load
  | work (task : Nat)
  | leave
  | quiet

/-- One step of a task of the queue.  A `select!` takes any of its branches that are ready. -/
inductive QueueStep (storage : StorageInternal) (batchConfig : String → Option WorkerBatchConfig) :
    QueueRun → QueueEvent → QueueRun → Prop
  | discover {run : QueueRun} (queueKey : String) (config : QueueRuntimeConfig)
      (watching : run.watching = true) :
      QueueStep storage batchConfig run .quiet
        { run with
          controls := run.controls ++ [.new config]
          dispatchers := run.dispatchers ++ [⟨queueKey, .acquiring⟩] }
  | unwatch {run : QueueRun} :
      QueueStep storage batchConfig run .quiet { run with watching := false }
  | applyConfig {run : QueueRun} (queue : Nat) (config : QueueRuntimeConfig) :
      QueueStep storage batchConfig run .quiet
        { run with controls := run.controls.modify queue fun control => control.applyConfig config }
  | acquire {run : QueueRun} {index : Nat} {queueKey : String} {control granted : QueueControl}
      (throttler : Option ThrottlerCalls) (answers : Answers throttler)
      (found : run.dispatchers[index]? = some ⟨queueKey, .acquiring⟩)
      (free : run.controls[index]? = some control) (acquired : control.acquire = some granted) :
      QueueStep storage batchConfig run .quiet
        { run with
          controls := run.controls.set index granted
          dispatchers := run.dispatchers.set index
            ⟨queueKey, .popping (.start (storage.popQueueMessage queueKey throttler) [])⟩ }
  | stopAcquiring {run : QueueRun} {index : Nat} {queueKey : String}
      (found : run.dispatchers[index]? = some ⟨queueKey, .acquiring⟩)
      (cancelled : run.batching.cancelled = true) :
      QueueStep storage batchConfig run .quiet
        { run with dispatchers := run.dispatchers.set index ⟨queueKey, .stopped⟩ }
  | pop {run : QueueRun} {index : Nat} {queueKey : String} {pop : Running (Option JobId)}
      {command : Command} {next : Except OxanaError command.Reply → Redis (Option JobId)}
      (found : run.dispatchers[index]? = some ⟨queueKey, .popping pop⟩)
      (sends : pop.program = .call command next) :
      QueueStep storage batchConfig run (.pop index)
        { run with
          store := (serve command run.store).2
          dispatchers := run.dispatchers.set index
            ⟨queueKey, .popping (pop.advance command next run.store)⟩
          moved := (poppedId command (serve command run.store).1).toList ++ run.moved }
  | popped {run : QueueRun} {index : Nat} {queueKey : String} {pop : Running (Option JobId)}
      {jobId : JobId} (found : run.dispatchers[index]? = some ⟨queueKey, .popping pop⟩)
      (ended : pop.program = .done (some jobId)) :
      QueueStep storage batchConfig run .quiet
        { run with dispatchers := run.dispatchers.set index ⟨queueKey, .sending jobId⟩ }
  | nothing {run : QueueRun} {index : Nat} {queueKey : String} {pop : Running (Option JobId)}
      (found : run.dispatchers[index]? = some ⟨queueKey, .popping pop⟩)
      (ended : pop.program = .done none) :
      QueueStep storage batchConfig run .quiet
        { run with
          controls := run.release index
          dispatchers := run.dispatchers.set index ⟨queueKey, .acquiring⟩ }
  -- The call is dropped; a command that was sent is applied all the same.
  | stop {run : QueueRun} {index : Nat} {queueKey : String} {pop : Running (Option JobId)}
      (found : run.dispatchers[index]? = some ⟨queueKey, .popping pop⟩)
      (cancelled : run.batching.cancelled = true) (sent : List Command)
      (last : sent = [] ∨ ∃ command next, pop.program = .call command next ∧ sent = [command]) :
      QueueStep storage batchConfig run (.stop index)
        { run with
          controls := run.release index
          dispatchers := run.dispatchers.set index ⟨queueKey, .stopped⟩
          unanswered := sent ++ run.unanswered }
  | settle {run : QueueRun} {command : Command} {earlier later : List Command}
      (sent : run.unanswered = earlier ++ command :: later) :
      QueueStep storage batchConfig run (.settle command)
        { run with
          store := (serve command run.store).2
          unanswered := earlier ++ later
          moved := (poppedId command (serve command run.store).1).toList ++ run.moved }
  | send {run : QueueRun} {index : Nat} {queueKey : String} {jobId : JobId}
      {jobs : MpscChannel WorkerJob}
      (found : run.dispatchers[index]? = some ⟨queueKey, .sending jobId⟩)
      (sent : run.jobs.send ⟨jobId, index⟩ = .sent jobs) :
      QueueStep storage batchConfig run .quiet
        { run with
          dispatchers := run.dispatchers.set index ⟨queueKey, .acquiring⟩
          jobs := jobs }
  | receive {run : QueueRun} {job : WorkerJob} {jobs : MpscChannel WorkerJob} {connected : Bool}
      (selecting : run.coordinator = .selecting) (ready : run.batching.sending = none)
      (received : run.jobs.recv connected = .message job jobs) :
      QueueStep storage batchConfig run .quiet
        { run with
          jobs := jobs
          coordinator := .routing job (.start (storage.loadPendingJob job.jobId) [job.jobId]) }
  | load {run : QueueRun} {job : WorkerJob} {load : Running (Option JobEnvelope)}
      {command : Command} {next : Except OxanaError command.Reply → Redis (Option JobEnvelope)}
      (routing : run.coordinator = .routing job load) (sends : load.program = .call command next) :
      QueueStep storage batchConfig run .load
        { run with
          store := (serve command run.store).2
          coordinator := .routing job (load.advance command next run.store) }
  | routeSingle {run : QueueRun} {job : WorkerJob} {load : Running (Option JobEnvelope)}
      {envelope : JobEnvelope} (build : JobEnvelope → Except String StorageInternal.Attempt)
      (routing : run.coordinator = .routing job load)
      (loaded : load.program = .done (some envelope))
      (single : batchConfig envelope.job.name = none) :
      QueueStep storage batchConfig run .quiet
        { run with
          coordinator := .selecting
          tasks := run.tasks ++ [.single storage build ⟨envelope, job.permit⟩] }
  | routeBatch {run : QueueRun} {job : WorkerJob} {load : Running (Option JobEnvelope)}
      {envelope : JobEnvelope} {config : WorkerBatchConfig}
      (routing : run.coordinator = .routing job load)
      (loaded : load.program = .done (some envelope)) (ready : run.batching.sending = none)
      (batched : batchConfig envelope.job.name = some config) :
      QueueStep storage batchConfig run .quiet
        { run with
          coordinator := .selecting
          batching := { run.batching with
            sending := some ⟨envelope, job.permit⟩
            passed := run.batching.passed ++ [⟨envelope, job.permit⟩] } }
  | routeMissing {run : QueueRun} {job : WorkerJob} {load : Running (Option JobEnvelope)}
      (routing : run.coordinator = .routing job load) (loaded : load.program = .done none) :
      QueueStep storage batchConfig run .quiet
        { run with
          controls := run.release job.permit
          coordinator := .selecting
          missing := job.jobId :: run.missing }
  | spawnBatcher {run : QueueRun} {job : PendingJob} {config : WorkerBatchConfig}
      (sending : run.batching.sending = some job)
      (batched : batchConfig job.envelope.job.name = some config)
      (vacant : run.batching.table.lookup job.key = none) :
      QueueStep storage batchConfig run .quiet
        { run with batching := { run.batching with
            batchers := run.batching.batchers ++ [.start config]
            table := (job.key, run.batching.batchers.length) :: run.batching.table } }
  | accept {run : QueueRun} {job : PendingJob} {index : Nat} {batcher : Batcher}
      {tx : MpscChannel PendingJob} (sending : run.batching.sending = some job)
      (occupied : run.batching.table.lookup job.key = some index)
      (found : run.batching.batchers[index]? = some batcher)
      (sent : batcher.rx.send job = .sent tx) :
      QueueStep storage batchConfig run .quiet
        { run with batching := { run.batching with
            batchers := run.batching.batchers.set index { batcher with rx := tx }
            sending := none } }
  | refuse {run : QueueRun} {job back : PendingJob} {index : Nat} {batcher : Batcher}
      (sending : run.batching.sending = some job)
      (occupied : run.batching.table.lookup job.key = some index)
      (found : run.batching.batchers[index]? = some batcher)
      (refused : batcher.rx.send job = .refused back) :
      QueueStep storage batchConfig run .quiet
        { run with batching := { run.batching with
            table := run.batching.table.filter fun entry => entry.1 != job.key
            sending := some back } }
  | batcher {run : QueueRun} {before after : Batcher} (index : Nat) (event : BatcherEvent)
      (registry : String → Option BatchWorker)
      (found : run.batching.batchers[index]? = some before)
      (cancelled : event = .cancelled → run.batching.cancelled = true)
      (stepped : before.step (run.batching.connected index) event = some after) :
      QueueStep storage batchConfig run .quiet
        { run with
          batching := { run.batching with batchers := run.batching.batchers.set index after }
          tasks := run.tasks ++
            (after.spawned.drop before.spawned.length).map (.batch storage registry) }
  | work {run : QueueRun} {index : Nat} {task : WorkerTask} {command : Command}
      {next : Except OxanaError command.Reply → Redis Unit}
      (found : run.tasks[index]? = some task) (sends : task.running.program = .call command next) :
      QueueStep storage batchConfig run (.work index)
        { run with
          store := (serve command run.store).2
          tasks := run.tasks.set index
            { task with running := task.running.advance command next run.store } }
  -- A permit of a task goes once one more of its jobs has left the list.
  | finish {run : QueueRun} {index permit : Nat} {task : WorkerTask}
      (found : run.tasks[index]? = some task) (owned : permit ∈ task.permits)
      (free : task.running.held.length < task.permits.length) :
      QueueStep storage batchConfig run .quiet
        { run with
          controls := run.release permit
          tasks := run.tasks.set index { task with permits := task.permits.erase permit } }
  | cancel {run : QueueRun} :
      QueueStep storage batchConfig run .quiet
        { run with batching := { run.batching with cancelled := true } }
  -- Both `break`s of the loop are taken only when the runtime is cancelled.
  | leave {run : QueueRun} (selecting : run.coordinator = .selecting)
      (ready : run.batching.sending = none) (cancelled : run.batching.cancelled = true) :
      QueueStep storage batchConfig run .leave
        { run with
          coordinator := .waiting
          batching := { run.batching with table := [] } }
  | finished {run : QueueRun} (waiting : run.coordinator = .waiting) (idle : run.busyCount = 0) :
      QueueStep storage batchConfig run .quiet { run with coordinator := .joining }
  | shutdownTimeout {run : QueueRun} (waiting : run.coordinator = .waiting) :
      QueueStep storage batchConfig run .quiet { run with coordinator := .joining }
  -- The result collector ends when the last batcher and the last task are gone.
  | join {run : QueueRun} (joining : run.coordinator = .joining) (watched : run.watching = false)
      (worked : ∀ task ∈ run.tasks, Idle task.running.program)
      (batched : ∀ batcher ∈ run.batching.batchers, batcher.stage = .returned) :
      QueueStep storage batchConfig run .quiet
        { run with coordinator := .returned, jobs := run.jobs.close }
  -- Everything else that uses the store leaves the processing list of this process alone.
  | shift {run : QueueRun} (store : Store)
      (same : store.lists.get storage.currentProcessingQueue =
        run.store.lists.get storage.currentProcessingQueue) :
      QueueStep storage batchConfig run .quiet { run with store := store }

def QueueReaches (storage : StorageInternal) (batchConfig : String → Option WorkerBatchConfig)
    (allowed : QueueRun → QueueEvent → Prop) : QueueRun → QueueRun → Prop :=
  Relation.ReflTransGen fun before after =>
    ∃ event, allowed before event ∧ QueueStep storage batchConfig before event after

theorem QueueReaches.move {storage : StorageInternal}
    {batchConfig : String → Option WorkerBatchConfig} {allowed : QueueRun → QueueEvent → Prop}
    {start run next : QueueRun} {event : QueueEvent}
    (reaches : QueueReaches storage batchConfig allowed start run)
    (step : QueueStep storage batchConfig run event next) (fits : allowed run event) :
    QueueReaches storage batchConfig allowed start next :=
  Relation.ReflTransGen.tail reaches ⟨event, fits, step⟩

end Oxana
