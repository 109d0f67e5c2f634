import Oxana.FleetDuties
import Oxana.PendingBatch
import Oxana.ClusterInvariant

/-!
The cron loops of several processes, next to the promotion of due jobs and the workers, and
what each of them sends, watched for one id.  A job that waits in a queue or a sorted set is
executed by the thread that takes it from there, so the thread owes its execution.
-/

namespace Oxana

open Program

structure CronJob where
  /-- The occurrences after a time, in microseconds, as the iterator of the cron schedule
  yields them. -/
  schedule : Int → Nat → Option Int
  queueKey : String
  resurrect : Bool

structure CronSettings where
  cronInitialOffset : Int
  cronLookahead : Int

def JobEnvelope.newCron (queue : String) (id : JobId) (name : String) (scheduledAt : Int)
    (resurrect : Bool) (now : Int) : JobEnvelope where
  id := id
  queue := queue
  job := { name := name, args := .object [] }
  metadata := {
    id := id
    retries := 0
    unique := true
    onConflict := some .skip
    createdAt := now
    scheduledAt := max scheduledAt now
    startedAt := none
    state := none
    resurrect := resurrect
    error := none
    throttleCost := none }

def cronJobId (jobName : String) (scheduledAt : Int) : JobId :=
  jobName ++ "-" ++ toString scheduledAt

namespace StorageInternal

/-- The loop from one occurrence on.  Every `Utc::now()` takes the next clock reading; the
loop is cancelled where the readings end. -/
def cronTicks (storage : StorageInternal) (settings : CronSettings) (jobName : String)
    (cronJob : CronJob) (start : Int) : List Int → Option Int → Nat → Redis Unit
  | [], _, _ => pure ()
  | now :: clock, previous, index =>
      match cronJob.schedule start index with
      | none => pure ()
      | some next =>
          if now + settings.cronLookahead < next then
            cronTicks storage settings jobName cronJob start clock previous index
          else if previous.any (fun time => now < time) then
            cronTicks storage settings jobName cronJob start clock previous index
          else
            match clock with
            | created :: checked :: later => do
                let _ ← storage.enqueueAt checked
                  (.newCron cronJob.queueKey (cronJobId jobName next) jobName next
                    cronJob.resurrect created)
                cronTicks storage settings jobName cronJob start later (some next) (index + 1)
            | _ => pure ()

def cronJobLoop (storage : StorageInternal) (settings : CronSettings) (jobName : String)
    (cronJob : CronJob) : List Int → Redis Unit
  | [] => pure ()
  | now :: clock =>
      storage.cronTicks settings jobName cronJob (now + settings.cronInitialOffset) clock none 0

def takeJob (storage : StorageInternal) (queue : String) : Redis (Option JobEnvelope) := do
  let next ← storage.dequeue queue
  match next with
  | some id => storage.loadPendingJob id
  | none => pure none

def takeJobs (storage : StorageInternal) : List String → Redis (List JobEnvelope)
  | [] => pure []
  | queue :: rest => do
      let envelope ← storage.takeJob queue
      let others ← takeJobs storage rest
      pure (envelope.toList ++ others)

end StorageInternal

inductive CronDuty
  | cron (settings : CronSettings) (jobName : String) (cronJob : CronJob) (clock : List Int)
  | promote (now : Int) (name : DelayedSet)
  | work (queue : String) (build : JobEnvelope → Except String StorageInternal.Attempt)
  | batch (queues : List String) (build : String → List Json → Except String BatchBuild)

def QueueListed (given queue : String) : Prop :=
  isProcessingList given ((StorageKeys.new given).namespaceQueue queue) = false

namespace CronDuty

def program (storage : StorageInternal) : CronDuty → Redis Unit
  | cron settings jobName cronJob clock => storage.cronJobLoop settings jobName cronJob clock
  | promote now name => do
      let _ ← storage.enqueueScheduled now name
      pure ()
  | work queue build => do
      let pending ← storage.takeJob queue
      match pending with
      | some envelope => storage.processPendingJob build envelope
      | none => pure ()
  | batch queues build => do
      let pending ← storage.takeJobs queues
      storage.processPendingBatch build pending

/-- No queue is a processing list, and no execution fails. -/
def Ordinary (given : String) : CronDuty → Prop
  | cron _ _ cronJob _ => QueueListed given cronJob.queueKey
  | promote _ _ => True
  | work queue build => QueueListed given queue ∧
      ∀ envelope job, build envelope = .ok job → job.result = .notPanic (.ok ())
  | batch queues build => (∀ queue ∈ queues, QueueListed given queue) ∧
      ∀ name args built job, build name args = .ok built → built.job = some job →
        job.result = .notPanic (.ok ())

def loops : CronDuty → Bool
  | cron _ _ _ _ => true
  | _ => false

end CronDuty

/-! Monitors. -/

def Placeable (given : String) (field : JobId) : Payload → Prop
  | .json envelope => envelope.id = field ∧ QueueListed given envelope.queue
  | .malformed _ => True

section Monitors

variable (given : String) (id : JobId)

/-- What a worker may send when it owes so many executions of the id. -/
def dueAllows (owed : Nat) : Command → Prop
  | .lmove source destination => isProcessingList given source = false ∧
      isProcessingList given destination = true
  | .hget _ => True
  | .hdel _ => True
  | .hset field text => Placeable given field text
  | .hsetMultiple items => ∀ item ∈ items, Placeable given item.1 item.2
  | .lrem key _ _ => isProcessingList given key = true
  | .lpushDead _ => True
  | .ltrimDead _ => True
  | .execute envelope => envelope.id = id → 0 < owed
  | _ => False

def dueExpects : (command : Command) → command.Reply → Prop
  | .hget field, (reply : Option Payload) => ∀ text, reply = some text → Placeable given field text
  | _, _ => True

def dueRecords (owed : Nat) : (command : Command) → command.Reply → Nat
  | .lmove _ _, (reply : Option JobId) => owed + if reply = some id then 1 else 0
  | .execute envelope, _ => owed - if envelope.id = id then 1 else 0
  | _, _ => owed

def dueMonitor : Monitor Command.Reply Nat where
  allows := dueAllows given id
  expects := fun _ => dueExpects given
  records := dueRecords id

def loopAllows (absent : Option JobId) : Command → Prop
  | .hexists _ => True
  | .hset field text => Placeable given field text
  | .zadd name member _ => name = .schedule ∧ absent = some member
  | .lpush key ids => isProcessingList given key = false ∧ ids.length ≤ 1 ∧
      ∀ member ∈ ids, absent = some member
  | _ => False

def loopRecords (absent : Option JobId) : (command : Command) → command.Reply → Option JobId
  | .hexists member, (found : Bool) => if found then none else some member
  | _, _ => absent

def loopMonitor : Monitor Command.Reply (Option JobId) where
  allows := loopAllows given
  expects := fun _ _ _ => True
  records := loopRecords

abbrev CronNote := RequeueNote ⊕ Nat ⊕ Option JobId

def cronMonitor (storage : StorageInternal) : Monitor Command.Reply CronNote :=
  (requeueMonitor (fleetWatch given id) storage).sum
    ((dueMonitor given id).sum (loopMonitor given))

end Monitors

variable {given : String} {id member : JobId} {storage : StorageInternal} {owed : Nat}
  {envelope : JobEnvelope} {absent : Option JobId}

theorem queueListed_of_plain {queue : String} (plain : Plain given queue) :
    QueueListed given queue := by
  unfold QueueListed
  rw [← Bool.not_eq_true, isProcessingList_iff]
  rintro ⟨processId, equal⟩
  exact StorageKeys.namespaceQueue_ne_processingQueue given plain processId equal

theorem processing_current (same : storage.given = given) :
    isProcessingList given storage.currentProcessingQueue = true := by
  rw [isProcessingList_iff]
  refine ⟨storage.processId, ?_⟩
  rw [← same]
  rfl

theorem placeable_toText (listed : QueueListed given envelope.queue) :
    Placeable given envelope.id (toText envelope) :=
  ⟨rfl, listed⟩

/-! Workers. -/

def dueQuiet (given : String) : Command → Prop
  | .hdel _ => True
  | .hset field text => Placeable given field text
  | .hsetMultiple items => ∀ item ∈ items, Placeable given item.1 item.2
  | .lrem key _ _ => isProcessingList given key = true
  | .lpushDead _ => True
  | .ltrimDead _ => True
  | _ => False

theorem complies_quiet {program : Redis α} (all : program.Sends (dueQuiet given)) :
    Complies (dueMonitor given id) (fun _ after => after = owed) (fun after => after = owed) owed
      program := by
  refine complies_of_sends all ?_
  intro command quiet
  cases command <;> first | exact ⟨quiet, fun _ => rfl⟩ | exact False.elim quiet

theorem complies_dueGet :
    Complies (dueMonitor given id)
      (fun found after => after = owed ∧
        ∀ envelope, found = some envelope → Placeable given member (.json envelope))
      (fun after => after = owed) owed (StorageInternal.getJob member) := by
  have asks : Complies (dueMonitor given id)
      (fun text after => after = owed ∧ ∀ found, text = some found → Placeable given member found)
      (fun after => after = owed) owed (ask (.hget member)) :=
    complies_request trivial fun _ expected => ⟨rfl, expected⟩
  refine complies_bind asks ?_
  rintro text after ⟨rfl, placeable⟩
  cases text with
  | none => exact ⟨rfl, by simp⟩
  | some payload =>
      cases payload with
      | malformed text => exact (rfl : after = after)
      | json envelope =>
          refine ⟨rfl, ?_⟩
          rintro found ⟨⟩
          exact placeable _ rfl

theorem sends_updateJob (listed : QueueListed given envelope.queue) :
    (StorageInternal.updateJob envelope).Sends (dueQuiet given) := by
  apply sends_batch
  intro command member
  rw [List.mem_singleton.mp member]
  exact placeable_toText listed

theorem sends_updateJobs {envelopes : List JobEnvelope}
    (listed : ∀ envelope ∈ envelopes, QueueListed given envelope.queue) :
    (StorageInternal.updateJobs envelopes).Sends (dueQuiet given) := by
  unfold StorageInternal.updateJobs
  split
  · trivial
  · refine sends_request ?_
    intro item member
    obtain ⟨envelope, inside, rfl⟩ := List.mem_map.mp member
    exact placeable_toText (listed envelope inside)

theorem complies_dueState (state : Json) :
    Complies (dueMonitor given id) (fun _ after => after = owed) (fun after => after = owed) owed
      (StorageInternal.updateState member state) := by
  refine complies_bind complies_dueGet ?_
  rintro found after ⟨rfl, placeable⟩
  cases found with
  | none => exact (rfl : after = after)
  | some envelope => exact complies_quiet (sends_updateJob (placeable envelope rfl).2)

theorem complies_dueStates (states : List Json) :
    Complies (dueMonitor given id) (fun _ after => after = owed) (fun after => after = owed) owed
      (StorageInternal.persistStates member states) := by
  induction states with
  | nil => exact (rfl : owed = owed)
  | cons state rest ih =>
      refine complies_bind (complies_attempt_keeps (complies_dueState state)) ?_
      rintro _ after rfl
      exact ih

theorem complies_dueBatchStates (ids : List JobId) (states : List (Nat × Json)) :
    Complies (dueMonitor given id) (fun _ after => after = owed) (fun after => after = owed) owed
      (StorageInternal.persistBatchStates ids states) := by
  induction states with
  | nil => exact (rfl : owed = owed)
  | cons update rest ih =>
      unfold StorageInternal.persistBatchStates
      split
      · exact ih
      · refine complies_bind (complies_attempt_keeps (complies_dueState update.2)) ?_
        rintro _ after rfl
        exact ih

theorem sends_kill (same : storage.given = given) (message : String) :
    (storage.kill envelope message).Sends (dueQuiet given) := by
  apply sends_batch
  simp [dueQuiet, processing_current same]

theorem sends_finish (same : storage.given = given) :
    (storage.finishWithSuccess envelope).Sends (dueQuiet given) := by
  apply sends_batch
  simp [dueQuiet, processing_current same]

theorem sends_finishBatch (same : storage.given = given) (envelopes : List JobEnvelope) :
    (storage.finishWithSuccessBatch envelopes).Sends (dueQuiet given) := by
  unfold StorageInternal.finishWithSuccessBatch
  split
  · trivial
  · apply sends_batch
    intro command listed
    rcases List.mem_cons.mp listed with rfl | listed
    · trivial
    · obtain ⟨envelope, _, rfl⟩ := List.mem_map.mp listed
      exact processing_current same

theorem sends_deleteJob (same : storage.given = given) :
    (storage.deleteJob member).Sends (dueQuiet given) := by
  apply sends_batch
  simp [dueQuiet, processing_current same]

theorem complies_dueExecute (due : envelope.id = id → 0 < owed) :
    Complies (dueMonitor given id)
      (fun _ after => after = owed - if envelope.id = id then 1 else 0) (fun _ => True) owed
      (ask (.execute envelope)) :=
  complies_request due fun _ _ => rfl

theorem complies_dueExecutes {envelopes : List JobEnvelope}
    (due : (envelopes.map JobEnvelope.id).count id ≤ owed) :
    Complies (dueMonitor given id) (fun _ _ => True) (fun _ => True) owed
      (batch (envelopes.map .execute) : Redis Unit) := by
  induction envelopes generalizing owed with
  | nil => trivial
  | cons envelope rest ih =>
      rw [List.map_cons, List.count_cons] at due
      refine complies_batch_cons ?_ fun _ _ => ih ?_
      · intro watched
        rw [if_pos (beq_iff_eq.mpr watched)] at due
        omega
      · change _ ≤ owed - if envelope.id = id then 1 else 0
        simp only [beq_iff_eq] at due
        omega

theorem complies_dueRun (same : storage.given = given) (job : StorageInternal.Attempt)
    (succeeds : job.result = .notPanic (.ok ())) (listed : QueueListed given envelope.queue)
    (due : envelope.id = id → 0 < owed) :
    Complies (dueMonitor given id) (fun _ _ => True) (fun _ => True) owed
      (storage.run job envelope) := by
  unfold StorageInternal.run
  generalize chosen : (if job.shouldResume then envelope else envelope.withState none) = prepared
  have kept : prepared.id = envelope.id ∧ prepared.queue = envelope.queue := by
    rw [← chosen]
    split <;> exact ⟨rfl, rfl⟩
  have starts : Complies (dueMonitor given id)
      (fun started after => after = owed ∧ started = prepared.withStartedAt job.startedAt)
      (fun _ => True) owed (StorageInternal.setStartedAt job.startedAt prepared) := by
    refine complies_bind (complies_mono (complies_quiet (sends_updateJob ?_))
      (fun _ _ same => same) fun _ _ => trivial) ?_
    · rw [JobEnvelope.withStartedAt, kept.2]
      exact listed
    · rintro _ after rfl
      exact ⟨rfl, rfl⟩
  refine complies_bind starts ?_
  rintro started after ⟨rfl, rfl⟩
  refine complies_bind (complies_dueExecute ?_) ?_
  · intro watched
    exact due (kept.1.symm.trans watched)
  · intro _ running _
    refine complies_bind (complies_mono (complies_dueStates job.states)
      (fun _ _ same => same) fun _ _ => trivial) ?_
    rintro _ final rfl
    rw [succeeds]
    refine complies_bind (complies_attempt_keeps (complies_mono
      (complies_quiet (sends_finish same)) (fun _ _ _ => trivial) fun _ _ => trivial)) ?_
    exact fun _ _ _ => trivial

theorem complies_dueRunBatch (same : storage.given = given) (job : StorageInternal.BatchAttempt)
    (succeeds : job.result = .notPanic (.ok ())) {envelopes : List JobEnvelope}
    (listed : ∀ envelope ∈ envelopes, QueueListed given envelope.queue)
    (due : (envelopes.map JobEnvelope.id).count id ≤ owed) :
    Complies (dueMonitor given id) (fun _ _ => True) (fun _ => True) owed
      (storage.runBatch job envelopes) := by
  unfold StorageInternal.runBatch
  split
  · trivial
  split
  · trivial
  generalize chosen : (if job.shouldResume then envelopes
    else envelopes.map fun envelope => envelope.withState none) = prepared
  have ids : prepared.map JobEnvelope.id = envelopes.map JobEnvelope.id := by
    rw [← chosen]
    split
    · rfl
    · rw [List.map_map]
      rfl
  have queues : ∀ envelope ∈ prepared, QueueListed given envelope.queue := by
    intro envelope member
    rw [← chosen] at member
    split at member
    · exact listed envelope member
    · obtain ⟨original, inside, rfl⟩ := List.mem_map.mp member
      exact listed original inside
  have starts : Complies (dueMonitor given id)
      (fun started after => after = owed ∧
        started = prepared.map fun envelope => envelope.withStartedAt job.startedAt)
      (fun _ => True) owed (StorageInternal.setStartedAtBatch job.startedAt prepared) := by
    refine complies_bind (complies_mono (complies_quiet (sends_updateJobs ?_))
      (fun _ _ same => same) fun _ _ => trivial) ?_
    · intro envelope member
      obtain ⟨original, inside, rfl⟩ := List.mem_map.mp member
      exact queues original inside
    · rintro _ after rfl
      exact ⟨rfl, rfl⟩
  refine complies_bind starts ?_
  rintro started after ⟨rfl, rfl⟩
  refine complies_bind (complies_dueExecutes ?_) ?_
  · rw [List.map_map]
    change (prepared.map JobEnvelope.id).count id ≤ after
    rw [ids]
    exact due
  · intro _ running _
    refine complies_bind (complies_mono (complies_dueBatchStates _ _)
      (fun _ _ same => same) fun _ _ => trivial) ?_
    rintro _ final rfl
    unfold StorageInternal.finishBatchResult
    rw [succeeds]
    refine complies_bind (complies_attempt_keeps (complies_mono
      (complies_quiet (sends_finishBatch same _)) (fun _ _ _ => trivial) fun _ _ => trivial)) ?_
    exact fun _ _ _ => trivial

/-! Taking jobs. -/

theorem complies_dueLoad (same : storage.given = given) :
    Complies (dueMonitor given id)
      (fun pending after => after = owed ∧
        ∀ envelope, pending = some envelope → Placeable given member (.json envelope))
      (fun _ => True) owed (storage.loadPendingJob member) := by
  have reads : Complies (dueMonitor given id)
      (fun found after => after = owed ∧
        ∀ envelope, found = .ok (some envelope) → Placeable given member (.json envelope))
      (fun _ => True) owed (StorageInternal.getJob member).attempt := by
    refine complies_attempt (complies_mono complies_dueGet ?_ ?_)
    · rintro found after ⟨same, placeable⟩
      refine ⟨same, ?_⟩
      rintro envelope ⟨⟩
      exact placeable envelope rfl
    · rintro after same
      exact ⟨trivial, fun _ => ⟨same, by rintro _ ⟨⟩⟩⟩
  refine complies_bind reads ?_
  rintro found after ⟨rfl, placeable⟩
  cases found with
  | error error => exact ⟨rfl, by rintro _ ⟨⟩⟩
  | ok stored =>
      cases stored with
      | some envelope =>
          refine ⟨rfl, ?_⟩
          rintro found ⟨⟩
          exact placeable envelope rfl
      | none =>
          refine complies_bind (complies_mono
            (complies_attempt_keeps (complies_quiet (sends_deleteJob same)))
            (fun _ _ same => same) fun _ _ => trivial) ?_
          rintro _ later rfl
          exact ⟨rfl, by rintro _ ⟨⟩⟩

def Taken (given : String) (id : JobId) (owed : Nat) (envelopes : List JobEnvelope) (after : Nat) :
    Prop :=
  (envelopes.map JobEnvelope.id).count id + owed ≤ after ∧
    ∀ envelope ∈ envelopes, QueueListed given envelope.queue

theorem complies_dueTake (same : storage.given = given) {queue : String}
    (listed : QueueListed given queue) :
    Complies (dueMonitor given id) (fun pending after => Taken given id owed pending.toList after)
      (fun _ => True) owed (storage.takeJob queue) := by
  have moves : Complies (dueMonitor given id)
      (fun next after => after = owed + if next = some id then 1 else 0) (fun _ => True) owed
      (storage.dequeue queue) := by
    refine complies_request ⟨?_, processing_current same⟩ fun _ _ => rfl
    rw [← same] at listed ⊢
    exact listed
  refine complies_bind moves ?_
  rintro next after rfl
  cases next with
  | none => exact ⟨by simp, by simp⟩
  | some found =>
      refine complies_mono (complies_dueLoad same) ?_ fun _ _ => trivial
      rintro pending after ⟨rfl, placeable⟩
      cases pending with
      | none => exact ⟨by simp, by simp⟩
      | some envelope =>
          obtain ⟨own, queue⟩ := placeable envelope rfl
          refine ⟨?_, by simpa using queue⟩
          rw [Option.toList_some, List.map_singleton, List.count_singleton, own]
          simp only [beq_iff_eq, Option.some.injEq]
          omega

theorem complies_dueTakes (same : storage.given = given) {queues : List String}
    (listed : ∀ queue ∈ queues, QueueListed given queue) :
    Complies (dueMonitor given id) (fun pending after => Taken given id owed pending after)
      (fun _ => True) owed (storage.takeJobs queues) := by
  induction queues generalizing owed with
  | nil => exact ⟨by simp, by simp⟩
  | cons queue rest ih =>
      refine complies_bind (complies_dueTake same (listed queue List.mem_cons_self)) ?_
      intro first after taken
      refine complies_bind (ih fun other member => listed other (List.mem_cons_of_mem _ member)) ?_
      intro others final later
      have counts := taken.1
      have more := later.1
      refine ⟨?_, ?_⟩
      · rw [List.map_append, List.count_append]
        omega
      · intro envelope member
        rcases List.mem_append.mp member with mine | theirs
        · exact taken.2 envelope mine
        · exact later.2 envelope theirs

theorem complies_duePending (same : storage.given = given)
    {build : JobEnvelope → Except String StorageInternal.Attempt}
    (succeeds : ∀ envelope job, build envelope = .ok job → job.result = .notPanic (.ok ()))
    (listed : QueueListed given envelope.queue) (due : envelope.id = id → 0 < owed) :
    Complies (dueMonitor given id) (fun _ _ => True) (fun _ => True) owed
      (storage.processPendingJob build envelope) := by
  unfold StorageInternal.processPendingJob
  split
  · rename_i job built
    exact complies_dueRun same job (succeeds envelope job built) listed due
  · refine complies_bind (complies_mono (complies_attempt_keeps (complies_quiet (sends_kill same _)))
      (fun _ _ _ => trivial) fun _ _ => trivial) ?_
    exact fun _ _ (_ : True) => trivial

theorem complies_dueKillEach (same : storage.given = given) (message : String)
    (envelopes : List JobEnvelope) :
    Complies (dueMonitor given id) (fun _ after => after = owed) (fun after => after = owed) owed
      (storage.killEach message envelopes) := by
  induction envelopes with
  | nil => exact (rfl : owed = owed)
  | cons envelope rest ih =>
      refine complies_bind (complies_attempt_keeps (complies_quiet (sends_kill same _))) ?_
      rintro _ after rfl
      exact ih

theorem complies_dueSortOut (same : storage.given = given) (workerName : String)
    (invalid : Nat → Option String) (index : Nat) {envelopes : List JobEnvelope} :
    Complies (dueMonitor given id)
      (fun valid after => after = owed ∧ valid.Sublist envelopes)
      (fun after => after = owed) owed
      (storage.sortOut workerName invalid index envelopes) := by
  induction envelopes generalizing index with
  | nil => exact ⟨rfl, List.Sublist.slnil⟩
  | cons envelope rest ih =>
      unfold StorageInternal.sortOut
      split
      · refine complies_bind (complies_attempt_keeps (complies_quiet (sends_kill same _))) ?_
        rintro _ after rfl
        refine complies_mono (ih (index + 1)) ?_ fun _ kept => kept
        rintro valid later ⟨kept, fewer⟩
        exact ⟨kept, fewer.cons _⟩
      · refine complies_bind (ih (index + 1)) ?_
        rintro valid after ⟨rfl, fewer⟩
        exact ⟨rfl, fewer.cons_cons _⟩

theorem complies_dueBatch (same : storage.given = given)
    {build : String → List Json → Except String BatchBuild}
    (succeeds : ∀ name args built job, build name args = .ok built → built.job = some job →
      job.result = .notPanic (.ok ()))
    {envelopes : List JobEnvelope} (listed : ∀ envelope ∈ envelopes, QueueListed given envelope.queue)
    (due : (envelopes.map JobEnvelope.id).count id ≤ owed) :
    Complies (dueMonitor given id) (fun _ _ => True) (fun _ => True) owed
      (storage.processPendingBatch build envelopes) := by
  cases envelopes with
  | nil => trivial
  | cons first rest =>
      unfold StorageInternal.processPendingBatch
      dsimp only
      split
      · exact complies_mono (complies_dueKillEach same _ _) (fun _ _ _ => trivial)
          fun _ _ => trivial
      · rename_i built builds
        refine complies_bind (complies_mono (complies_dueSortOut same _ _ 0)
          (fun _ _ kept => kept) fun _ _ => trivial) ?_
        rintro valid after ⟨rfl, fewer⟩
        cases runs : built.job with
        | none => trivial
        | some job =>
            refine complies_bind (complies_dueRunBatch same job
              (succeeds _ _ built job builds runs) ?_ ?_) fun _ _ _ => trivial
            · exact fun envelope member => listed envelope (fewer.subset member)
            · exact ((fewer.map JobEnvelope.id).count_le id).trans due

/-! Cron loops. -/

theorem complies_loopEnqueue (same : storage.given = given) (destination : JobDestination)
    (listed : QueueListed given envelope.queue) (single : envelope.metadata.unique = true)
    (skips : envelope.metadata.onConflict = some .skip) :
    Complies (loopMonitor given) (fun _ _ => True) (fun _ => True) absent
      (storage.enqueueWConn envelope destination) := by
  have sends : Complies (loopMonitor given) (fun _ _ => True) (fun _ => True) (some envelope.id)
      (batch (storage.appendEnqueue envelope destination) : Redis Unit) := by
    refine complies_batch_cons (placeable_toText listed) fun _ _ => ?_
    refine complies_batch_cons ?_ fun _ _ => complies_batch_nil trivial
    cases destination with
    | schedule => exact ⟨rfl, rfl⟩
    | queue =>
        refine ⟨?_, le_refl 1, ?_⟩
        · rw [← same] at listed ⊢
          exact listed
        · intro member inside
          rw [List.mem_singleton.mp inside]
          rfl
  have decides : Complies (loopMonitor given)
      (fun action after => action = .skip ∨ action = .default ∧ after = some envelope.id)
      (fun _ => True) absent (StorageInternal.jobEnqueueAction envelope) := by
    unfold StorageInternal.jobEnqueueAction
    rw [single, if_pos rfl, skips]
    refine ⟨trivial, ?_⟩
    intro found _
    cases found with
    | true => exact Or.inl rfl
    | false => exact Or.inr ⟨rfl, rfl⟩
  refine complies_bind decides ?_
  rintro action after (rfl | ⟨rfl, rfl⟩)
  · trivial
  · exact complies_bind sends fun _ _ _ => trivial

theorem complies_loopAt (same : storage.given = given) (now : Int)
    (listed : QueueListed given envelope.queue) (single : envelope.metadata.unique = true)
    (skips : envelope.metadata.onConflict = some .skip) :
    Complies (loopMonitor given) (fun _ _ => True) (fun _ => True) absent
      (storage.enqueueAt now envelope) := by
  unfold StorageInternal.enqueueAt
  split
  · exact complies_loopEnqueue same .queue listed single skips
  · exact complies_loopEnqueue same .schedule listed single skips

theorem complies_loopTicks (same : storage.given = given) (settings : CronSettings)
    (jobName : String) (cronJob : CronJob) (listed : QueueListed given cronJob.queueKey)
    (start : Int) (clock : List Int) (previous : Option Int) (index : Nat) :
    Complies (loopMonitor given) (fun _ _ => True) (fun _ => True) absent
      (storage.cronTicks settings jobName cronJob start clock previous index) := by
  fun_induction StorageInternal.cronTicks storage settings jobName cronJob start clock previous
    index generalizing absent with
  | case1 => trivial
  | case2 => trivial
  | case3 _ _ _ _ _ _ _ ih => exact ih
  | case4 _ _ _ _ _ _ _ _ ih => exact ih
  | case5 now previous index next _ _ _ created checked later ih =>
      refine complies_bind (complies_loopAt same checked listed rfl rfl) fun _ _ _ => ih
  | case6 => trivial

/-! Every thread. -/

def CronDuty.note : CronDuty → CronNote
  | cron _ _ _ _ => .inr (.inr none)
  | promote _ _ => .inl ⟨0, .idle⟩
  | work _ _ => .inr (.inl 0)
  | batch _ _ => .inr (.inl 0)

theorem complies_cronDuty (same : storage.given = given) {duty : CronDuty}
    (ordinary : duty.Ordinary given) :
    Complies (cronMonitor given id storage) (fun _ _ => True) (fun _ => True) duty.note
      (duty.program storage) := by
  cases duty with
  | cron settings jobName cronJob clock =>
      refine complies_inr (complies_inr ?_)
      cases clock with
      | nil => trivial
      | cons now clock => exact complies_loopTicks same settings jobName cronJob ordinary _ _ _ _
  | promote now name =>
      refine complies_inl ?_
      exact complies_bind (complies_enqueueScheduled now name) fun _ _ _ => trivial
  | work queue build =>
      refine complies_inr (complies_inl ?_)
      refine complies_bind (complies_dueTake same ordinary.1) ?_
      intro pending after taken
      cases pending with
      | none => trivial
      | some envelope =>
          refine complies_duePending same ordinary.2 (taken.2 envelope (by simp)) ?_
          intro watched
          have counts := taken.1
          simp [watched] at counts
          omega
  | batch queues build =>
      refine complies_inr (complies_inl ?_)
      refine complies_bind (complies_dueTakes same ordinary.1) ?_
      intro pending after taken
      have counts := taken.1
      exact complies_dueBatch same ordinary.2 taken.2 (by omega)

end Oxana
