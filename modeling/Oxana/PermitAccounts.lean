import Mathlib.Algebra.BigOperators.Group.List.Basic
import Oxana.GracefulShutdown
import Oxana.PlainCommands

/-!
The permits of a queue.  Each permit that a control has given out is with exactly one part
of the run, so the count of a control is the number of jobs on their way from its queue to
the end of their task.
-/

namespace Oxana

open Program

variable {α : Type}

/-! Where the permits are. -/

def QueueDispatcher.permits (index : Nat) (dispatcher : QueueDispatcher) : List Nat :=
  match dispatcher.stage with
  | .popping _ => [index]
  | .sending _ => [index]
  | _ => []

def CoordinatorStage.permits : CoordinatorStage → List Nat
  | .routing job _ => [job.permit]
  | _ => []

def Batching.permits (batching : Batching) : List Nat :=
  batching.batchers.flatMap (fun batcher => batcher.waiting.map PendingJob.permit) ++
    batching.sending.toList.map PendingJob.permit

namespace QueueRun

def dispatcherPermits (dispatchers : List QueueDispatcher) : List Nat :=
  (dispatchers.mapIdx QueueDispatcher.permits).flatMap id

def permits (run : QueueRun) : List Nat :=
  dispatcherPermits run.dispatchers ++ (run.jobs.buffered.map WorkerJob.permit ++
    (run.coordinator.permits ++ (run.batching.permits ++ run.tasks.flatMap WorkerTask.permits)))

theorem count_permits (run : QueueRun) (queue : Nat) : run.permits.count queue =
    (dispatcherPermits run.dispatchers).count queue +
      ((run.jobs.buffered.map WorkerJob.permit).count queue + (run.coordinator.permits.count queue +
        (run.batching.permits.count queue +
          (run.tasks.flatMap WorkerTask.permits).count queue))) := by
  simp only [permits, List.count_append]

theorem count_dispatcherPermits {dispatchers : List QueueDispatcher} {index : Nat}
    {old : QueueDispatcher} (new : QueueDispatcher) (found : dispatchers[index]? = some old)
    (queue : Nat) :
    (dispatcherPermits (dispatchers.set index new)).count queue +
        (old.permits index).count queue =
      (dispatcherPermits dispatchers).count queue + (new.permits index).count queue := by
  have located : (dispatchers.mapIdx QueueDispatcher.permits)[index]? =
      some (old.permits index) := by
    rw [List.getElem?_mapIdx, found]
    rfl
  unfold dispatcherPermits
  rw [List.mapIdx_set]
  exact count_flatMap_set id (new.permits index) located queue

end QueueRun

/-! The counts of the controls. -/

def activeOf (controls : List QueueControl) (queue : Nat) : Nat :=
  (controls[queue]?.map QueueControl.active).getD 0

section Counts

variable {controls : List QueueControl} {queue index : Nat}

theorem activeOf_acquire {control : QueueControl} (found : controls[index]? = some control)
    (queue : Nat) :
    activeOf (controls.set index { control with active := control.active + 1 }) queue =
      activeOf controls queue + [index].count queue := by
  have inside := (List.getElem?_eq_some_iff.mp found).1
  unfold activeOf
  by_cases same : queue = index
  · rw [same, List.getElem?_set_self inside, found, List.count_singleton_self]
    rfl
  · rw [List.getElem?_set_ne (Ne.symm same), List.count_eq_zero.mpr (by simpa using same)]
    rfl

theorem activeOf_release (controls : List QueueControl) (permit queue : Nat) :
    activeOf (controls.modify permit QueueControl.release) queue =
      activeOf controls queue - [permit].count queue := by
  unfold activeOf
  by_cases same : queue = permit
  · rw [same, List.getElem?_modify_eq, List.count_singleton_self]
    cases controls[permit]? <;> rfl
  · rw [List.getElem?_modify_ne _ _ (Ne.symm same),
      List.count_eq_zero.mpr (by simpa using same)]
    rfl

theorem activeOf_applyConfig (controls : List QueueControl) (index queue : Nat)
    (config : QueueRuntimeConfig) :
    activeOf (controls.modify index fun control => control.applyConfig config) queue =
      activeOf controls queue := by
  unfold activeOf
  by_cases same : queue = index
  · rw [same, List.getElem?_modify_eq]
    cases controls[index]? <;> rfl
  · rw [List.getElem?_modify_ne _ _ (Ne.symm same)]

theorem activeOf_discover (controls : List QueueControl) (config : QueueRuntimeConfig)
    (queue : Nat) : activeOf (controls ++ [.new config]) queue = activeOf controls queue := by
  unfold activeOf
  rw [List.getElem?_append]
  split
  · rfl
  · rename_i beyond
    rw [List.getElem?_eq_none (Nat.le_of_not_lt beyond)]
    cases queue - controls.length <;> rfl

end Counts

/-! Calls and what they hold. -/

def AnyPlain : Command → Prop := Command.Plain fun _ => True

def PopsOnce : Redis α → Prop
  | .call (.lmove _ _) next => ∀ reply, (next reply).Sends AnyPlain
  | .call command next => AnyPlain command ∧ ∀ reply, PopsOnce (next reply)
  | _ => True

theorem popsOnce_pop (storage : StorageInternal) (queueKey : String)
    (throttler : Option ThrottlerCalls) :
    PopsOnce (storage.popQueueMessage queueKey throttler) := by
  cases throttler with
  | none =>
      intro reply
      cases reply <;> trivial
  | some calls =>
      unfold StorageInternal.popQueueMessage StorageInternal.popQueueMessageWThrottle
      dsimp only
      cases calls.state with
      | error error => trivial
      | ok state =>
          change PopsOnce (if _ then _ else _)
          split
          · intro reply
            cases reply with
            | error error => trivial
            | ok next =>
                cases next with
                | none => trivial
                | some jobId =>
                    change (StorageInternal.getJob jobId >>= _).Sends AnyPlain
                    refine sends_bind (StorageInternal.plain_getJob jobId) ?_
                    intro envelope
                    exact sends_bind (sends_ofExcept _) fun _ => trivial
          · trivial

theorem length_heldAfter {command : Command} (plain : AnyPlain command) (held : List JobId)
    (reply : command.Reply) : (heldAfter held command reply).length ≤ held.length := by
  cases command with
  | lrem key count member => exact List.length_erase_le
  | lmove source destination => exact False.elim plain
  | _ => exact Nat.le_refl _

def QueueDispatcher.Fits (dispatcher : QueueDispatcher) : Prop :=
  ∀ pop, dispatcher.stage = .popping pop → pop.held = [] ∧ PopsOnce pop.program ∨
    pop.held.length ≤ 1 ∧ pop.program.Sends AnyPlain

def CoordinatorStage.Fits (stage : CoordinatorStage) : Prop :=
  ∀ job load, stage = .routing job load →
    load.held.length ≤ 1 ∧ load.program.Sends AnyPlain

def WorkerTask.Fits (task : WorkerTask) : Prop :=
  task.running.held.length ≤ task.permits.length ∧ task.running.program.Sends AnyPlain

/-! The invariant. -/

structure PermitSound (batchConfig : String → Option WorkerBatchConfig) (run : QueueRun) :
    Prop where
  batching : BatchingSound batchConfig run.batching
  dispatchers : ∀ dispatcher ∈ run.dispatchers, dispatcher.Fits
  coordinator : run.coordinator.Fits
  tasks : ∀ task ∈ run.tasks, task.Fits
  accounted : ∀ queue, activeOf run.controls queue = run.permits.count queue

theorem forall_set {items : List α} {property : α → Prop} {index : Nat} {new : α}
    (all : ∀ item ∈ items, property item) (holds : property new) :
    ∀ item ∈ items.set index new, property item := by
  intro item member
  rcases List.mem_or_eq_of_mem_set member with earlier | rfl
  · exact all item earlier
  · exact holds

theorem forall_concat {items : List α} {property : α → Prop} {new : α}
    (all : ∀ item ∈ items, property item) (holds : property new) :
    ∀ item ∈ items ++ [new], property item := by
  intro item member
  rcases List.mem_append.mp member with earlier | last
  · exact all item earlier
  · rw [List.mem_singleton.mp last]
    exact holds

section Steps

variable {storage : StorageInternal} {batchConfig : String → Option WorkerBatchConfig}
  {run next : QueueRun} {event : QueueEvent}

theorem QueueStep.batched (step : QueueStep storage batchConfig run event next) :
    next.batching = run.batching ∨ BatchingStep batchConfig run.batching next.batching := by
  cases step with
  | routeBatch routing loaded ready batched => exact .inr (.pass _ ready batched)
  | spawnBatcher sending batched vacant => exact .inr (.spawnBatcher sending batched vacant)
  | accept sending occupied found sent => exact .inr (.accept sending occupied found sent)
  | refuse sending occupied found refused => exact .inr (.refuse sending occupied found refused)
  | batcher index event registry found cancelled stepped =>
      exact .inr (.batcher index event found cancelled stepped)
  | cancel => exact .inr .cancel
  | leave selecting ready cancelled => exact .inr (.dropBatchers ready)
  | _ => exact .inl rfl

/-! What a step does to the parts. -/

theorem fits_acquiring (queueKey : String) : (⟨queueKey, .acquiring⟩ : QueueDispatcher).Fits := by
  rintro _ ⟨⟩

theorem fits_advance {pop : Running (Option JobId)} {command : Command}
    {later : Except OxanaError command.Reply → Redis (Option JobId)}
    (fits : pop.held = [] ∧ PopsOnce pop.program ∨
      pop.held.length ≤ 1 ∧ pop.program.Sends AnyPlain)
    (sends : pop.program = .call command later) (store : Store) :
    (pop.advance command later store).held = [] ∧
        PopsOnce (pop.advance command later store).program ∨
      (pop.advance command later store).held.length ≤ 1 ∧
        (pop.advance command later store).program.Sends AnyPlain := by
  rw [sends] at fits
  rcases fits with ⟨none_held, once⟩ | ⟨few, plain⟩
  · change heldAfter pop.held command _ = [] ∧ _ ∨ (heldAfter pop.held command _).length ≤ 1 ∧ _
    rw [none_held]
    cases command with
    | lmove source destination =>
        refine .inr ⟨?_, once _⟩
        change (Option.toList _ ++ []).length ≤ 1
        rw [List.append_nil]
        exact Option.length_toList_le
    | _ => exact .inl ⟨rfl, once.2 _⟩
  · have less := length_heldAfter plain.1 pop.held (serve command store).1
    exact .inr ⟨Nat.le_trans less few, plain.2 _⟩

theorem QueueStep.fits_dispatchers (step : QueueStep storage batchConfig run event next)
    (fits : ∀ dispatcher ∈ run.dispatchers, dispatcher.Fits) :
    ∀ dispatcher ∈ next.dispatchers, dispatcher.Fits := by
  cases step with
  | discover queueKey config watching => exact forall_concat fits (fits_acquiring queueKey)
  | @acquire index queueKey control granted throttler answers found free acquired =>
      refine forall_set fits ?_
      rintro _ ⟨⟩
      exact .inl ⟨rfl, popsOnce_pop storage queueKey throttler⟩
  | @pop index queueKey pop command later found sends =>
      refine forall_set fits ?_
      rintro _ ⟨⟩
      exact fits_advance (fits _ (List.mem_of_getElem? found) pop rfl) sends run.store
  | stopAcquiring found cancelled => exact forall_set fits (by rintro _ ⟨⟩)
  | popped found ended => exact forall_set fits (by rintro _ ⟨⟩)
  | nothing found ended => exact forall_set fits (by rintro _ ⟨⟩)
  | stop found cancelled sent last => exact forall_set fits (by rintro _ ⟨⟩)
  | send found sent => exact forall_set fits (by rintro _ ⟨⟩)
  | _ => exact fits

theorem QueueStep.fits_coordinator (step : QueueStep storage batchConfig run event next)
    (fits : run.coordinator.Fits) : next.coordinator.Fits := by
  cases step with
  | @receive job jobs connected selecting ready received =>
      rintro _ _ ⟨⟩
      exact ⟨Nat.le_refl 1, StorageInternal.plain_loadPendingJob trivial job.jobId⟩
  | @load job load command later routing sends =>
      obtain ⟨few, plain⟩ := fits job load routing
      rw [sends] at plain
      rintro _ _ ⟨⟩
      exact ⟨Nat.le_trans (length_heldAfter plain.1 load.held _) few, plain.2 _⟩
  | routeSingle build routing loaded single => rintro _ _ ⟨⟩
  | routeBatch routing loaded ready batched => rintro _ _ ⟨⟩
  | routeMissing routing loaded => rintro _ _ ⟨⟩
  | leave selecting ready cancelled => rintro _ _ ⟨⟩
  | finished waiting idle => rintro _ _ ⟨⟩
  | shutdownTimeout waiting => rintro _ _ ⟨⟩
  | join joining watched worked batched => rintro _ _ ⟨⟩
  | _ => exact fits

theorem fits_batch (registry : String → Option BatchWorker) (jobs : List PendingJob) :
    (WorkerTask.batch storage registry jobs).Fits := by
  refine ⟨?_, StorageInternal.plain_processPendingBatch trivial _ _⟩
  change (jobs.map _).length ≤ (jobs.map _).length
  rw [List.length_map, List.length_map]

theorem QueueStep.fits_tasks (step : QueueStep storage batchConfig run event next)
    (fits : ∀ task ∈ run.tasks, task.Fits) : ∀ task ∈ next.tasks, task.Fits := by
  cases step with
  | routeSingle build routing loaded single =>
      exact forall_concat fits
        ⟨Nat.le_refl 1, StorageInternal.plain_processPendingJob trivial build _⟩
  | batcher index event registry found cancelled stepped =>
      intro task member
      rcases List.mem_append.mp member with earlier | fresh
      · exact fits task earlier
      · obtain ⟨jobs, _, rfl⟩ := List.mem_map.mp fresh
        exact fits_batch registry jobs
  | @work index task command later found sends =>
      obtain ⟨few, plain⟩ := fits task (List.mem_of_getElem? found)
      rw [sends] at plain
      exact forall_set fits
        ⟨Nat.le_trans (length_heldAfter plain.1 task.running.held _) few, plain.2 _⟩
  | @finish index permit task found owned free =>
      obtain ⟨_, plain⟩ := fits task (List.mem_of_getElem? found)
      refine forall_set fits ⟨?_, plain⟩
      change task.running.held.length ≤ (task.permits.erase permit).length
      rw [List.length_erase_of_mem owned]
      omega
  | _ => exact fits

/-! What a step does to the accounts. -/

theorem PermitSound.redispatch (sound : PermitSound batchConfig run) {index : Nat}
    {old : QueueDispatcher} (new : QueueDispatcher) (found : run.dispatchers[index]? = some old)
    (same : new.permits index = old.permits index) (queue : Nat) :
    activeOf run.controls queue =
      (QueueRun.permits { run with dispatchers := run.dispatchers.set index new }).count queue := by
  have before := sound.accounted queue
  have changed := QueueRun.count_dispatcherPermits new found queue
  rw [QueueRun.count_permits] at before ⊢
  rw [same] at changed
  dsimp only at changed ⊢
  omega

theorem PermitSound.giveBack (sound : PermitSound batchConfig run) {permit : Nat}
    {permits : List Nat} (queue : Nat)
    (less : permits.count queue + [permit].count queue = run.permits.count queue) :
    activeOf (run.release permit) queue = permits.count queue := by
  have before := sound.accounted queue
  unfold QueueRun.release
  rw [activeOf_release, before, ← less]
  omega

theorem PermitSound.withdraw (sound : PermitSound batchConfig run) {index : Nat}
    {queueKey : String} {pop : Running (Option JobId)} (new : QueueDispatcher)
    (found : run.dispatchers[index]? = some ⟨queueKey, .popping pop⟩)
    (none_left : new.permits index = []) (queue : Nat) :
    activeOf (run.release index) queue =
      (QueueRun.permits { run with dispatchers := run.dispatchers.set index new }).count queue := by
  refine sound.giveBack queue ?_
  have changed := QueueRun.count_dispatcherPermits new found queue
  rw [none_left] at changed
  change _ + [index].count queue = _ + 0 at changed
  rw [QueueRun.count_permits, QueueRun.count_permits]
  dsimp only at changed ⊢
  omega

theorem PermitSound.acquire (sound : PermitSound batchConfig run) {index : Nat}
    {queueKey : String} {control granted : QueueControl} (pop : Running (Option JobId))
    (found : run.dispatchers[index]? = some ⟨queueKey, .acquiring⟩)
    (free : run.controls[index]? = some control) (acquired : control.acquire = some granted)
    (queue : Nat) :
    activeOf (run.controls.set index granted) queue =
      (QueueRun.permits { run with
        dispatchers := run.dispatchers.set index ⟨queueKey, .popping pop⟩ }).count queue := by
  obtain ⟨_, rfl⟩ := QueueControl.acquire_eq_some acquired
  have before := sound.accounted queue
  have changed := QueueRun.count_dispatcherPermits
    (⟨queueKey, .popping pop⟩ : QueueDispatcher) found queue
  change _ + 0 = _ + [index].count queue at changed
  rw [QueueRun.count_permits] at before ⊢
  rw [activeOf_acquire free]
  dsimp only at changed ⊢
  omega

theorem PermitSound.send (sound : PermitSound batchConfig run) {index : Nat}
    {queueKey : String} {jobId : JobId} {jobs : MpscChannel WorkerJob}
    (found : run.dispatchers[index]? = some ⟨queueKey, .sending jobId⟩)
    (sent : run.jobs.send ⟨jobId, index⟩ = .sent jobs) (queue : Nat) :
    activeOf run.controls queue =
      (QueueRun.permits { run with
        dispatchers := run.dispatchers.set index ⟨queueKey, .acquiring⟩
        jobs := jobs }).count queue := by
  obtain ⟨_, _, buffered, _, _⟩ := MpscChannel.send_sent sent
  have before := sound.accounted queue
  have changed := QueueRun.count_dispatcherPermits
    (⟨queueKey, .acquiring⟩ : QueueDispatcher) found queue
  change _ + [index].count queue = _ + 0 at changed
  rw [QueueRun.count_permits] at before ⊢
  dsimp only at changed ⊢
  rw [buffered, List.map_append, List.count_append]
  change _ = _ + (_ + [index].count queue + _)
  omega

theorem PermitSound.regroup (sound : PermitSound batchConfig run) {jobs : MpscChannel WorkerJob}
    {stage : CoordinatorStage} {batching : Batching} {tasks : List WorkerTask} (queue : Nat)
    (same : (jobs.buffered.map WorkerJob.permit).count queue + (stage.permits.count queue +
        (batching.permits.count queue + (tasks.flatMap WorkerTask.permits).count queue)) =
      (run.jobs.buffered.map WorkerJob.permit).count queue + (run.coordinator.permits.count queue +
        (run.batching.permits.count queue +
          (run.tasks.flatMap WorkerTask.permits).count queue))) :
    activeOf run.controls queue =
      (QueueRun.permits { run with
        jobs := jobs
        coordinator := stage
        batching := batching
        tasks := tasks }).count queue := by
  have before := sound.accounted queue
  rw [QueueRun.count_permits] at before ⊢
  dsimp only
  omega

theorem permits_accept {batching : Batching} {job : PendingJob} {index : Nat}
    {batcher : Batcher} {tx : MpscChannel PendingJob} (sending : batching.sending = some job)
    (found : batching.batchers[index]? = some batcher) (sent : batcher.rx.send job = .sent tx)
    (queue : Nat) :
    (Batching.permits { batching with
      batchers := batching.batchers.set index { batcher with rx := tx }
      sending := none }).count queue = batching.permits.count queue := by
  obtain ⟨_, _, buffered, _, _⟩ := MpscChannel.send_sent sent
  have changed := count_flatMap_set (fun batcher : Batcher => batcher.waiting.map PendingJob.permit)
    { batcher with rx := tx } found queue
  have grown : ({ batcher with rx := tx } : Batcher).waiting = batcher.waiting ++ [job] := by
    change batcher.pending ++ tx.buffered = _
    rw [buffered, ← List.append_assoc]
    rfl
  unfold Batching.permits
  rw [sending, List.count_append, List.count_append]
  rw [grown, List.map_append, List.count_append] at changed
  change _ = _ + (_ + [job.permit].count queue) at changed
  change _ + 0 = _ + [job.permit].count queue
  dsimp only at changed ⊢
  omega

theorem permits_batch (storage : StorageInternal) (registry : String → Option BatchWorker)
    (batches : List (List PendingJob)) :
    (batches.map (WorkerTask.batch storage registry)).flatMap WorkerTask.permits =
      batches.flatten.map PendingJob.permit := by
  induction batches with
  | nil => rfl
  | cons batch rest ih =>
      rw [List.map_cons, List.flatMap_cons, List.flatten_cons, List.map_append, ih]
      rfl

theorem PermitSound.batcher (sound : PermitSound batchConfig run) {before after : Batcher}
    {index : Nat} {event : BatcherEvent} (registry : String → Option BatchWorker)
    (found : run.batching.batchers[index]? = some before)
    (stepped : before.step (run.batching.connected index) event = some after) (queue : Nat) :
    activeOf run.controls queue =
      (QueueRun.permits { run with
        batching := { run.batching with batchers := run.batching.batchers.set index after }
        tasks := run.tasks ++
          (after.spawned.drop before.spawned.length).map (.batch storage registry) }).count
        queue := by
  have own := sound.batching.batchers before (List.mem_of_getElem? found)
  have split := own.waiting_step stepped
  refine sound.regroup queue ?_
  rw [List.flatMap_append, List.count_append, permits_batch]
  have changed := count_flatMap_set (fun batcher : Batcher => batcher.waiting.map PendingJob.permit)
    after found queue
  rw [split, List.map_append, List.count_append] at changed
  unfold Batching.permits
  rw [List.count_append, List.count_append]
  dsimp only at changed ⊢
  omega

theorem PermitSound.finish (sound : PermitSound batchConfig run) {index permit : Nat}
    {task : WorkerTask} (found : run.tasks[index]? = some task) (owned : permit ∈ task.permits)
    (queue : Nat) :
    activeOf (run.release permit) queue =
      (QueueRun.permits { run with
        tasks := run.tasks.set index { task with permits := task.permits.erase permit } }).count
        queue := by
  refine sound.giveBack queue ?_
  have changed := count_flatMap_set WorkerTask.permits
    { task with permits := task.permits.erase permit } found queue
  have split : task.permits.count queue =
      [permit].count queue + (task.permits.erase permit).count queue := by
    rw [(List.perm_cons_erase owned).count_eq queue, ← List.count_append]
    rfl
  rw [QueueRun.count_permits, QueueRun.count_permits]
  dsimp only at changed ⊢
  omega

theorem PermitSound.discover (sound : PermitSound batchConfig run) (queueKey : String)
    (config : QueueRuntimeConfig) (queue : Nat) :
    activeOf (run.controls ++ [.new config]) queue =
      (QueueRun.permits { run with
        controls := run.controls ++ [.new config]
        dispatchers := run.dispatchers ++ [⟨queueKey, .acquiring⟩] }).count queue := by
  have before := sound.accounted queue
  have same : QueueRun.dispatcherPermits (run.dispatchers ++ [⟨queueKey, .acquiring⟩]) =
      QueueRun.dispatcherPermits run.dispatchers := by
    unfold QueueRun.dispatcherPermits
    rw [List.mapIdx_concat, List.flatMap_append]
    exact List.append_nil _
  rw [QueueRun.count_permits] at before ⊢
  dsimp only
  rw [activeOf_discover, same]
  exact before

section Routing

variable {job : WorkerJob} {loading : Running (Option JobEnvelope)}

theorem PermitSound.receive (sound : PermitSound batchConfig run)
    {jobs : MpscChannel WorkerJob} {connected : Bool} (selecting : run.coordinator = .selecting)
    (received : run.jobs.recv connected = .message job jobs) (queue : Nat) :
    activeOf run.controls queue =
      (QueueRun.permits { run with
        jobs := jobs
        coordinator := .routing job loading }).count queue := by
  obtain ⟨buffered, _⟩ := MpscChannel.recv_message received
  refine sound.regroup queue ?_
  rw [selecting, buffered, List.map_cons, List.count_cons]
  change _ + ([job.permit].count queue + _) = _ + (0 + _)
  rw [List.count_singleton]
  omega

theorem PermitSound.routeSingle (sound : PermitSound batchConfig run)
    (routing : run.coordinator = .routing job loading) (envelope : JobEnvelope)
    (build : JobEnvelope → Except String StorageInternal.Attempt) (queue : Nat) :
    activeOf run.controls queue =
      (QueueRun.permits { run with
        coordinator := .selecting
        tasks := run.tasks ++ [.single storage build ⟨envelope, job.permit⟩] }).count queue := by
  refine sound.regroup queue ?_
  rw [routing, List.flatMap_append, List.count_append]
  change _ + (0 + (_ + (_ + [job.permit].count queue))) = _ + ([job.permit].count queue + _)
  omega

theorem PermitSound.routeBatch (sound : PermitSound batchConfig run)
    (routing : run.coordinator = .routing job loading) (envelope : JobEnvelope)
    (ready : run.batching.sending = none) (queue : Nat) :
    activeOf run.controls queue =
      (QueueRun.permits { run with
        coordinator := .selecting
        batching := { run.batching with
          sending := some ⟨envelope, job.permit⟩
          passed := run.batching.passed ++ [⟨envelope, job.permit⟩] } }).count queue := by
  refine sound.regroup queue ?_
  unfold Batching.permits
  rw [routing, ready, List.count_append, List.count_append]
  change _ + (0 + (_ + [job.permit].count queue + _)) =
    _ + ([job.permit].count queue + (_ + 0 + _))
  dsimp only
  omega

theorem PermitSound.routeMissing (sound : PermitSound batchConfig run)
    (routing : run.coordinator = .routing job loading) (queue : Nat) :
    activeOf (run.release job.permit) queue =
      (QueueRun.permits { run with coordinator := .selecting }).count queue := by
  refine sound.giveBack queue ?_
  rw [QueueRun.count_permits, QueueRun.count_permits, routing]
  change _ + (_ + (0 + _)) + [job.permit].count queue = _ + (_ + ([job.permit].count queue + _))
  dsimp only
  omega

theorem PermitSound.restage (sound : PermitSound batchConfig run) {stage : CoordinatorStage}
    {batching : Batching} (routed : run.coordinator.permits = stage.permits)
    (waiting : batching.permits = run.batching.permits) (queue : Nat) :
    activeOf run.controls queue =
      (QueueRun.permits { run with coordinator := stage, batching := batching }).count queue := by
  refine sound.regroup queue ?_
  rw [routed, waiting]

end Routing

theorem PermitSound.work (sound : PermitSound batchConfig run) {index : Nat} {task : WorkerTask}
    (found : run.tasks[index]? = some task) (running : Running Unit) (queue : Nat) :
    activeOf run.controls queue =
      (QueueRun.permits { run with
        tasks := run.tasks.set index { task with running := running } }).count queue := by
  have changed := count_flatMap_set WorkerTask.permits { task with running := running } found queue
  refine sound.regroup queue ?_
  dsimp only at changed ⊢
  omega

theorem PermitSound.accounts (sound : PermitSound batchConfig run)
    (step : QueueStep storage batchConfig run event next) (queue : Nat) :
    activeOf next.controls queue = next.permits.count queue := by
  have before := sound.accounted queue
  cases step with
  | discover queueKey config watching => exact sound.discover queueKey config queue
  | applyConfig index config =>
      dsimp only
      rw [activeOf_applyConfig]
      exact before
  | acquire throttler answers found free acquired =>
      exact sound.acquire _ found free acquired queue
  | @stopAcquiring index queueKey found cancelled =>
      exact sound.redispatch ⟨queueKey, .stopped⟩ found rfl queue
  | @pop index queueKey pop command later found sends =>
      exact sound.redispatch ⟨queueKey, .popping (pop.advance command later run.store)⟩ found rfl
        queue
  | @popped index queueKey pop jobId found ended =>
      exact sound.redispatch ⟨queueKey, .sending jobId⟩ found rfl queue
  | @nothing index queueKey pop found ended =>
      exact sound.withdraw ⟨queueKey, .acquiring⟩ found rfl queue
  | @stop index queueKey pop found cancelled sent last =>
      exact sound.withdraw ⟨queueKey, .stopped⟩ found rfl queue
  | send found sent => exact sound.send found sent queue
  | receive selecting ready received => exact sound.receive selecting received queue
  | load routing sends => exact sound.restage (by rw [routing]; rfl) rfl queue
  | @routeSingle job loading envelope build routing loaded single =>
      exact sound.routeSingle routing envelope build queue
  | @routeBatch job loading envelope config routing loaded ready batched =>
      exact sound.routeBatch routing envelope ready queue
  | routeMissing routing loaded => exact sound.routeMissing routing queue
  | spawnBatcher sending batched vacant =>
      refine sound.regroup queue ?_
      unfold Batching.permits
      rw [List.flatMap_append, List.count_append, List.count_append, List.count_append]
      rfl
  | accept sending occupied found sent =>
      refine sound.regroup queue ?_
      rw [permits_accept sending found sent]
  | refuse sending occupied found refused =>
      obtain ⟨rfl, _⟩ := MpscChannel.send_refused refused
      refine sound.regroup queue ?_
      unfold Batching.permits
      rw [sending]
  | batcher index event registry found cancelled stepped =>
      exact sound.batcher registry found stepped queue
  | work found sends => exact sound.work found _ queue
  | finish found owned free => exact sound.finish found owned queue
  | leave selecting ready cancelled => exact sound.restage (by rw [selecting]; rfl) rfl queue
  | finished waiting idle => exact sound.restage (by rw [waiting]; rfl) rfl queue
  | shutdownTimeout waiting => exact sound.restage (by rw [waiting]; rfl) rfl queue
  | join joining watched worked batched =>
      exact sound.restage (by rw [joining]) rfl queue
  | _ => exact before

theorem PermitSound.step (sound : PermitSound batchConfig run)
    (step : QueueStep storage batchConfig run event next) : PermitSound batchConfig next where
  batching := by
    rcases step.batched with same | moved
    · rw [same]
      exact sound.batching
    · exact sound.batching.step moved
  dispatchers := step.fits_dispatchers sound.dispatchers
  coordinator := step.fits_coordinator sound.coordinator
  tasks := step.fits_tasks sound.tasks
  accounted := sound.accounts step

theorem PermitSound.reached {allowed : QueueRun → QueueEvent → Prop}
    (sound : PermitSound batchConfig run)
    (reaches : QueueReaches storage batchConfig allowed run next) :
    PermitSound batchConfig next := by
  induction reaches with
  | refl => exact sound
  | tail _ step ih =>
      obtain ⟨event, _, stepped⟩ := step
      exact ih.step stepped

end Steps

/-! Permits and jobs. -/

theorem length_flatMap_le {items : List α} {β γ : Type} {few : α → List β} {many : α → List γ}
    (less : ∀ item ∈ items, (few item).length ≤ (many item).length) :
    (items.flatMap few).length ≤ (items.flatMap many).length := by
  induction items with
  | nil => exact Nat.le_refl 0
  | cons item rest ih =>
      have first := less item List.mem_cons_self
      have later := ih fun other member => less other (List.mem_cons_of_mem item member)
      rw [List.flatMap_cons, List.flatMap_cons, List.length_append, List.length_append]
      omega

theorem QueueDispatcher.length_permits (dispatcher : QueueDispatcher) (index other : Nat) :
    (dispatcher.permits index).length = (dispatcher.permits other).length := by
  unfold permits
  split <;> rfl

theorem QueueDispatcher.Fits.held {dispatcher : QueueDispatcher} (fits : dispatcher.Fits) :
    dispatcher.held.length ≤ (dispatcher.permits 0).length := by
  obtain ⟨queueKey, stage⟩ := dispatcher
  cases stage with
  | acquiring => exact Nat.le_refl 0
  | popping pop =>
      rcases fits pop rfl with ⟨none_held, _⟩ | ⟨few, _⟩
      · change pop.held.length ≤ 1
        rw [none_held]
        exact Nat.zero_le 1
      · exact few
  | sending jobId => exact Nat.le_refl 1
  | stopped => exact Nat.le_refl 0

theorem length_dispatcherPermits (dispatchers : List QueueDispatcher) :
    (QueueRun.dispatcherPermits dispatchers).length =
      (dispatchers.flatMap (QueueDispatcher.permits 0)).length := by
  have lengths : (dispatchers.mapIdx QueueDispatcher.permits).map List.length =
      dispatchers.map fun dispatcher => (dispatcher.permits 0).length := by
    refine List.ext_getElem? ?_
    intro index
    rw [List.getElem?_map, List.getElem?_mapIdx, List.getElem?_map]
    cases dispatchers[index]? with
    | none => rfl
    | some dispatcher => exact congrArg some (dispatcher.length_permits index 0)
  unfold QueueRun.dispatcherPermits
  rw [List.length_flatMap, List.length_flatMap, ← lengths]
  rfl

theorem PermitSound.held {batchConfig : String → Option WorkerBatchConfig} {run : QueueRun}
    (sound : PermitSound batchConfig run) : run.held.length ≤ run.permits.length := by
  have dispatching : (run.dispatchers.flatMap QueueDispatcher.held).length ≤
      (QueueRun.dispatcherPermits run.dispatchers).length := by
    rw [length_dispatcherPermits]
    exact length_flatMap_le fun dispatcher member => (sound.dispatchers dispatcher member).held
  have routing : run.coordinator.held.length ≤ run.coordinator.permits.length := by
    cases stage : run.coordinator with
    | routing job load => exact (sound.coordinator job load stage).1
    | _ => exact Nat.le_refl 0
  have waiting : run.batching.waiting.length = run.batching.permits.length := by
    unfold Batching.waiting Batching.permits
    simp only [List.length_append, List.length_flatMap, List.length_map]
  have working : (run.tasks.flatMap fun task => task.running.held).length ≤
      (run.tasks.flatMap WorkerTask.permits).length :=
    length_flatMap_le fun task member => (sound.tasks task member).1
  unfold QueueRun.held QueueRun.permits
  simp only [List.length_append, List.length_map] at *
  omega

section Runs

variable {storage : StorageInternal} {batchConfig : String → Option WorkerBatchConfig}
  {concurrency : QueueConcurrency} {store : Store} {run : QueueRun}

end Runs

end Oxana
