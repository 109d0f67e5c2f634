import Oxana.CoordinatorCore
import Oxana.Footprints

/-!
What is left in the processing list when `coordinator::run` returns.  Every id of the list is
held by some part of the run, and every id that a pop has moved is carried by one or is
settled.
-/

namespace Oxana

open Program

variable {α : Type}

/-! The condition. -/

def movesJob (store : Store) : Command → Prop
  | .lmove source _ => store.lists.get source ≠ []
  | _ => False

namespace Running

def Decodes (running : Running α) (store : Store) : Prop :=
  ∀ field next, running.program = .call (.hget field) next → running.started = false →
    ∀ text, store.jobs.get field = some text →
      ∃ envelope, text = .json envelope ∧ envelope.id = field

def Moves (running : Running α) (store : Store) : Prop :=
  ∃ command next, running.program = .call command next ∧ movesJob store command

end Running

/-- A call that has moved a job is not dropped, the loop is left when no job is on its way
to it, and no job is moved afterwards. -/
def Orderly (run : QueueRun) : QueueEvent → Prop
  | .pop index => ∀ queueKey pop, run.dispatchers[index]? = some ⟨queueKey, .popping pop⟩ →
      pop.Decodes run.store ∧ (run.coordinator.left = true → ¬pop.Moves run.store)
  | .stop index => ∀ queueKey pop, run.dispatchers[index]? = some ⟨queueKey, .popping pop⟩ →
      pop.held = []
  | .settle command => ¬movesJob run.store command
  | .load => ∀ job load, run.coordinator = .routing job load → load.Decodes run.store
  | .work index => ∀ task, run.tasks[index]? = some task → task.running.Decodes run.store
  | .leave => run.jobs.buffered = [] ∧ ∀ dispatcher ∈ run.dispatchers, dispatcher.held = []
  | .quiet => True

/-! Counting. -/

theorem count_flatMap_set {α β : Type} [DecidableEq β] (content : α → List β) {items : List α}
    {index : Nat} {old : α} (new : α) (found : items[index]? = some old) (value : β) :
    ((items.set index new).flatMap content).count value + (content old).count value =
      (items.flatMap content).count value + (content new).count value := by
  induction items generalizing index with
  | nil => cases found
  | cons item rest ih =>
      cases index with
      | zero =>
          cases found
          simp only [List.set_cons_zero, List.flatMap_cons, List.count_append]
          omega
      | succ index =>
          have later := ih found
          simp only [List.set_cons_succ, List.flatMap_cons, List.count_append]
          omega

theorem eq_nil_of_count {β : Type} [DecidableEq β] {items : List β}
    (none : ∀ value, items.count value = 0) : items = [] := by
  rw [List.eq_nil_iff_forall_not_mem]
  intro value
  exact List.count_eq_zero.mp (none value)

/-! Calls. -/

section Calls

variable {own : String} {id : JobId} {running : Running α} {command : Command}
  {next : Except OxanaError command.Reply → Redis α} {store : Store}
  {returns : JobId → α → Nat → Prop} {fails : Prop}

theorem records_heldAfter (held : List JobId) (started : Bool) (reply : command.Reply) :
    strandRecords id ⟨held.count id, started⟩ command reply =
      ⟨(heldAfter held command reply).count id, started || isExecute command⟩ := by
  cases command with
  | lmove source destination =>
      cases reply with
      | none => simp [strandRecords, heldAfter, isExecute]
      | some popped =>
          simp only [strandRecords, heldAfter, isExecute, Option.toList_some, List.singleton_append,
            List.count_cons, Option.some.injEq, beq_iff_eq, Bool.or_false]
  | lrem key count member =>
      simp only [strandRecords, strandRemoves, heldAfter, isExecute, List.count_erase, beq_iff_eq,
        Bool.or_false]
  | execute envelope => simp [strandRecords, heldAfter, isExecute]
  | _ => simp [strandRecords, heldAfter, isExecute]

/-- The call keeps to what it holds, and ends as `returns` says. -/
def Running.Sound (own : String) (returns : JobId → α → Nat → Prop) (fails : Prop)
    (running : Running α) : Prop :=
  ∀ id, Withstands (strandMonitor own id) (fun value after => returns id value after.held)
    (fun _ => fails) ⟨running.held.count id, running.started⟩ running.program

theorem Running.Sound.allowed (sound : running.Sound own returns fails)
    (sends : running.program = .call command next) : strandAllows own command := by
  have complies := sound ""
  rw [sends] at complies
  exact complies.1

theorem Running.Sound.advance (sound : running.Sound own returns fails)
    (sends : running.program = .call command next) (decodes : running.Decodes store) :
    (running.advance command next store).Sound own returns fails := by
  intro id
  have complies := sound id
  rw [sends] at complies
  have expected : strandExpects ⟨running.held.count id, running.started⟩ command
      (serve command store).1 := by
    cases command with
    | hget field =>
        intro fresh text found
        exact decodes field next sends fresh text found
    | _ => trivial
  have later := complies.2.1 (serve command store).1 expected
  change Withstands _ _ _ (strandRecords id _ command _) _ at later
  rw [records_heldAfter] at later
  exact later

theorem Running.Sound.ended (sound : running.Sound own returns fails) {value : α}
    (ended : running.program = .done value) (id : JobId) :
    returns id value (running.held.count id) := by
  have complies := sound id
  rw [ended] at complies
  exact complies

/-- A command of one call keeps the ids of the list within those that are held. -/
theorem listed_serve {total after : Nat} (held : List JobId)
    (allowed : strandAllows own command)
    (before : (store.lists.get own).count id ≤ total)
    (change : after + held.count id =
      total + (heldAfter held command (serve command store).1).count id) :
    ((serve command store).2.lists.get own).count id ≤ after := by
  have recorded := @records_held id command ⟨held.count id, false⟩ (serve command store).1
  rw [records_heldAfter] at recorded
  have fewer := @survives_held id command ⟨held.count id, false⟩
  dsimp only at recorded fewer
  rcases @count_serve own store id command ⟨held.count id, false⟩ allowed with less | gone
  · dsimp only at less
    omega
  · omega

end Calls

/-! What the parts hold. -/

def PendingJob.jobId (job : PendingJob) : JobId :=
  job.envelope.id

def Batcher.waiting (batcher : Batcher) : List PendingJob :=
  batcher.pending ++ batcher.rx.buffered

def Batching.waiting (batching : Batching) : List JobId :=
  batching.batchers.flatMap (fun batcher => batcher.waiting.map PendingJob.jobId) ++
    batching.sending.toList.map PendingJob.jobId

namespace QueueRun

def held (run : QueueRun) : List JobId :=
  run.dispatchers.flatMap QueueDispatcher.held ++ (run.jobs.buffered.map WorkerJob.jobId ++
    (run.coordinator.held ++ (run.batching.waiting ++
      run.tasks.flatMap fun task => task.running.held)))

def carried (run : QueueRun) : List JobId :=
  run.dispatchers.flatMap QueueDispatcher.held ++ (run.jobs.buffered.map WorkerJob.jobId ++
    (run.coordinator.carried ++ (run.batching.waiting ++
      (run.tasks.flatMap WorkerTask.ids ++ run.missing))))

theorem count_held (run : QueueRun) (id : JobId) : run.held.count id =
    (run.dispatchers.flatMap QueueDispatcher.held).count id +
      ((run.jobs.buffered.map WorkerJob.jobId).count id + (run.coordinator.held.count id +
        (run.batching.waiting.count id +
          (run.tasks.flatMap fun task => task.running.held).count id))) := by
  simp only [held, List.count_append]

theorem count_carried (run : QueueRun) (id : JobId) : run.carried.count id =
    (run.dispatchers.flatMap QueueDispatcher.held).count id +
      ((run.jobs.buffered.map WorkerJob.jobId).count id + (run.coordinator.carried.count id +
        (run.batching.waiting.count id +
          ((run.tasks.flatMap WorkerTask.ids).count id + run.missing.count id)))) := by
  simp only [carried, List.count_append]

end QueueRun

def ofPop : Command → Prop
  | .lmove _ _ => True
  | .hget _ => True
  | _ => False

def QueueDispatcher.Sound (own : String) (dispatcher : QueueDispatcher) : Prop :=
  ∀ pop, dispatcher.stage = .popping pop → pop.program.Sends ofPop ∧
    pop.Sound own (fun id next held => held = if next = some id then 1 else 0) True

def CoordinatorStage.Sound (own : String) (stage : CoordinatorStage) : Prop :=
  ∀ job load, stage = .routing job load → load.Sound own
    (fun id pending held => held = (pending.toList.map JobEnvelope.id).count id ∧
      ∀ envelope, pending = some envelope → envelope.id = job.jobId) False

def WorkerTask.Sound (own : String) (task : WorkerTask) : Prop :=
  task.running.Sound own (fun _ _ held => held = 0) False

structure QueueSound (storage : StorageInternal) (batchConfig : String → Option WorkerBatchConfig)
    (run : QueueRun) : Prop where
  batching : BatchingSound batchConfig run.batching
  dispatchers : ∀ dispatcher ∈ run.dispatchers, dispatcher.Sound storage.currentProcessingQueue
  coordinator : run.coordinator.Sound storage.currentProcessingQueue
  tasks : ∀ task ∈ run.tasks, task.Sound storage.currentProcessingQueue
  unanswered : ∀ command ∈ run.unanswered, ofPop command ∧
    strandAllows storage.currentProcessingQueue command
  listed : ∀ id, (run.store.lists.get storage.currentProcessingQueue).count id ≤ run.held.count id
  conserved : ∀ id, run.moved.count id = run.carried.count id
  left : run.coordinator.left = true → run.batching.sending = none ∧ run.jobs.buffered = [] ∧
    ∀ dispatcher ∈ run.dispatchers, dispatcher.held = []
  returned : run.coordinator = .returned → (∀ task ∈ run.tasks, Idle task.running.program) ∧
    ∀ batcher ∈ run.batching.batchers, batcher.stage = .returned

section Steps

variable {storage : StorageInternal} {batchConfig : String → Option WorkerBatchConfig}
  {run : QueueRun}

theorem sends_pop (queueKey : String) (throttler : Option ThrottlerCalls) :
    (storage.popQueueMessage queueKey throttler).Sends ofPop := by
  cases throttler with
  | none => exact sends_request trivial
  | some calls =>
      refine sends_bind (sends_ofExcept _) ?_
      intro state
      split
      · refine sends_bind (sends_request trivial) ?_
        intro next
        cases next with
        | none => trivial
        | some jobId =>
            refine sends_bind (StorageInternal.getJob_sends trivial) ?_
            intro envelope
            exact sends_bind (sends_ofExcept _) fun _ => trivial
      · trivial

theorem sound_pop (queueKey : String) {throttler : Option ThrottlerCalls}
    (answers : Answers throttler) :
    QueueDispatcher.Sound storage.currentProcessingQueue
      ⟨queueKey, .popping (.start (storage.popQueueMessage queueKey throttler) [])⟩ := by
  rintro pop ⟨⟩
  refine ⟨sends_pop queueKey throttler, ?_⟩
  intro id
  have consumes : Consumes throttler := fun calls same => (answers calls same).2
  refine withstands_mono (withstands_pop rfl consumes) ?_ fun _ _ => trivial
  rintro next after rfl
  exact Nat.zero_add _

theorem sound_load (job : WorkerJob) :
    CoordinatorStage.Sound storage.currentProcessingQueue
      (.routing job (.start (storage.loadPendingJob job.jobId) [job.jobId])) := by
  rintro _ load ⟨⟩ id
  have mine : job.jobId = id → 0 < [job.jobId].count id := by
    rintro rfl
    simp
  refine withstands_mono (withstands_load rfl mine) ?_ fun _ kept => kept
  rintro pending after ⟨_, counted, same⟩
  refine ⟨?_, same⟩
  change after.held + (if job.jobId = id then 1 else 0) = [job.jobId].count id + _ at counted
  rw [List.count_singleton] at counted
  simp only [beq_iff_eq] at counted
  omega

theorem sound_single (build : JobEnvelope → Except String StorageInternal.Attempt)
    (job : PendingJob) :
    (WorkerTask.single storage build job).Sound storage.currentProcessingQueue := by
  intro id
  refine withstands_mono (withstands_pending rfl build) ?_ fun _ kept => kept
  intro _ after held
  rw [held]
  change [job.envelope.id].count id - _ = 0
  rw [List.count_singleton]
  simp only [beq_iff_eq]
  omega

theorem sound_batch (registry : String → Option BatchWorker) (jobs : List PendingJob) :
    (WorkerTask.batch storage registry jobs).Sound storage.currentProcessingQueue := by
  intro id
  refine withstands_mono (withstands_batch rfl registry _) ?_ fun _ kept => kept
  intro _ after held
  rw [held, List.map_map]
  exact Nat.sub_self _

theorem QueueSound.dispatch (sound : QueueSound storage batchConfig run) {index : Nat}
    {old new : QueueDispatcher} (found : run.dispatchers[index]? = some old)
    (fits : new.Sound storage.currentProcessingQueue)
    (same : ∀ id, new.held.count id = old.held.count id) (controls : List QueueControl)
    {sent : List Command}
    (allowed : ∀ command ∈ sent, ofPop command ∧
      strandAllows storage.currentProcessingQueue command) :
    QueueSound storage batchConfig
      { run with
        controls := controls
        dispatchers := run.dispatchers.set index new
        unanswered := sent ++ run.unanswered } := by
  have counted := fun id => count_flatMap_set QueueDispatcher.held new found id
  refine ⟨sound.batching, ?_, sound.coordinator, sound.tasks, ?_, ?_, ?_, ?_, sound.returned⟩
  · intro dispatcher member
    rcases List.mem_or_eq_of_mem_set member with earlier | rfl
    · exact sound.dispatchers dispatcher earlier
    · exact fits
  · intro command member
    rcases List.mem_append.mp member with fresh | earlier
    · exact allowed command fresh
    · exact sound.unanswered command earlier
  · intro id
    have before := sound.listed id
    have kept := same id
    have changed := counted id
    rw [QueueRun.count_held] at before ⊢
    dsimp only at before ⊢
    omega
  · intro id
    have before := sound.conserved id
    have kept := same id
    have changed := counted id
    rw [QueueRun.count_carried] at before ⊢
    dsimp only at before ⊢
    omega
  · intro past
    obtain ⟨ready, drained, empty⟩ := sound.left past
    refine ⟨ready, drained, ?_⟩
    intro dispatcher member
    rcases List.mem_or_eq_of_mem_set member with earlier | rfl
    · exact empty dispatcher earlier
    · refine eq_nil_of_count fun id => ?_
      rw [same id, empty old (List.mem_of_getElem? found), List.count_nil]

theorem QueueSound.redispatch (sound : QueueSound storage batchConfig run) {index : Nat}
    {old : QueueDispatcher} (new : QueueDispatcher)
    (found : run.dispatchers[index]? = some old)
    (fits : new.Sound storage.currentProcessingQueue)
    (same : ∀ id, new.held.count id = old.held.count id) (controls : List QueueControl) :
    QueueSound storage batchConfig
      { run with controls := controls, dispatchers := run.dispatchers.set index new } :=
  sound.dispatch found fits same controls (List.forall_mem_nil _)

theorem popped_none {command : Command} {store : Store} (still : ¬movesJob store command) :
    poppedId command (serve command store).1 = none := by
  cases command with
  | lmove source destination =>
      have empty : store.lists.get source = [] := not_not.mp still
      change (moveLast store source destination).1 = none
      unfold moveLast
      rw [empty]
      rfl
  | _ => rfl

theorem count_heldAfter {command : Command} (fits : ofPop command) (held : List JobId)
    (reply : command.Reply) (id : JobId) :
    (heldAfter held command reply).count id =
      (poppedId command reply).toList.count id + held.count id := by
  cases command with
  | lmove source destination => exact List.count_append
  | hget field => simp [heldAfter, poppedId]
  | _ => exact False.elim fits

theorem QueueSound.pop (sound : QueueSound storage batchConfig run) {index : Nat}
    {queueKey : String} {pop : Running (Option JobId)} {command : Command}
    {next : Except OxanaError command.Reply → Redis (Option JobId)}
    (found : run.dispatchers[index]? = some ⟨queueKey, .popping pop⟩)
    (sends : pop.program = .call command next) (decodes : pop.Decodes run.store)
    (still : run.coordinator.left = true → ¬pop.Moves run.store) :
    QueueSound storage batchConfig
      { run with
        store := (serve command run.store).2
        dispatchers := run.dispatchers.set index
          ⟨queueKey, .popping (pop.advance command next run.store)⟩
        moved := (poppedId command (serve command run.store).1).toList ++ run.moved } := by
  obtain ⟨sending, own⟩ := sound.dispatchers _ (List.mem_of_getElem? found) pop rfl
  rw [sends] at sending
  have counted := fun id => count_flatMap_set QueueDispatcher.held
    (⟨queueKey, .popping (pop.advance command next run.store)⟩ : QueueDispatcher) found id
  have allowed := own.allowed sends
  have advanced := own.advance sends decodes
  refine ⟨sound.batching, ?_, sound.coordinator, sound.tasks, sound.unanswered, ?_, ?_, ?_,
    sound.returned⟩
  · intro dispatcher member
    rcases List.mem_or_eq_of_mem_set member with earlier | rfl
    · exact sound.dispatchers dispatcher earlier
    · rintro _ ⟨⟩
      exact ⟨sending.2 _, advanced⟩
  · intro id
    have before := sound.listed id
    have changed := counted id
    refine listed_serve pop.held allowed before ?_
    rw [QueueRun.count_held, QueueRun.count_held]
    change _ + pop.held.count id = _ + (heldAfter pop.held command _).count id at changed
    dsimp only
    omega
  · intro id
    have before := sound.conserved id
    have changed := counted id
    have added := count_heldAfter sending.1 pop.held (serve command run.store).1 id
    change _ + pop.held.count id = _ + (heldAfter pop.held command _).count id at changed
    rw [QueueRun.count_carried] at before ⊢
    rw [List.count_append]
    dsimp only at before ⊢
    omega
  · intro past
    obtain ⟨ready, drained, empty⟩ := sound.left past
    refine ⟨ready, drained, ?_⟩
    intro dispatcher member
    rcases List.mem_or_eq_of_mem_set member with earlier | rfl
    · exact empty dispatcher earlier
    · have none_held : pop.held = [] := empty _ (List.mem_of_getElem? found)
      have none_popped := popped_none fun moves => still past ⟨command, next, sends, moves⟩
      refine eq_nil_of_count fun id => ?_
      have added := count_heldAfter sending.1 pop.held (serve command run.store).1 id
      rw [none_popped, none_held] at added
      change (heldAfter pop.held command _).count id = 0
      rw [none_held]
      exact added

theorem QueueSound.settle (sound : QueueSound storage batchConfig run) {command : Command}
    {earlier later : List Command} (sent : run.unanswered = earlier ++ command :: later)
    (still : ¬movesJob run.store command) :
    QueueSound storage batchConfig
      { run with
        store := (serve command run.store).2
        unanswered := earlier ++ later
        moved := (poppedId command (serve command run.store).1).toList ++ run.moved } := by
  have none_popped := popped_none still
  obtain ⟨fits, allowed⟩ := sound.unanswered command (by rw [sent]; simp)
  refine ⟨sound.batching, sound.dispatchers, sound.coordinator, sound.tasks, ?_, ?_, ?_,
    sound.left, sound.returned⟩
  · intro other member
    refine sound.unanswered other ?_
    rw [sent]
    simp only [List.mem_append, List.mem_cons] at member ⊢
    tauto
  · intro id
    refine listed_serve [] allowed (sound.listed id) ?_
    rw [count_heldAfter fits, none_popped]
    rfl
  · intro id
    rw [none_popped]
    exact sound.conserved id

theorem QueueSound.send (sound : QueueSound storage batchConfig run) {index : Nat}
    {queueKey : String} {jobId : JobId} {jobs : MpscChannel WorkerJob}
    (found : run.dispatchers[index]? = some ⟨queueKey, .sending jobId⟩)
    (sent : run.jobs.send ⟨jobId, index⟩ = .sent jobs) :
    QueueSound storage batchConfig
      { run with
        dispatchers := run.dispatchers.set index ⟨queueKey, .acquiring⟩
        jobs := jobs } := by
  obtain ⟨_, _, buffered, _, _⟩ := MpscChannel.send_sent sent
  have counted : ∀ id, ((run.dispatchers.set index ⟨queueKey, .acquiring⟩).flatMap
      QueueDispatcher.held).count id + (jobs.buffered.map WorkerJob.jobId).count id =
        (run.dispatchers.flatMap QueueDispatcher.held).count id +
          (run.jobs.buffered.map WorkerJob.jobId).count id := by
    intro id
    have changed := count_flatMap_set QueueDispatcher.held
      (⟨queueKey, .acquiring⟩ : QueueDispatcher) found id
    change _ + [jobId].count id = _ + 0 at changed
    rw [buffered, List.map_append, List.count_append]
    change _ + (_ + [jobId].count id) = _
    omega
  refine ⟨sound.batching, ?_, sound.coordinator, sound.tasks, sound.unanswered, ?_, ?_, ?_,
    sound.returned⟩
  · intro dispatcher member
    rcases List.mem_or_eq_of_mem_set member with earlier | rfl
    · exact sound.dispatchers dispatcher earlier
    · rintro _ ⟨⟩
  · intro id
    have before := sound.listed id
    have changed := counted id
    rw [QueueRun.count_held] at before ⊢
    dsimp only at before ⊢
    omega
  · intro id
    have before := sound.conserved id
    have changed := counted id
    rw [QueueRun.count_carried] at before ⊢
    dsimp only at before ⊢
    omega
  · intro past
    have empty := (sound.left past).2.2 _ (List.mem_of_getElem? found)
    cases empty

theorem QueueSound.coordinate (sound : QueueSound storage batchConfig run)
    {store : Store} {jobs : MpscChannel WorkerJob} {stage : CoordinatorStage}
    {controls : List QueueControl} {missing : List JobId}
    (still : stage.left = false)
    (fits : stage.Sound storage.currentProcessingQueue)
    (listed : ∀ id, (store.lists.get storage.currentProcessingQueue).count id +
        ((run.jobs.buffered.map WorkerJob.jobId).count id + run.coordinator.held.count id) ≤
      run.held.count id +
        ((jobs.buffered.map WorkerJob.jobId).count id + stage.held.count id))
    (conserved : ∀ id, (jobs.buffered.map WorkerJob.jobId).count id +
        stage.carried.count id + missing.count id =
      (run.jobs.buffered.map WorkerJob.jobId).count id + run.coordinator.carried.count id +
        run.missing.count id) :
    QueueSound storage batchConfig
      { run with
        store := store
        controls := controls
        jobs := jobs
        coordinator := stage
        missing := missing } := by
  refine ⟨sound.batching, sound.dispatchers, fits, sound.tasks, sound.unanswered, ?_, ?_, ?_, ?_⟩
  · intro id
    have before := listed id
    rw [QueueRun.count_held] at before ⊢
    dsimp only at before ⊢
    omega
  · intro id
    have before := sound.conserved id
    have changed := conserved id
    rw [QueueRun.count_carried] at before ⊢
    dsimp only at before ⊢
    omega
  · intro past
    change stage.left = true at past
    rw [still] at past
    cases past
  · intro past
    change stage = .returned at past
    rw [past] at still
    cases still

theorem QueueSound.regroup (sound : QueueSound storage batchConfig run)
    {controls : List QueueControl} {stage : CoordinatorStage} {batching : Batching}
    {tasks : List WorkerTask} (batched : BatchingSound batchConfig batching)
    (fits : stage.Sound storage.currentProcessingQueue)
    (working : ∀ task ∈ tasks, task.Sound storage.currentProcessingQueue)
    (held : ∀ id, stage.held.count id + (batching.waiting.count id +
        (tasks.flatMap fun task => task.running.held).count id) =
      run.coordinator.held.count id + (run.batching.waiting.count id +
        (run.tasks.flatMap fun task => task.running.held).count id))
    (carried : ∀ id, stage.carried.count id + (batching.waiting.count id +
        (tasks.flatMap WorkerTask.ids).count id) =
      run.coordinator.carried.count id + (run.batching.waiting.count id +
        (run.tasks.flatMap WorkerTask.ids).count id))
    (left : stage.left = true → batching.sending = none ∧ run.jobs.buffered = [] ∧
      ∀ dispatcher ∈ run.dispatchers, dispatcher.held = [])
    (returned : stage = .returned → (∀ task ∈ tasks, Idle task.running.program) ∧
      ∀ batcher ∈ batching.batchers, batcher.stage = .returned) :
    QueueSound storage batchConfig
      { run with
        controls := controls
        coordinator := stage
        batching := batching
        tasks := tasks } := by
  refine ⟨batched, sound.dispatchers, fits, working, sound.unanswered, ?_, ?_, left, returned⟩
  · intro id
    have before := sound.listed id
    have changed := held id
    rw [QueueRun.count_held] at before ⊢
    dsimp only at before ⊢
    omega
  · intro id
    have before := sound.conserved id
    have changed := carried id
    rw [QueueRun.count_carried] at before ⊢
    dsimp only at before ⊢
    omega

theorem sound_selecting : CoordinatorStage.Sound storage.currentProcessingQueue .selecting := by
  rintro _ _ ⟨⟩

theorem QueueSound.loaded (sound : QueueSound storage batchConfig run) {job : WorkerJob}
    {load : Running (Option JobEnvelope)} {pending : Option JobEnvelope}
    (routing : run.coordinator = .routing job load) (ended : load.program = .done pending) :
    (∀ id, load.held.count id = (pending.toList.map JobEnvelope.id).count id) ∧
      ∀ envelope, pending = some envelope → envelope.id = job.jobId := by
  have own := sound.coordinator job load routing
  exact ⟨fun id => (own.ended ended id).1, (own.ended ended "").2⟩

theorem QueueSound.routeSingle (sound : QueueSound storage batchConfig run) {job : WorkerJob}
    {load : Running (Option JobEnvelope)} {envelope : JobEnvelope}
    (build : JobEnvelope → Except String StorageInternal.Attempt)
    (routing : run.coordinator = .routing job load)
    (ended : load.program = .done (some envelope)) :
    QueueSound storage batchConfig
      { run with
        coordinator := .selecting
        tasks := run.tasks ++ [.single storage build ⟨envelope, job.permit⟩] } := by
  obtain ⟨counted, same⟩ := sound.loaded routing ended
  refine sound.regroup sound.batching sound_selecting ?_ ?_ ?_ ?_ ?_
  · intro task member
    rcases List.mem_append.mp member with earlier | fresh
    · exact sound.tasks task earlier
    · rw [List.mem_singleton.mp fresh]
      exact sound_single build _
  · intro id
    have own := counted id
    rw [routing, List.flatMap_append, List.count_append]
    change 0 + (_ + (_ + [envelope.id].count id)) = load.held.count id + _
    change _ = [envelope.id].count id at own
    omega
  · intro id
    rw [routing, List.flatMap_append, List.count_append]
    change 0 + (_ + (_ + [envelope.id].count id)) = [job.jobId].count id + _
    rw [same envelope rfl]
    omega
  · rintro ⟨⟩
  · rintro ⟨⟩

theorem QueueSound.routeBatch (sound : QueueSound storage batchConfig run) {job : WorkerJob}
    {load : Running (Option JobEnvelope)} {envelope : JobEnvelope} {config : WorkerBatchConfig}
    (routing : run.coordinator = .routing job load)
    (ended : load.program = .done (some envelope)) (ready : run.batching.sending = none)
    (batched : batchConfig envelope.job.name = some config) :
    QueueSound storage batchConfig
      { run with
        coordinator := .selecting
        batching := { run.batching with
          sending := some ⟨envelope, job.permit⟩
          passed := run.batching.passed ++ [⟨envelope, job.permit⟩] } } := by
  obtain ⟨counted, same⟩ := sound.loaded routing ended
  have waiting : ∀ id, (Batching.waiting { run.batching with
      sending := some ⟨envelope, job.permit⟩
      passed := run.batching.passed ++ [⟨envelope, job.permit⟩] }).count id =
        run.batching.waiting.count id + [envelope.id].count id := by
    intro id
    unfold Batching.waiting
    rw [ready, List.count_append, List.count_append]
    rfl
  refine sound.regroup (sound.batching.step (.pass ⟨envelope, job.permit⟩ ready batched))
    sound_selecting sound.tasks ?_ ?_ ?_ ?_
  · intro id
    have own := counted id
    rw [routing, waiting id]
    change 0 + _ = load.held.count id + _
    change _ = [envelope.id].count id at own
    omega
  · intro id
    rw [routing, waiting id]
    change 0 + _ = [job.jobId].count id + _
    rw [same envelope rfl]
    omega
  · rintro ⟨⟩
  · rintro ⟨⟩

theorem Batcher.Sound.accepted_eq {batcher : Batcher} (sound : batcher.Sound) :
    batcher.rx.accepted = batcher.spawned.flatten ++ batcher.waiting := by
  rw [MpscChannel.accepted, ← sound.received, List.append_assoc]
  rfl

theorem Batcher.spawnBatch_spawned (batcher : Batcher) :
    ∃ batches, batcher.spawnBatch.spawned = batcher.spawned ++ batches := by
  unfold Batcher.spawnBatch
  split
  · exact ⟨[], (List.append_nil _).symm⟩
  · exact ⟨_, rfl⟩

theorem Batcher.spawned_step {before after : Batcher} {connected : Bool} {event : BatcherEvent}
    (stepped : before.step connected event = some after) :
    ∃ batches, after.spawned = before.spawned ++ batches := by
  rcases Batcher.step_cases stepped with ⟨job, rx, got, next⟩ | ⟨ended, rfl⟩ | ⟨_, rfl⟩ | ⟨_, rfl⟩
  · rcases next with ⟨stage, _, rfl⟩ | ⟨stage, _, _, rfl⟩
    · exact (before.push job rx).spawnBatch_spawned
    · exact ⟨[], (List.append_nil _).symm⟩
  · exact before.spawnBatch_spawned
  · exact before.spawnBatch_spawned
  · exact ⟨[], (List.append_nil _).symm⟩

theorem Batcher.Sound.waiting_step {before after : Batcher} {connected : Bool}
    {event : BatcherEvent} (sound : before.Sound)
    (stepped : before.step connected event = some after) :
    before.waiting = (after.spawned.drop before.spawned.length).flatten ++ after.waiting := by
  obtain ⟨batches, grown⟩ := Batcher.spawned_step stepped
  have same := Batcher.accepted_step stepped
  rw [sound.accepted_eq, (sound.step stepped).accepted_eq, grown, List.flatten_append,
    List.append_assoc] at same
  rw [grown, List.drop_left]
  exact (List.append_cancel_left same).symm

theorem QueueSound.accept (sound : QueueSound storage batchConfig run) {job : PendingJob}
    {index : Nat} {batcher : Batcher} {tx : MpscChannel PendingJob}
    (sending : run.batching.sending = some job)
    (occupied : run.batching.table.lookup job.key = some index)
    (found : run.batching.batchers[index]? = some batcher)
    (sent : batcher.rx.send job = .sent tx) :
    QueueSound storage batchConfig
      { run with batching := { run.batching with
          batchers := run.batching.batchers.set index { batcher with rx := tx }
          sending := none } } := by
  obtain ⟨_, _, buffered, _, _⟩ := MpscChannel.send_sent sent
  have waiting : ∀ id, (Batching.waiting { run.batching with
      batchers := run.batching.batchers.set index { batcher with rx := tx }
      sending := none }).count id = run.batching.waiting.count id := by
    intro id
    have changed := count_flatMap_set (fun batcher : Batcher => batcher.waiting.map PendingJob.jobId)
      { batcher with rx := tx } found id
    unfold Batching.waiting
    rw [sending, List.count_append, List.count_append]
    have grown : ({ batcher with rx := tx } : Batcher).waiting = batcher.waiting ++ [job] := by
      change batcher.pending ++ tx.buffered = _
      rw [buffered, ← List.append_assoc]
      rfl
    rw [grown, List.map_append, List.count_append] at changed
    change _ = _ + (_ + [job.jobId].count id) at changed
    dsimp only at changed ⊢
    change _ + 0 = _ + [job.jobId].count id
    omega
  refine sound.regroup (sound.batching.step (.accept sending occupied found sent))
    sound.coordinator sound.tasks ?_ ?_ ?_ ?_
  · intro id
    rw [waiting id]
  · intro id
    rw [waiting id]
  · intro past
    have ready := (sound.left past).1
    rw [sending] at ready
    cases ready
  · intro past
    have ready := (sound.left (by rw [past]; rfl)).1
    rw [sending] at ready
    cases ready

theorem QueueSound.batcher (sound : QueueSound storage batchConfig run) {before after : Batcher}
    {index : Nat} {event : BatcherEvent} (registry : String → Option BatchWorker)
    (found : run.batching.batchers[index]? = some before)
    (cancelled : event = .cancelled → run.batching.cancelled = true)
    (stepped : before.step (run.batching.connected index) event = some after) :
    QueueSound storage batchConfig
      { run with
        batching := { run.batching with batchers := run.batching.batchers.set index after }
        tasks := run.tasks ++
          (after.spawned.drop before.spawned.length).map (.batch storage registry) } := by
  have own := sound.batching.batchers before (List.mem_of_getElem? found)
  have split := own.waiting_step stepped
  generalize after.spawned.drop before.spawned.length = batches at split ⊢
  have spawned : ∀ batches : List (List PendingJob),
      (batches.map (WorkerTask.batch storage registry)).flatMap WorkerTask.ids =
        batches.flatten.map PendingJob.jobId ∧
      (batches.map (WorkerTask.batch storage registry)).flatMap (fun task => task.running.held) =
        batches.flatten.map PendingJob.jobId := by
    intro batches
    induction batches with
    | nil => exact ⟨rfl, rfl⟩
    | cons batch rest ih =>
        rw [List.map_cons, List.flatMap_cons, List.flatMap_cons, List.flatten_cons, List.map_append,
          ih.1, ih.2]
        exact ⟨rfl, rfl⟩
  have waiting : ∀ id, (Batching.waiting { run.batching with
      batchers := run.batching.batchers.set index after }).count id +
        (batches.flatten.map PendingJob.jobId).count id = run.batching.waiting.count id := by
    intro id
    have changed := count_flatMap_set (fun batcher : Batcher => batcher.waiting.map PendingJob.jobId)
      after found id
    unfold Batching.waiting
    rw [List.count_append, List.count_append]
    rw [split, List.map_append, List.count_append] at changed
    dsimp only at changed ⊢
    omega
  refine sound.regroup (sound.batching.step (.batcher index event found cancelled stepped))
    sound.coordinator ?_ ?_ ?_ ?_ ?_
  · intro task member
    rcases List.mem_append.mp member with earlier | fresh
    · exact sound.tasks task earlier
    · obtain ⟨batch, _, rfl⟩ := List.mem_map.mp fresh
      exact sound_batch registry batch
  · intro id
    have moved := waiting id
    rw [List.flatMap_append, List.count_append, (spawned batches).2]
    omega
  · intro id
    have moved := waiting id
    rw [List.flatMap_append, List.count_append, (spawned batches).1]
    omega
  · exact sound.left
  · intro past
    have gone := (sound.returned past).2 before (List.mem_of_getElem? found)
    unfold Batcher.step at stepped
    rw [gone] at stepped
    cases stepped

theorem QueueSound.work (sound : QueueSound storage batchConfig run) {index : Nat}
    {task : WorkerTask} {command : Command} {next : Except OxanaError command.Reply → Redis Unit}
    (found : run.tasks[index]? = some task) (sends : task.running.program = .call command next)
    (decodes : task.running.Decodes run.store) :
    QueueSound storage batchConfig
      { run with
        store := (serve command run.store).2
        tasks := run.tasks.set index
          { task with running := task.running.advance command next run.store } } := by
  have listed := List.mem_of_getElem? found
  have own := sound.tasks task listed
  have advanced := own.advance sends decodes
  refine ⟨sound.batching, sound.dispatchers, sound.coordinator, ?_, sound.unanswered, ?_, ?_,
    sound.left, ?_⟩
  · intro other member
    rcases List.mem_or_eq_of_mem_set member with earlier | rfl
    · exact sound.tasks other earlier
    · exact advanced
  · intro id
    have changed := count_flatMap_set (fun task : WorkerTask => task.running.held)
      { task with running := task.running.advance command next run.store } found id
    refine listed_serve task.running.held (own.allowed sends) (sound.listed id) ?_
    rw [QueueRun.count_held, QueueRun.count_held]
    change _ = _ + (heldAfter task.running.held command _).count id at changed
    dsimp only at changed ⊢
    omega
  · intro id
    have before := sound.conserved id
    have changed := count_flatMap_set WorkerTask.ids
      { task with running := task.running.advance command next run.store } found id
    change _ = _ + task.ids.count id at changed
    rw [QueueRun.count_carried] at before ⊢
    dsimp only at before changed ⊢
    omega
  · intro past
    have idle := (sound.returned past).1 task listed
    rw [sends] at idle
    exact False.elim idle

theorem QueueSound.finish (sound : QueueSound storage batchConfig run) {index permit : Nat}
    {task : WorkerTask} (found : run.tasks[index]? = some task) (controls : List QueueControl) :
    QueueSound storage batchConfig
      { run with
        controls := controls
        tasks := run.tasks.set index { task with permits := task.permits.erase permit } } := by
  have listed := List.mem_of_getElem? found
  refine sound.regroup sound.batching sound.coordinator ?_ ?_ ?_ sound.left ?_
  · intro other member
    rcases List.mem_or_eq_of_mem_set member with earlier | rfl
    · exact sound.tasks other earlier
    · exact sound.tasks task listed
  · intro id
    have changed := count_flatMap_set (fun task : WorkerTask => task.running.held)
      { task with permits := task.permits.erase permit } found id
    dsimp only at changed ⊢
    omega
  · intro id
    have changed := count_flatMap_set WorkerTask.ids
      { task with permits := task.permits.erase permit } found id
    change _ = _ + task.ids.count id at changed
    omega
  · intro past
    obtain ⟨idle, gone⟩ := sound.returned past
    refine ⟨?_, gone⟩
    intro other member
    rcases List.mem_or_eq_of_mem_set member with earlier | rfl
    · exact idle other earlier
    · exact idle task listed

theorem QueueSound.restage (sound : QueueSound storage batchConfig run)
    {stage : CoordinatorStage} {batching : Batching}
    (batched : BatchingSound batchConfig batching)
    (batchers : batching.batchers = run.batching.batchers)
    (sending : batching.sending = run.batching.sending)
    (held : run.coordinator.held = [] ∧ run.coordinator.carried = [])
    (stays : stage.held = [] ∧ stage.carried = [])
    (left : stage.left = true → batching.sending = none ∧ run.jobs.buffered = [] ∧
      ∀ dispatcher ∈ run.dispatchers, dispatcher.held = [])
    (returned : stage = .returned → (∀ task ∈ run.tasks, Idle task.running.program) ∧
      ∀ batcher ∈ run.batching.batchers, batcher.stage = .returned) :
    QueueSound storage batchConfig { run with coordinator := stage, batching := batching } := by
  have same : batching.waiting = run.batching.waiting := by
    unfold Batching.waiting
    rw [batchers, sending]
  refine sound.regroup batched ?_ sound.tasks ?_ ?_ left ?_
  · rintro job load rfl
    exact absurd stays.2 (by simp [CoordinatorStage.carried])
  · intro id
    rw [same, held.1, stays.1]
  · intro id
    rw [same, held.2, stays.2]
  · intro past
    rw [batchers]
    exact returned past

theorem QueueSound.rebatch (sound : QueueSound storage batchConfig run) {batching : Batching}
    (batched : BatchingSound batchConfig batching)
    (waiting : ∀ id, batching.waiting.count id = run.batching.waiting.count id)
    (left : run.coordinator.left = true → batching.sending = none)
    (returned : run.coordinator = .returned →
      ∀ batcher ∈ batching.batchers, batcher.stage = .returned) :
    QueueSound storage batchConfig { run with batching := batching } := by
  refine sound.regroup batched sound.coordinator sound.tasks ?_ ?_ ?_ ?_
  · intro id
    rw [waiting id]
  · intro id
    rw [waiting id]
  · intro past
    exact ⟨left past, (sound.left past).2⟩
  · intro past
    exact ⟨(sound.returned past).1, returned past⟩

/-! One lemma for each kind of step. -/

theorem QueueSound.discover (sound : QueueSound storage batchConfig run) (queueKey : String)
    (controls : List QueueControl) :
    QueueSound storage batchConfig
      { run with
        controls := controls
        dispatchers := run.dispatchers ++ [⟨queueKey, .acquiring⟩] } := by
  have fresh : (⟨queueKey, .acquiring⟩ : QueueDispatcher).held = [] := rfl
  have same : ∀ id, ((run.dispatchers ++ [(⟨queueKey, .acquiring⟩ : QueueDispatcher)]).flatMap
      QueueDispatcher.held).count id =
        (run.dispatchers.flatMap QueueDispatcher.held).count id := by
    intro id
    rw [List.flatMap_append, List.count_append]
    rfl
  refine ⟨sound.batching, ?_, sound.coordinator, sound.tasks, sound.unanswered, ?_, ?_, ?_,
    sound.returned⟩
  · intro dispatcher member
    rcases List.mem_append.mp member with earlier | last
    · exact sound.dispatchers dispatcher earlier
    · rw [List.mem_singleton.mp last]
      rintro _ ⟨⟩
  · intro id
    have before := sound.listed id
    rw [QueueRun.count_held] at before ⊢
    dsimp only at before ⊢
    rw [same id]
    exact before
  · intro id
    have before := sound.conserved id
    rw [QueueRun.count_carried] at before ⊢
    dsimp only at before ⊢
    rw [same id]
    exact before
  · intro past
    obtain ⟨ready, drained, empty⟩ := sound.left past
    refine ⟨ready, drained, ?_⟩
    intro dispatcher member
    rcases List.mem_append.mp member with earlier | last
    · exact empty dispatcher earlier
    · rw [List.mem_singleton.mp last]
      exact fresh

section Dispatchers

variable {index : Nat} {queueKey : String} {pop : Running (Option JobId)}

theorem QueueSound.popped (sound : QueueSound storage batchConfig run) {jobId : JobId}
    (found : run.dispatchers[index]? = some ⟨queueKey, .popping pop⟩)
    (ended : pop.program = .done (some jobId)) :
    QueueSound storage batchConfig
      { run with dispatchers := run.dispatchers.set index ⟨queueKey, .sending jobId⟩ } := by
  have own := (sound.dispatchers _ (List.mem_of_getElem? found) pop rfl).2
  refine sound.redispatch ⟨queueKey, .sending jobId⟩ found (by rintro _ ⟨⟩) ?_ _
  intro id
  change [jobId].count id = pop.held.count id
  rw [own.ended ended id, List.count_singleton]
  simp only [beq_iff_eq, Option.some.injEq]

theorem QueueSound.nothing (sound : QueueSound storage batchConfig run)
    (found : run.dispatchers[index]? = some ⟨queueKey, .popping pop⟩)
    (ended : pop.program = .done none) (controls : List QueueControl) :
    QueueSound storage batchConfig
      { run with
        controls := controls
        dispatchers := run.dispatchers.set index ⟨queueKey, .acquiring⟩ } := by
  have own := (sound.dispatchers _ (List.mem_of_getElem? found) pop rfl).2
  refine sound.redispatch ⟨queueKey, .acquiring⟩ found (by rintro _ ⟨⟩) ?_ _
  intro id
  exact (own.ended ended id).symm

/-- A pop that holds no job may be dropped, with its last command under way. -/
theorem QueueSound.stop (sound : QueueSound storage batchConfig run)
    (found : run.dispatchers[index]? = some ⟨queueKey, .popping pop⟩) (free : pop.held = [])
    (controls : List QueueControl) {sent : List Command}
    (last : sent = [] ∨ ∃ command next, pop.program = .call command next ∧ sent = [command]) :
    QueueSound storage batchConfig
      { run with
        controls := controls
        dispatchers := run.dispatchers.set index ⟨queueKey, .stopped⟩
        unanswered := sent ++ run.unanswered } := by
  obtain ⟨sending, own⟩ := sound.dispatchers _ (List.mem_of_getElem? found) pop rfl
  refine sound.dispatch found (by rintro _ ⟨⟩) ?_ controls ?_
  · intro id
    change 0 = pop.held.count id
    rw [free]
    rfl
  · intro command member
    rcases last with rfl | ⟨only, next, sends, rfl⟩
    · cases member
    · rw [List.mem_singleton.mp member]
      rw [sends] at sending
      exact ⟨sending.1, own.allowed sends⟩

end Dispatchers

section Loading

variable {job : WorkerJob} {loading : Running (Option JobEnvelope)}

theorem QueueSound.receive (sound : QueueSound storage batchConfig run)
    {jobs : MpscChannel WorkerJob} {connected : Bool} (selecting : run.coordinator = .selecting)
    (received : run.jobs.recv connected = .message job jobs) :
    QueueSound storage batchConfig
      { run with
        jobs := jobs
        coordinator := .routing job (.start (storage.loadPendingJob job.jobId) [job.jobId]) } := by
  obtain ⟨buffered, _⟩ := MpscChannel.recv_message received
  refine sound.coordinate rfl (sound_load job) ?_ ?_
  · intro id
    have before := sound.listed id
    rw [selecting, buffered, List.map_cons, List.count_cons]
    change _ + (_ + 0) ≤ _ + (_ + [job.jobId].count id)
    rw [List.count_singleton]
    omega
  · intro id
    rw [selecting, buffered, List.map_cons, List.count_cons]
    change _ + [job.jobId].count id + _ = _ + 0 + _
    rw [List.count_singleton]
    omega

theorem QueueSound.load (sound : QueueSound storage batchConfig run) {command : Command}
    {next : Except OxanaError command.Reply → Redis (Option JobEnvelope)}
    (routing : run.coordinator = .routing job loading) (sends : loading.program = .call command next)
    (decodes : loading.Decodes run.store) :
    QueueSound storage batchConfig
      { run with
        store := (serve command run.store).2
        coordinator := .routing job (loading.advance command next run.store) } := by
  have own := sound.coordinator job loading routing
  refine sound.coordinate rfl ?_ ?_ ?_
  · rintro _ _ ⟨⟩
    exact own.advance sends decodes
  · intro id
    have part : loading.held.count id ≤ run.held.count id := by
      rw [QueueRun.count_held, routing]
      change loading.held.count id ≤ _ + (_ + (loading.held.count id + _))
      omega
    have kept : ((serve command run.store).2.lists.get
        storage.currentProcessingQueue).count id ≤ run.held.count id +
          (heldAfter loading.held command (serve command run.store).1).count id -
            loading.held.count id :=
      listed_serve loading.held (own.allowed sends) (sound.listed id) (by omega)
    rw [routing]
    change _ + (_ + loading.held.count id) ≤
      _ + (_ + (heldAfter loading.held command (serve command run.store).1).count id)
    omega
  · intro id
    rw [routing]
    rfl

theorem QueueSound.routeMissing (sound : QueueSound storage batchConfig run)
    (routing : run.coordinator = .routing job loading) (loaded : loading.program = .done none)
    (controls : List QueueControl) :
    QueueSound storage batchConfig
      { run with
        controls := controls
        coordinator := .selecting
        missing := job.jobId :: run.missing } := by
  obtain ⟨counted, _⟩ := sound.loaded routing loaded
  refine sound.coordinate rfl sound_selecting ?_ ?_
  · intro id
    have before := sound.listed id
    have own : loading.held.count id = 0 := counted id
    rw [routing]
    change _ + (_ + loading.held.count id) ≤ _ + (_ + 0)
    omega
  · intro id
    rw [routing, List.count_cons]
    change _ + 0 + _ = _ + [job.jobId].count id + _
    rw [List.count_singleton]
    omega

end Loading

theorem QueueSound.spawnBatcher (sound : QueueSound storage batchConfig run) {job : PendingJob}
    {config : WorkerBatchConfig} (sending : run.batching.sending = some job)
    (batched : batchConfig job.envelope.job.name = some config)
    (vacant : run.batching.table.lookup job.key = none) :
    QueueSound storage batchConfig
      { run with batching := { run.batching with
          batchers := run.batching.batchers ++ [.start config]
          table := (job.key, run.batching.batchers.length) :: run.batching.table } } := by
  have unsettled : run.batching.sending ≠ none := by
    rw [sending]
    simp
  refine sound.rebatch (sound.batching.step (.spawnBatcher sending batched vacant)) ?_ ?_ ?_
  · intro id
    unfold Batching.waiting
    dsimp only
    rw [List.flatMap_append, List.count_append, List.count_append, List.count_append]
    rfl
  · intro past
    exact absurd (sound.left past).1 unsettled
  · intro past
    exact absurd (sound.left (by rw [past]; rfl)).1 unsettled

theorem QueueSound.rebatched (sound : QueueSound storage batchConfig run) {batching : Batching}
    (batched : BatchingSound batchConfig batching) (waiting : batching.waiting = run.batching.waiting)
    (sending : batching.sending = run.batching.sending)
    (batchers : batching.batchers = run.batching.batchers) :
    QueueSound storage batchConfig { run with batching := batching } := by
  refine sound.rebatch batched (fun id => by rw [waiting]) ?_ ?_
  · intro past
    rw [sending]
    exact (sound.left past).1
  · intro past
    rw [batchers]
    exact (sound.returned past).2

theorem QueueSound.goOn (sound : QueueSound storage batchConfig run) {stage : CoordinatorStage}
    (before : run.coordinator.left = true)
    (held : run.coordinator.held = [] ∧ run.coordinator.carried = [])
    (empty : stage.held = [] ∧ stage.carried = [])
    (returned : stage = .returned → (∀ task ∈ run.tasks, Idle task.running.program) ∧
      ∀ batcher ∈ run.batching.batchers, batcher.stage = .returned) :
    QueueSound storage batchConfig { run with coordinator := stage } :=
  sound.restage sound.batching rfl rfl held empty (fun _ => sound.left before) returned

theorem QueueSound.step {event : QueueEvent} {next : QueueRun}
    (sound : QueueSound storage batchConfig run) (orderly : Orderly run event)
    (step : QueueStep storage batchConfig run event next) :
    QueueSound storage batchConfig next := by
  cases step with
  | discover queueKey config watching => exact sound.discover queueKey _
  | unwatch => exact ⟨sound.batching, sound.dispatchers, sound.coordinator, sound.tasks,
      sound.unanswered, sound.listed, sound.conserved, sound.left, sound.returned⟩
  | applyConfig queue config => exact ⟨sound.batching, sound.dispatchers, sound.coordinator,
      sound.tasks, sound.unanswered, sound.listed, sound.conserved, sound.left, sound.returned⟩
  | acquire throttler answers found free acquired =>
      exact sound.redispatch _ found (sound_pop _ answers) (fun _ => rfl) _
  | @stopAcquiring index queueKey found cancelled =>
      refine sound.redispatch ⟨queueKey, .stopped⟩ found ?_ (fun _ => rfl) _
      rintro _ ⟨⟩
  | pop found sends =>
      obtain ⟨decodes, still⟩ := orderly _ _ found
      exact sound.pop found sends decodes still
  | popped found ended => exact sound.popped found ended
  | nothing found ended => exact sound.nothing found ended _
  | stop found cancelled sent last => exact sound.stop found (orderly _ _ found) _ last
  | settle sent => exact sound.settle sent orderly
  | send found sent => exact sound.send found sent
  | receive selecting ready received => exact sound.receive selecting received
  | load routing sends => exact sound.load routing sends (orderly _ _ routing)
  | routeSingle build routing loaded single => exact sound.routeSingle build routing loaded
  | routeBatch routing loaded ready batched => exact sound.routeBatch routing loaded ready batched
  | routeMissing routing loaded => exact sound.routeMissing routing loaded _
  | spawnBatcher sending batched vacant => exact sound.spawnBatcher sending batched vacant
  | accept sending occupied found sent => exact sound.accept sending occupied found sent
  | @refuse job back index batcher sending occupied found refused =>
      have step := sound.batching.step (.refuse sending occupied found refused)
      obtain ⟨rfl, _⟩ := MpscChannel.send_refused refused
      rw [← sending] at step ⊢
      exact sound.rebatched step rfl rfl rfl
  | batcher index event registry found cancelled stepped =>
      exact sound.batcher registry found cancelled stepped
  | work found sends => exact sound.work found sends (orderly _ found)
  | finish found owned past => exact sound.finish found _
  | cancel => exact sound.rebatched (sound.batching.step .cancel) rfl rfl rfl
  | leave selecting ready cancelled =>
      refine sound.restage (sound.batching.step (.dropBatchers ready)) rfl rfl ?_ ⟨rfl, rfl⟩ ?_ ?_
      · rw [selecting]
        exact ⟨rfl, rfl⟩
      · intro _
        exact ⟨ready, orderly⟩
      · rintro ⟨⟩
  | finished waiting idle =>
      refine sound.goOn ?_ ?_ ⟨rfl, rfl⟩ ?_
      · rw [waiting]
        rfl
      · rw [waiting]
        exact ⟨rfl, rfl⟩
      · rintro ⟨⟩
  | shutdownTimeout waiting =>
      refine sound.goOn ?_ ?_ ⟨rfl, rfl⟩ ?_
      · rw [waiting]
        rfl
      · rw [waiting]
        exact ⟨rfl, rfl⟩
      · rintro ⟨⟩
  | join joining watched worked batched =>
      have ended : QueueSound storage batchConfig { run with coordinator := .returned } := by
        refine sound.goOn ?_ ?_ ⟨rfl, rfl⟩ fun _ => ⟨worked, batched⟩
        · rw [joining]
          rfl
        · rw [joining]
          exact ⟨rfl, rfl⟩
      exact ⟨ended.batching, ended.dispatchers, ended.coordinator, ended.tasks, ended.unanswered,
        ended.listed, ended.conserved, ended.left, ended.returned⟩
  | shift store same =>
      refine ⟨sound.batching, sound.dispatchers, sound.coordinator, sound.tasks, sound.unanswered,
        ?_, sound.conserved, sound.left, sound.returned⟩
      intro id
      change (store.lists.get _).count id ≤ _
      rw [same]
      exact sound.listed id

theorem queueSound_start {store : Store} (concurrency : QueueConcurrency)
    (empty : store.lists.get storage.currentProcessingQueue = []) :
    QueueSound storage batchConfig (.start store concurrency) where
  batching := batchingSound_idle
  dispatchers := by simp [QueueRun.start]
  coordinator := sound_selecting
  tasks := by simp [QueueRun.start]
  unanswered := by simp [QueueRun.start]
  listed := by
    intro id
    change (store.lists.get _).count id ≤ _
    rw [empty]
    exact Nat.zero_le _
  conserved := fun _ => rfl
  left := by simp [QueueRun.start, CoordinatorStage.left]
  returned := by simp [QueueRun.start]

theorem QueueSound.reached {next : QueueRun} (sound : QueueSound storage batchConfig run)
    (reaches : QueueReaches storage batchConfig Orderly run next) :
    QueueSound storage batchConfig next := by
  induction reaches with
  | refl => exact sound
  | tail _ step ih =>
      obtain ⟨event, orderly, stepped⟩ := step
      exact ih.step orderly stepped

theorem WorkerTask.Sound.past {task : WorkerTask}
    (sound : task.Sound storage.currentProcessingQueue) (idle : Idle task.running.program) :
    task.running.program = .done () ∧ task.running.held = [] := by
  have none_held : ∀ id, Withstands (strandMonitor storage.currentProcessingQueue id)
      (fun _ after => after.held = 0) (fun _ => False)
      ⟨task.running.held.count id, task.running.started⟩ task.running.program := sound
  cases program : task.running.program with
  | done value =>
      refine ⟨rfl, eq_nil_of_count fun id => ?_⟩
      have ended := none_held id
      rw [program] at ended
      exact ended
  | fail error =>
      have ended := none_held ""
      rw [program] at ended
      exact False.elim ended
  | halt =>
      have ended := none_held ""
      rw [program] at ended
      exact False.elim ended
  | call command next =>
      rw [program] at idle
      exact False.elim idle

theorem waiting_returned {batching : Batching} (sound : BatchingSound batchConfig batching)
    (ready : batching.sending = none)
    (returned : ∀ batcher ∈ batching.batchers, batcher.stage = .returned) :
    batching.waiting = [] := by
  have none_waiting : ∀ batcher ∈ batching.batchers, batcher.waiting.map PendingJob.jobId = [] := by
    intro batcher member
    obtain ⟨pending, buffered, _⟩ :=
      (sound.batchers batcher member).returned (returned batcher member)
    unfold Batcher.waiting
    rw [pending, buffered]
    rfl
  unfold Batching.waiting
  rw [List.flatMap_eq_nil_iff.mpr none_waiting, ready]
  rfl

/-- A shutdown in which no job is between its queue and a worker when the loop is left, and
none is moved afterwards, leaves nothing behind. -/
theorem shutdown_abandons_nothing (storage : StorageInternal)
    (batchConfig : String → Option WorkerBatchConfig) (concurrency : QueueConcurrency)
    (store : Store) (empty : store.lists.get storage.currentProcessingQueue = [])
    (run : QueueRun)
    (reaches : QueueReaches storage batchConfig Orderly (.start store concurrency) run)
    (returned : run.coordinator = .returned) :
    run.store.lists.get storage.currentProcessingQueue = [] ∧
      run.moved.Perm (run.tasks.flatMap WorkerTask.ids ++ run.missing) ∧
      ∀ task ∈ run.tasks, task.running.program = .done () := by
  have sound := (queueSound_start concurrency empty).reached reaches
  obtain ⟨ready, drained, idle⟩ := sound.left (by rw [returned]; rfl)
  obtain ⟨worked, batched⟩ := sound.returned returned
  have waiting := waiting_returned sound.batching ready batched
  have dispatchers : run.dispatchers.flatMap QueueDispatcher.held = [] :=
    List.flatMap_eq_nil_iff.mpr idle
  have tasks : (run.tasks.flatMap fun task => task.running.held) = [] :=
    List.flatMap_eq_nil_iff.mpr fun task member =>
      ((sound.tasks task member).past (worked task member)).2
  refine ⟨?_, ?_, ?_⟩
  · refine eq_nil_of_count fun id => ?_
    have listed := sound.listed id
    rw [QueueRun.count_held, dispatchers, drained, waiting, tasks, returned] at listed
    exact Nat.le_zero.mp listed
  · rw [List.perm_iff_count]
    intro id
    rw [sound.conserved id, QueueRun.count_carried, dispatchers, drained, waiting, returned,
      List.count_append]
    change 0 + (0 + (0 + (0 + _))) = _
    omega
  · intro task member
    exact ((sound.tasks task member).past (worked task member)).1

end Steps

def unbatched : String → Option WorkerBatchConfig := fun _ => none

theorem shutdown_abandons_nothing_drained :
    ∃ run : QueueRun, run.coordinator = .returned ∧ run.moved = ["report/7"] ∧
      run.store.lists.get (workerNode 1).currentProcessingQueue = [] := by
  have start : QueueReaches (workerNode 1) unbatched Orderly (.start queuedStore (.fixed 1))
      (.start queuedStore (.fixed 1)) := .refl
  have discovered := start.move (.discover "low" ⟨some 1, .active⟩ rfl) trivial
  have watched := discovered.move .unwatch trivial
  have acquired := watched.move (@QueueStep.acquire _ _ _ 0 _ _ _ none
    (fun _ impossible => (nomatch impossible)) rfl rfl rfl) trivial
  have moved := acquired.move (@QueueStep.pop _ _ _ 0 _ _ _ _ rfl rfl) (by
    rintro _ _ ⟨⟩
    exact ⟨fun _ _ impossible => (nomatch impossible), fun impossible => (nomatch impossible)⟩)
  have popped := moved.move (@QueueStep.popped _ _ _ 0 _ _ _ rfl rfl) trivial
  have sent := popped.move (@QueueStep.send _ _ _ 0 _ _ _ rfl rfl) trivial
  have received := sent.move (@QueueStep.receive _ _ _ _ _ true rfl rfl rfl) trivial
  have loaded := received.move (.load rfl rfl) (by
    rintro _ _ ⟨⟩ field next same fresh text found
    cases same
    exact ⟨report .null .skip, (Option.some.inj found).symm, rfl⟩)
  have routed := loaded.move (.routeSingle unknownWorker rfl rfl rfl) trivial
  -- The job is killed by four commands.
  have removed := routed.move (@QueueStep.work _ _ _ 0 _ _ _ rfl rfl) (by
    rintro _ ⟨⟩ _ _ ⟨⟩)
  have deleted := removed.move (@QueueStep.work _ _ _ 0 _ _ _ rfl rfl) (by
    rintro _ ⟨⟩ _ _ ⟨⟩)
  have buried := deleted.move (@QueueStep.work _ _ _ 0 _ _ _ rfl rfl) (by
    rintro _ ⟨⟩ _ _ ⟨⟩)
  have trimmed := buried.move (@QueueStep.work _ _ _ 0 _ _ _ rfl rfl) (by
    rintro _ ⟨⟩ _ _ ⟨⟩)
  have cancelled := trimmed.move .cancel trivial
  have left := cancelled.move (.leave rfl rfl rfl) ⟨rfl, by
    intro dispatcher member
    rw [List.mem_singleton.mp member]
    rfl⟩
  have released := left.move (@QueueStep.finish _ _ _ 0 0 _ rfl List.mem_cons_self
    (by decide)) trivial
  have waited := released.move (.finished rfl rfl) trivial
  have joined := waited.move (.join rfl rfl (by
    intro task member
    rw [List.mem_singleton.mp member]
    trivial) (fun batcher member => (nomatch member))) trivial
  exact ⟨_, rfl, rfl, (shutdown_abandons_nothing (workerNode 1) unbatched (.fixed 1) queuedStore rfl
    _ joined rfl).1⟩

/-- The dispatcher is cancelled while the reply of its `LMOVE` is on the way. -/
theorem cancelled_pop_abandons_job :
    ¬∀ (storage : StorageInternal) (batchConfig : String → Option WorkerBatchConfig)
      (concurrency : QueueConcurrency) (store : Store),
      store.lists.get storage.currentProcessingQueue = [] → ∀ run : QueueRun,
      QueueReaches storage batchConfig (fun _ _ => True) (.start store concurrency) run →
      run.coordinator = .returned → run.store.lists.get storage.currentProcessingQueue = [] := by
  intro holds
  have start : QueueReaches (workerNode 1) unbatched (fun _ _ => True)
      (.start queuedStore (.fixed 1)) (.start queuedStore (.fixed 1)) := .refl
  have discovered := start.move (.discover "low" ⟨some 1, .active⟩ rfl) trivial
  have watched := discovered.move .unwatch trivial
  have acquired := watched.move (@QueueStep.acquire _ _ _ 0 _ _ _ none
    (fun _ impossible => (nomatch impossible)) rfl rfl rfl) trivial
  have moved := acquired.move (@QueueStep.pop _ _ _ 0 _ _ _ _ rfl rfl) trivial
  have cancelled := moved.move .cancel trivial
  have stopped := cancelled.move (@QueueStep.stop _ _ _ 0 _ _ rfl rfl [] (.inl rfl)) trivial
  have left := stopped.move (.leave rfl rfl rfl) trivial
  have waited := left.move (.finished rfl rfl) trivial
  have joined := waited.move (.join rfl rfl (fun task member => (nomatch member))
    (fun batcher member => (nomatch member))) trivial
  have empty := holds (workerNode 1) unbatched (.fixed 1) queuedStore rfl _ joined rfl
  have listed : "report/7" ∈ ([] : List JobId) := by
    rw [← empty]
    decide
  cases listed

end Oxana
