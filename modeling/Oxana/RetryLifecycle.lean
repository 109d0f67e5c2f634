import Oxana.BatchRun
import Oxana.Promotion
import Oxana.StoredRuns

/-!
The life of one job whose every attempt fails, from its enqueue to the dead list.  A run
interleaves the steps of the job with arbitrary steps of others that leave it alone; the
number of errors so far is the number of retries in the stored envelope.  The texts are kept as
they will be read, so what is persisted may not be nested too deep.
-/

namespace Oxana

open Program

variable {reread : String → String} {id : JobId} {store before after : Store}
  {original envelope : JobEnvelope} {maxRetries : Nat}

def buriedAs (id : JobId) : Payload → Bool
  | .json envelope => envelope.id == id
  | .malformed _ => false

/-- What stays the same through all attempts. -/
structure SameJob (original envelope : JobEnvelope) : Prop where
  id : envelope.id = original.id
  job : envelope.job = original.job
  queue : envelope.queue = original.queue
  unique : envelope.metadata.unique = original.metadata.unique
  onConflict : envelope.metadata.onConflict = original.metadata.onConflict
  createdAt : envelope.metadata.createdAt = original.metadata.createdAt
  scheduledAt : envelope.metadata.scheduledAt = original.metadata.scheduledAt
  resurrect : envelope.metadata.resurrect = original.metadata.resurrect
  throttleCost : envelope.metadata.throttleCost = original.metadata.throttleCost

/-- A step of others; they may trim the dead list. -/
structure Untouched (id : JobId) (before after : Store) : Prop where
  text : after.jobs.get id = before.jobs.get id
  occurs : after.occurrences id = before.occurrences id
  listed : ∀ key, id ∈ after.lists.get key ↔ id ∈ before.lists.get key
  delayed : ∀ name score,
    (after.delayed name).Holds id score ↔ (before.delayed name).Holds id score
  buried : (after.dead.filter (buriedAs id)).Sublist (before.dead.filter (buriedAs id))
  executed : executions id after = executions id before

inductive JobPhase
  | resting
  | taken (storage : StorageInternal)
  | running (storage : StorageInternal) (handed : JobEnvelope)

def JobPhase.holder : JobPhase → Option StorageInternal
  | resting => none
  | taken storage => some storage
  | running storage _ => some storage

def JobPhase.begun : JobPhase → Nat
  | running _ _ => 1
  | _ => 0

structure JobLife where
  store : Store
  phase : JobPhase
  errors : List String

def OwnTexts (store : Store) : Prop :=
  ∀ id text, store.jobs.get id = some text → ∃ envelope, text = .json envelope ∧ envelope.id = id

def startSingle (job : StorageInternal.Attempt) (envelope : JobEnvelope) : Redis Unit := do
  let prepared := if job.shouldResume then envelope else envelope.withState none
  let started ← StorageInternal.setStartedAt job.startedAt prepared
  ask (.execute started)

def startBatch (batch : StorageInternal.BatchAttempt) (envelopes : List JobEnvelope) :
    Redis Unit := do
  let prepared :=
    if batch.shouldResume then envelopes
    else envelopes.map fun envelope => envelope.withState none
  let started ← StorageInternal.setStartedAtBatch batch.startedAt prepared
  Program.batch (started.map .execute)

/-- The steps of a job that fails whenever it is run. -/
inductive LifeStep (reread : String → String) (id : JobId) (maxRetries : Nat) :
    JobLife → JobLife → Prop
  | other {life : JobLife} {after : Store} (untouched : Untouched id life.store after) :
      LifeStep reread id maxRetries life { life with store := after }
  | dequeue {life : JobLife} (storage : StorageInternal) (queue : String)
      (resting : life.phase = .resting)
      (got : (runStored reread (storage.dequeue queue) life.store).1 = some (.ok (some id))) :
      LifeStep reread id maxRetries life
        { life with
          store := (runStored reread (storage.dequeue queue) life.store).2
          phase := .taken storage }
  | start {life : JobLife} {storage : StorageInternal} {envelope : JobEnvelope}
      (job : StorageInternal.Attempt) (taken : life.phase = .taken storage)
      (loaded : life.store.jobs.get id = some (.json envelope)) :
      LifeStep reread id maxRetries life
        { life with
          store := (runStored reread (startSingle job envelope) life.store).2
          phase := .running storage (job.handed envelope) }
  | startBatch {life : JobLife} {storage : StorageInternal} {envelope : JobEnvelope}
      {envelopes : List JobEnvelope} (batch : StorageInternal.BatchAttempt)
      (taken : life.phase = .taken storage)
      (loaded : life.store.jobs.get id = some (.json envelope)) (member : envelope ∈ envelopes)
      (distinct : (envelopes.map JobEnvelope.id).Nodup) :
      LifeStep reread id maxRetries life
        { life with
          store := (runStored reread (startBatch batch envelopes) life.store).2
          phase := .running storage ((batch.single 0).handed envelope) }
  | updateState {life : JobLife} {storage : StorageInternal} {handed : JobEnvelope} (state : Json)
      (shallow : state.depth ≤ Json.nestedLimit) (running : life.phase = .running storage handed) :
      LifeStep reread id maxRetries life
        { life with
          store := (runStored reread (StorageInternal.updateState id state) life.store).2 }
  | fail {life : JobLife} {storage : StorageInternal} {handed : JobEnvelope} (now : Int)
      (message : String) (delay : Nat) (running : life.phase = .running storage handed) :
      LifeStep reread id maxRetries life
        { store :=
            (runStored reread (storage.handleErr now message handed delay maxRetries) life.store).2
          phase := .resting
          errors := life.errors ++ [message] }
  | promote {life : JobLife} (storage : StorageInternal) (now : Int) (name : DelayedSet)
      (own : OwnTexts life.store) :
      LifeStep reread id maxRetries life
        { life with store := (runStored reread (storage.enqueueScheduled now name) life.store).2 }

/-! The invariant of the life. -/

structure Living (original : JobEnvelope) (maxRetries : Nat) (life : JobLife) : Prop where
  stored : ∃ envelope, life.store.jobs.get original.id = some (.json envelope) ∧
    SameJob original envelope ∧ envelope.metadata.retries = life.errors.length ∧
    envelope.Shallow
  once : life.store.occurrences original.id = 1
  unburied : life.store.dead.filter (buriedAs original.id) = []
  allowed : life.errors.length ≤ maxRetries
  held : ∀ storage, life.phase.holder = some storage →
    original.id ∈ life.store.lists.get storage.currentProcessingQueue
  handed : ∀ storage envelope, life.phase = .running storage envelope →
    SameJob original envelope ∧ envelope.metadata.retries = life.errors.length ∧
    envelope.Shallow
  queued : life.phase = .resting → ∀ key, original.id ∈ life.store.lists.get key →
    ∃ storage : StorageInternal, key = storage.namespaceQueue original.queue
  due : ∀ name score, (life.store.delayed name).Holds original.id score → 0 ≤ score

structure Ended (original : JobEnvelope) (maxRetries : Nat) (life : JobLife) : Prop where
  resting : life.phase = .resting
  text : life.store.jobs.get original.id = none
  nowhere : life.store.occurrences original.id = 0
  exhausted : life.errors.length = maxRetries + 1

structure Course (original : JobEnvelope) (maxRetries base : Nat) (life : JobLife) : Prop where
  state : Living original maxRetries life ∨ Ended original maxRetries life
  counted : executions original.id life.store = base + life.errors.length + life.phase.begun

theorem SameJob.trans {middle : JobEnvelope} (early : SameJob original middle)
    (late : SameJob middle envelope) : SameJob original envelope :=
  ⟨late.id.trans early.id, late.job.trans early.job, late.queue.trans early.queue,
    late.unique.trans early.unique, late.onConflict.trans early.onConflict,
    late.createdAt.trans early.createdAt, late.scheduledAt.trans early.scheduledAt,
    late.resurrect.trans early.resurrect, late.throttleCost.trans early.throttleCost⟩

theorem sameJob_normalized (envelope : JobEnvelope) : SameJob envelope (normalized envelope) :=
  ⟨rfl, rfl, rfl, rfl, rfl, rfl, rfl, rfl, rfl⟩

theorem sameJob_withState (envelope : JobEnvelope) (state : Option Json) :
    SameJob envelope (envelope.withState state) :=
  ⟨rfl, rfl, rfl, rfl, rfl, rfl, rfl, rfl, rfl⟩

theorem sameJob_withRetriesIncremented (envelope : JobEnvelope) (message : String) :
    SameJob envelope (envelope.withRetriesIncremented message) :=
  ⟨rfl, rfl, rfl, rfl, rfl, rfl, rfl, rfl, rfl⟩

theorem sameJob_handed (job : StorageInternal.Attempt) (envelope : JobEnvelope) :
    SameJob envelope (job.handed envelope) := by
  unfold StorageInternal.Attempt.handed
  split
  · exact ⟨rfl, rfl, rfl, rfl, rfl, rfl, rfl, rfl, rfl⟩
  · exact ⟨rfl, rfl, rfl, rfl, rfl, rfl, rfl, rfl, rfl⟩

theorem shallow_normalized : (normalized envelope).Shallow ↔ envelope.Shallow :=
  and_congr_right fun _ => depth_readBackState

theorem shallow_withState (shallow : envelope.Shallow) {state : Option Json}
    (fits : ∀ value ∈ state, value.depth ≤ Json.nestedLimit) :
    (envelope.withState state).Shallow :=
  ⟨shallow.1, fits⟩

theorem shallow_handed (job : StorageInternal.Attempt) (shallow : envelope.Shallow) :
    (job.handed envelope).Shallow := by
  unfold StorageInternal.Attempt.handed
  split
  · exact shallow
  · exact shallow_withState shallow fun _ impossible => nomatch impossible

theorem sameJob_withNumbers (legible : original.job.args.Legible reread)
    (same : SameJob original envelope) : SameJob envelope (envelope.withNumbers reread) := by
  refine ⟨rfl, ?_, rfl, rfl, rfl, rfl, rfl, rfl, rfl⟩
  unfold JobEnvelope.withNumbers
  rw [same.job, legible.numbers]

theorem handed_retries (job : StorageInternal.Attempt) (envelope : JobEnvelope) :
    (job.handed envelope).metadata.retries = envelope.metadata.retries := by
  unfold StorageInternal.Attempt.handed
  split <;> rfl

theorem notMem_of_occurrences (nowhere : store.occurrences id = 0) (key : String) :
    id ∉ store.lists.get key := by
  have bound := count_le_occurrences store id key
  intro member
  have positive := List.count_pos_iff.mpr member
  omega

theorem notMem_delayed_of_occurrences (nowhere : store.occurrences id = 0) (name : DelayedSet) :
    id ∉ (store.delayed name).members := by
  have bound := memberCount_delayed_le_occurrences store name id
  intro member
  rw [memberCount, if_pos member] at bound
  omega

theorem memberCount_eq_zero_of_listed (once : store.occurrences id = 1) {key : String}
    (listed : id ∈ store.lists.get key) (name : DelayedSet) :
    memberCount (store.delayed name) id = 0 := by
  have inside : (store.lists.get key).count id ≤ store.inLists everyList id :=
    count_le_inLists everyList store id key rfl
  have positive := List.count_pos_iff.mpr listed
  unfold Store.occurrences Store.inDelayed at once
  cases name <;> simp only [Store.delayed] <;> omega

/-! What one step keeps. -/

theorem Living.other {life : JobLife} (living : Living original maxRetries life)
    (untouched : Untouched original.id life.store after) :
    Living original maxRetries { life with store := after } where
  stored := by
    obtain ⟨envelope, found, same, retries⟩ := living.stored
    exact ⟨envelope, untouched.text.trans found, same, retries⟩
  once := untouched.occurs.trans living.once
  unburied := List.sublist_nil.mp (living.unburied ▸ untouched.buried)
  allowed := living.allowed
  held := fun storage holder => (untouched.listed _).mpr (living.held storage holder)
  handed := living.handed
  queued := fun resting key listed => living.queued resting key ((untouched.listed key).mp listed)
  due := fun name score holds => living.due name score ((untouched.delayed name score).mp holds)

theorem Course.other {life : JobLife} {base : Nat} (course : Course original maxRetries base life)
    (untouched : Untouched original.id life.store after) :
    Course original maxRetries base { life with store := after } where
  state := by
    rcases course.state with living | ended
    · exact Or.inl (living.other untouched)
    · exact Or.inr ⟨ended.resting, untouched.text.trans ended.text,
        untouched.occurs.trans ended.nowhere, ended.exhausted⟩
  counted := untouched.executed.trans course.counted

theorem mem_moveLast {source destination : String}
    (got : (moveLast store source destination).1 = some id) :
    id ∈ (moveLast store source destination).2.lists.get destination ∧
      id ∈ store.lists.get source := by
  unfold moveLast at got ⊢
  cases last : (store.lists.get source).getLast? with
  | none =>
      rw [last] at got
      cases got
  | some moved =>
      rw [last] at got
      cases got
      refine ⟨?_, List.mem_of_getLast? last⟩
      dsimp only
      rw [SparseMap.get_set_self]
      exact List.mem_cons_self

theorem moveLast_rest (store : Store) (source destination : String) :
    (moveLast store source destination).2 =
      { store with lists := (moveLast store source destination).2.lists } := by
  unfold moveLast
  split <;> rfl

theorem Course.dequeue {life : JobLife} {base : Nat}
    (course : Course original maxRetries base life) (storage : StorageInternal) (queue : String)
    (resting : life.phase = .resting)
    (got : (runStored reread (storage.dequeue queue) life.store).1 =
      some (.ok (some original.id))) :
    Course original maxRetries base
      { life with
        store := (runStored reread (storage.dequeue queue) life.store).2
        phase := .taken storage } := by
  rw [StorageInternal.runStored_dequeue, StorageInternal.runAlone_dequeue] at got ⊢
  have found : (moveLast life.store (storage.namespaceQueue queue)
      storage.currentProcessingQueue).1 = some original.id := by
    simpa using got
  obtain ⟨inside, before⟩ := mem_moveLast found
  have moved := occurrences_moveLast life.store (storage.namespaceQueue queue)
    storage.currentProcessingQueue original.id
  have rest := moveLast_rest life.store (storage.namespaceQueue queue)
    storage.currentProcessingQueue
  generalize (moveLast life.store (storage.namespaceQueue queue)
    storage.currentProcessingQueue).2 = after at inside moved rest
  refine ⟨?_, ?_⟩
  · rcases course.state with living | ended
    · left
      refine ⟨?_, moved.trans living.once, ?_, living.allowed, ?_, ?_, ?_, ?_⟩
      · rw [rest]
        exact living.stored
      · rw [rest]
        exact living.unburied
      · intro holder same
        cases same
        exact inside
      · intro holder envelope same
        cases same
      · intro resting
        cases resting
      · rw [rest]
        exact living.due
    · exact absurd before (notMem_of_occurrences ended.nowhere _)
  · have counted := course.counted
    rw [resting] at counted
    rw [rest]
    exact counted

theorem Course.begin {life : JobLife} {base : Nat} {storage : StorageInternal}
    {log : List JobEnvelope} (course : Course original maxRetries base life)
    (legible : original.job.args.Legible reread) (job : StorageInternal.Attempt)
    (taken : life.phase = .taken storage)
    (loaded : life.store.jobs.get original.id = some (.json envelope))
    (text : after.jobs.get original.id = some (settle reread (toText (job.handed envelope))))
    (rest : after = { life.store with
      jobs := after.jobs, executed := life.store.executed ++ log })
    (alone : (log.filter fun envelope => envelope.id == original.id).length = 1) :
    Course original maxRetries base
      { life with store := after, phase := .running storage (job.handed envelope) } := by
  have occurs : after.occurrences original.id = life.store.occurrences original.id := by
    rw [rest]
    rfl
  refine ⟨?_, ?_⟩
  · rcases course.state with living | ended
    · left
      obtain ⟨stored, found, original, agree, shallow⟩ := living.stored
      rw [loaded] at found
      cases found
      have same := original.trans (sameJob_handed job envelope)
      have retries := (handed_retries job envelope).trans agree
      have fits := shallow_handed job shallow
      rw [settle_of_shallow fits] at text
      refine ⟨⟨_, text, (same.trans (sameJob_withNumbers legible same)).trans
        (sameJob_normalized _), retries, ?_⟩, occurs.trans living.once, ?_, living.allowed, ?_, ?_,
        ?_, ?_⟩
      · exact shallow_normalized.mpr (shallow_withNumbers.mpr fits)
      · rw [rest]
        exact living.unburied
      · intro holder running
        cases running
        rw [rest]
        exact living.held storage (by rw [taken]; rfl)
      · intro holder envelope running
        cases running
        exact ⟨same, retries, fits⟩
      · intro resting
        cases resting
      · rw [rest]
        exact living.due
    · have resting := ended.resting
      rw [taken] at resting
      cases resting
  · have counted := course.counted
    rw [taken] at counted
    have grown : executions original.id after = executions original.id life.store + 1 := by
      have appended := executions_append original.id { life.store with jobs := after.jobs } log
      rw [alone] at appended
      rw [rest]
      exact appended
    change executions original.id after = base + life.errors.length + 1
    rw [grown, counted]
    rfl

theorem Course.start {life : JobLife} {base : Nat} {storage : StorageInternal}
    (course : Course original maxRetries base life)
    (legible : original.job.args.Legible reread) (job : StorageInternal.Attempt)
    (taken : life.phase = .taken storage)
    (loaded : life.store.jobs.get original.id = some (.json envelope))
    (own : envelope.id = original.id) :
    Course original maxRetries base
      { life with
        store := (runStored reread (startSingle job envelope) life.store).2
        phase := .running storage (job.handed envelope) } := by
  have handedId : (job.handed envelope).id = original.id := (job.handed_id envelope).trans own
  have ran : (runStored reread (startSingle job envelope) life.store).2 =
      { life.store with
        jobs := life.store.jobs.set (job.handed envelope).id
          (some (settle reread (toText (job.handed envelope))))
        executed := life.store.executed ++ [job.handed envelope] } := rfl
  rw [ran]
  refine course.begin legible job taken loaded ?_ rfl ?_
  · rw [handedId]
    exact SparseMap.get_set_self _ _ _
  · simp [handedId]

theorem filter_own_length {envelopes : List JobEnvelope}
    (distinct : (envelopes.map JobEnvelope.id).Nodup) (member : envelope ∈ envelopes) :
    (envelopes.filter fun other => other.id == envelope.id).length = 1 := by
  have counted : (envelopes.filter fun other => other.id == envelope.id).length =
      (envelopes.map JobEnvelope.id).count envelope.id := by
    rw [List.count, List.countP_map, List.countP_eq_length_filter]
    rfl
  rw [counted]
  exact List.count_eq_one_of_mem distinct (List.mem_map_of_mem member)

theorem served_executes_stored (envelopes : List JobEnvelope) (store : Store) :
    served (serveStored reread) store (envelopes.map .execute) =
      { store with executed := store.executed ++ envelopes } := by
  have same : served (serveStored reread) store (envelopes.map .execute) =
      served serve store (envelopes.map .execute) := by
    induction envelopes generalizing store with
    | nil => rfl
    | cons envelope rest ih => exact ih _
  rw [same, StorageInternal.served_executes]

def settledTexts (reread : String → String) (batch : StorageInternal.BatchAttempt)
    (envelopes : List JobEnvelope) : List (JobId × Payload) :=
  (envelopes.map (batch.single 0).handed).map fun envelope =>
    (envelope.id, settle reread (toText envelope))

theorem settledTexts_get (batch : StorageInternal.BatchAttempt)
    (jobs : SparseMap JobId (Option Payload) none) {envelopes : List JobEnvelope}
    (distinct : (envelopes.map JobEnvelope.id).Nodup)
    (member : envelope ∈ envelopes.map (batch.single 0).handed) :
    (setFields jobs (settledTexts reread batch envelopes)).get envelope.id =
      some (settle reread (toText envelope)) := by
  have ids : (settledTexts reread batch envelopes).map Prod.fst =
      envelopes.map JobEnvelope.id := by
    unfold settledTexts
    rw [List.map_map]
    exact StorageInternal.handed_ids batch envelopes
  have inside : (envelope.id, settle reread (toText envelope)) ∈
      settledTexts reread batch envelopes := List.mem_map.mpr ⟨envelope, member, rfl⟩
  exact StorageInternal.setFields_get_of_mem jobs (by rwa [ids]) inside

theorem runStored_setStartedAtBatch (reread : String → String)
    (batch : StorageInternal.BatchAttempt) (store : Store) {envelopes : List JobEnvelope}
    (nonempty : envelopes ≠ []) :
    runStored reread (StorageInternal.setStartedAtBatch batch.startedAt
      (if batch.shouldResume then envelopes
        else envelopes.map fun envelope => envelope.withState none)) store =
      (some (.ok (envelopes.map (batch.single 0).handed)),
        { store with jobs := setFields store.jobs (settledTexts reread batch envelopes) }) := by
  have written : served (serveStored reread) store
      [.hsetMultiple ((envelopes.map (batch.single 0).handed).map fun envelope =>
        (envelope.id, toText envelope))] =
      { store with jobs := setFields store.jobs (settledTexts reread batch envelopes) } := by
    unfold settledTexts
    change { store with jobs := setFields store.jobs (List.map _ (List.map _ _)) } = _
    rw [List.map_map]
    rfl
  unfold StorageInternal.setStartedAtBatch StorageInternal.updateJobs
  rw [StorageInternal.handed_of_prepared, if_neg (by simpa using nonempty), ← written]
  rfl

theorem store_of_startBatch (reread : String → String) (batch : StorageInternal.BatchAttempt)
    (store : Store) {envelopes : List JobEnvelope} (nonempty : envelopes ≠ []) :
    (runStored reread (Oxana.startBatch batch envelopes) store).2 =
      { store with
        jobs := setFields store.jobs (settledTexts reread batch envelopes)
        executed := store.executed ++ envelopes.map (batch.single 0).handed } := by
  unfold Oxana.startBatch
  dsimp only
  rw [runStored_bind, runStored_setStartedAtBatch reread batch store nonempty]
  simp only [resume_ok]
  rw [runStored_batch, served_executes_stored]

theorem Course.startBatch {life : JobLife} {base : Nat} {storage : StorageInternal}
    {envelopes : List JobEnvelope} (course : Course original maxRetries base life)
    (legible : original.job.args.Legible reread) (batch : StorageInternal.BatchAttempt)
    (taken : life.phase = .taken storage)
    (loaded : life.store.jobs.get original.id = some (.json envelope))
    (own : envelope.id = original.id) (member : envelope ∈ envelopes)
    (distinct : (envelopes.map JobEnvelope.id).Nodup) :
    Course original maxRetries base
      { life with
        store := (runStored reread (Oxana.startBatch batch envelopes) life.store).2
        phase := .running storage ((batch.single 0).handed envelope) } := by
  have handedId : ((batch.single 0).handed envelope).id = original.id :=
    ((batch.single 0).handed_id envelope).trans own
  have inside : (batch.single 0).handed envelope ∈ envelopes.map (batch.single 0).handed :=
    List.mem_map_of_mem member
  rw [store_of_startBatch reread batch life.store (List.ne_nil_of_mem member)]
  refine course.begin legible (batch.single 0) taken loaded ?_ rfl ?_
  · rw [← handedId]
    exact settledTexts_get batch life.store.jobs distinct inside
  · rw [← handedId]
    refine filter_own_length ?_ inside
    rw [StorageInternal.handed_ids]
    exact distinct

theorem Course.updateState {life : JobLife} {base : Nat} {storage : StorageInternal}
    {handed : JobEnvelope} (course : Course original maxRetries base life)
    (legible : original.job.args.Legible reread) {state : Json}
    (fits : state.depth ≤ Json.nestedLimit) (running : life.phase = .running storage handed) :
    Course original maxRetries base
      { life with
        store := (runStored reread (StorageInternal.updateState original.id state)
          life.store).2 } := by
  rcases course.state with living | ended
  · obtain ⟨stored, found, same, retries, shallow⟩ := living.stored
    have written : (stored.withState (some state)).Shallow := by
      refine shallow_withState shallow ?_
      rintro _ ⟨⟩
      exact fits
    have kept := same.trans (sameJob_withState stored (some state))
    rw [StorageInternal.runStored_updateState found, same.id, settle_of_shallow written]
    refine ⟨Or.inl ⟨⟨_, SparseMap.get_set_self _ _ _, ?_, retries, ?_⟩, living.once,
      living.unburied, living.allowed, living.held, living.handed, living.queued, living.due⟩,
      course.counted⟩
    · exact (kept.trans (sameJob_withNumbers legible kept)).trans (sameJob_normalized _)
    · exact shallow_normalized.mpr (shallow_withNumbers.mpr written)
  · have resting := ended.resting
    rw [running] at resting
    cases resting

theorem Ends.occurrences {storage : StorageInternal} {ending : Ending} {log : List JobEnvelope}
    (ends : Ends storage id ending log before after) (other : JobId) :
    after.occurrences other + (before.lists.get storage.currentProcessingQueue).count other +
        memberCount before.retry other =
      before.occurrences other +
        ((before.lists.get storage.currentProcessingQueue).erase id).count other +
        memberCount (ending.retried id before.retry) other := by
  have erased := occurrences_withList before other storage.currentProcessingQueue
    ((before.lists.get storage.currentProcessingQueue).erase id)
  have retried := occurrences_setDelayed (before.withList storage.currentProcessingQueue
    ((before.lists.get storage.currentProcessingQueue).erase id)) .retry other
      (ending.retried id before.retry)
  have same : after.occurrences other = ((before.withList storage.currentProcessingQueue
      ((before.lists.get storage.currentProcessingQueue).erase id)).setDelayed .retry
        (ending.retried id before.retry)).occurrences other := by
    refine occurrences_congr other ?_ ends.elsewhere.schedule ends.retry
    intro key
    rw [ends.lists, setDelayed_lists]
    simp only [Store.withList, SparseMap.get_set]
    split
    · rename_i own
      rw [own]
    · rfl
  have kept : memberCount ((before.withList storage.currentProcessingQueue
      ((before.lists.get storage.currentProcessingQueue).erase id)).delayed .retry) other =
        memberCount before.retry other := rfl
  omega

theorem Ends.untouched {storage : StorageInternal} {ending : Ending} {other : JobId}
    (ends : Ends storage other ending [] before after) (different : id ≠ other)
    (buried : ∀ text, ending.buried = some text → buriedAs id text = false) :
    Untouched id before after where
  text := ends.others id different
  occurs := by
    have moved := ends.occurrences id
    have retried : memberCount (ending.retried other before.retry) id =
        memberCount before.retry id := by
      unfold Ending.retried
      split
      · rw [memberCount_insert, if_neg different]
      · rfl
    rw [List.count_erase_of_ne different] at moved
    omega
  listed := by
    intro key
    rw [ends.lists]
    split
    · exact List.mem_erase_of_ne different
    · rfl
  delayed := by
    intro name score
    cases name with
    | schedule => exact iff_of_eq (congrArg (RankedSet.Holds · id score) ends.elsewhere.schedule)
    | retry =>
        change after.retry.Holds id score ↔ before.retry.Holds id score
        rw [ends.retry]
        unfold Ending.retried
        split
        · rw [RankedSet.holds_insert]
          constructor
          · rintro (⟨same, _⟩ | ⟨holds, _⟩)
            · exact absurd same different
            · exact holds
          · exact fun holds => Or.inr ⟨holds, different⟩
        · rfl
  buried := by
    rw [ends.dead]
    unfold Ending.buriedIn
    split
    · rename_i text entry
      rw [List.take_succ_cons, List.filter_cons_of_neg (by simp [buried text entry])]
      exact (List.take_sublist _ _).filter _
    · exact List.Sublist.refl _
  executed := by
    unfold executions
    rw [ends.executed, List.append_nil]

/-! A failure. -/

structure Retried (original : JobEnvelope) (count : Nat) (message : String) (score : Int)
    (store : Store) : Prop where
  stored : ∃ envelope, store.jobs.get original.id = some (.json envelope) ∧
    SameJob original envelope ∧ envelope.metadata.retries = count ∧
    envelope.metadata.error = some message ∧ envelope.metadata.startedAt = none
  waits : store.retry.Holds original.id score
  unlisted : ∀ key, original.id ∉ store.lists.get key
  unscheduled : original.id ∉ store.schedule.members

structure BuriedOnce (original : JobEnvelope) (count : Nat) (message : String) (store : Store) :
    Prop where
  text : store.jobs.get original.id = none
  unlisted : ∀ key, original.id ∉ store.lists.get key
  undelayed : ∀ name, original.id ∉ (store.delayed name).members
  entry : ∃ envelope, store.dead.filter (buriedAs original.id) = [.json envelope] ∧
    SameJob original envelope ∧ envelope.metadata.retries = count ∧
    envelope.metadata.error = some message

section Failure

variable {life : JobLife} {storage : StorageInternal} {handed : JobEnvelope}

/-- The store after `handle_err` of the handed envelope; what was stored and what was handed over
are written with their numbers read again. -/
theorem Living.ends (living : Living original maxRetries life)
    (legible : original.job.args.Legible reread) (running : life.phase = .running storage handed)
    (now : Int) (message : String) (delay : Nat) :
    ∃ stored buried, SameJob original stored ∧ stored.metadata.retries = life.errors.length ∧
      stored.Shallow ∧ SameJob original buried ∧
      buried.metadata.retries = life.errors.length ∧
      Ends storage original.id (.failed now message delay maxRetries buried stored) [] life.store
        (runStored reread (storage.handleErr now message handed delay maxRetries)
          life.store).2 := by
  obtain ⟨stored, found, same, retries, shallow⟩ := living.stored
  obtain ⟨sameHanded, handedRetries, fits⟩ := living.handed storage handed running
  rw [← sameHanded.id] at found
  have ends := ends_handleErr_stored reread storage now message delay maxRetries found
    (same.id.trans sameHanded.id.symm) fits shallow
  rw [sameHanded.id] at ends
  exact ⟨_, _, same.trans (sameJob_withNumbers legible same), retries,
    shallow_withNumbers.mpr shallow,
    sameHanded.trans (sameJob_withNumbers legible sameHanded), handedRetries, ends⟩

theorem Living.erased (living : Living original maxRetries life)
    (running : life.phase = .running storage handed) :
    (life.store.lists.get storage.currentProcessingQueue).count original.id = 1 ∧
      ((life.store.lists.get storage.currentProcessingQueue).erase original.id).count original.id =
        0 ∧ ∀ name, memberCount (life.store.delayed name) original.id = 0 := by
  have listed := living.held storage (by rw [running]; rfl)
  have positive := List.count_pos_iff.mpr listed
  have bound := count_le_occurrences life.store original.id storage.currentProcessingQueue
  rw [living.once] at bound
  refine ⟨by omega, ?_, memberCount_eq_zero_of_listed living.once listed⟩
  rw [List.count_erase_self]
  omega

theorem Living.retried (living : Living original maxRetries life)
    (legible : original.job.args.Legible reread) (running : life.phase = .running storage handed)
    (now : Int) (message : String) (delay : Nat) (left : life.errors.length < maxRetries) :
    Retried original (life.errors.length + 1) message (retryScore now delay)
        (runStored reread (storage.handleErr now message handed delay maxRetries)
          life.store).2 ∧
      (runStored reread (storage.handleErr now message handed delay maxRetries)
        life.store).2.occurrences original.id = 1 ∧
      (runStored reread (storage.handleErr now message handed delay maxRetries)
        life.store).2.dead = life.store.dead ∧
      ∀ envelope, (runStored reread (storage.handleErr now message handed delay maxRetries)
        life.store).2.jobs.get original.id = some (.json envelope) → envelope.Shallow := by
  obtain ⟨stored, buried, same, retries, shallow, _, handedRetries, ends⟩ :=
    living.ends legible running now message delay
  obtain ⟨once, gone, undelayed⟩ := living.erased running
  have lower : buried.metadata.retries < maxRetries := by
    rw [handedRetries]
    exact left
  rw [Ending.failed, if_pos lower] at ends
  generalize (runStored reread (storage.handleErr now message handed delay maxRetries)
    life.store).2 = after at ends
  have moved := ends.occurrences original.id
  have waits : after.retry.Holds original.id (retryScore now delay) := by
    rw [ends.retry]
    exact (RankedSet.holds_insert _ _ _ _ _).mpr (Or.inl ⟨rfl, rfl⟩)
  have placed : memberCount after.retry original.id = 1 :=
    if_pos ((RankedSet.mem_members _ _).mpr ⟨_, waits⟩)
  have unretried : memberCount life.store.retry original.id = 0 := undelayed .retry
  rw [← ends.retry, placed, once, gone, unretried, living.once] at moved
  refine ⟨⟨?_, waits, ?_, ?_⟩, by omega, ends.dead, ?_⟩
  · refine ⟨_, ends.text, ?_, ?_, rfl, rfl⟩
    · exact (same.trans (sameJob_withRetriesIncremented stored message)).trans
        (sameJob_normalized _)
    · change stored.metadata.retries + 1 = _
      rw [retries]
  · intro key listed
    have inside := memberCount_eq_zero_of_listed (by omega) listed .retry
    rw [Store.delayed, placed] at inside
    omega
  · have scheduled : memberCount life.store.schedule original.id = 0 := undelayed .schedule
    intro member
    rw [ends.elsewhere.schedule] at member
    rw [memberCount, if_pos member] at scheduled
    omega
  · intro envelope found
    rw [ends.text] at found
    cases found
    exact shallow_normalized.mpr shallow

theorem filter_buried {entry : Payload} {dead : List Payload} (own : buriedAs id entry = true)
    (unburied : dead.filter (buriedAs id) = []) :
    ((entry :: dead).take 1000).filter (buriedAs id) = [entry] := by
  have rest : (dead.take 999).filter (buriedAs id) = [] := by
    apply List.sublist_nil.mp
    rw [← unburied]
    exact (List.take_sublist _ _).filter _
  rw [List.take_succ_cons, List.filter_cons_of_pos own, rest]

theorem Living.buried (living : Living original maxRetries life)
    (legible : original.job.args.Legible reread) (running : life.phase = .running storage handed)
    (now : Int) (message : String) (delay : Nat) (last : life.errors.length = maxRetries) :
    BuriedOnce original maxRetries message
        (runStored reread (storage.handleErr now message handed delay maxRetries)
          life.store).2 ∧
      (runStored reread (storage.handleErr now message handed delay maxRetries)
        life.store).2.occurrences original.id = 0 := by
  obtain ⟨stored, buried, same, retries, _, sameBuried, handedRetries, ends⟩ :=
    living.ends legible running now message delay
  obtain ⟨once, gone, undelayed⟩ := living.erased running
  have exhausted : ¬buried.metadata.retries < maxRetries := by omega
  rw [Ending.failed, if_neg exhausted] at ends
  generalize (runStored reread (storage.handleErr now message handed delay maxRetries)
    life.store).2 = after at ends
  have moved := ends.occurrences original.id
  have unretried : memberCount life.store.retry original.id = 0 := undelayed .retry
  rw [← ends.retry, once, gone, living.once, ends.retry] at moved
  have nowhere : after.occurrences original.id = 0 := by
    change _ = _ + memberCount life.store.retry original.id at moved
    omega
  refine ⟨⟨ends.text, notMem_of_occurrences nowhere, notMem_delayed_of_occurrences nowhere, ?_⟩,
    nowhere⟩
  refine ⟨normalized (buried.withError message), ?_, ?_, handedRetries.trans last, rfl⟩
  · rw [ends.dead]
    refine filter_buried ?_ living.unburied
    change (buried.id == original.id) = true
    rw [sameBuried.id, beq_self_eq_true]
  · exact sameBuried.trans ⟨rfl, rfl, rfl, rfl, rfl, rfl, rfl, rfl, rfl⟩

theorem Course.living {base : Nat} (course : Course original maxRetries base life)
    (running : life.phase = .running storage handed) : Living original maxRetries life := by
  rcases course.state with living | ended
  · exact living
  · have resting := ended.resting
    rw [running] at resting
    cases resting

theorem Course.fail {base : Nat} (course : Course original maxRetries base life)
    (legible : original.job.args.Legible reread) (running : life.phase = .running storage handed)
    (now : Int) (message : String) (delay : Nat) :
    Course original maxRetries base
      { store :=
          (runStored reread (storage.handleErr now message handed delay maxRetries) life.store).2
        phase := .resting
        errors := life.errors ++ [message] } := by
  have living := course.living running
  have grown : (life.errors ++ [message]).length = life.errors.length + 1 := by simp
  refine ⟨?_, ?_⟩
  · by_cases left : life.errors.length < maxRetries
    · obtain ⟨retried, once, dead, shallow⟩ :=
        living.retried legible running now message delay left
      obtain ⟨stored, found, same, retries, _⟩ := retried.stored
      left
      refine ⟨⟨stored, found, same, retries.trans grown.symm, shallow stored found⟩, once,
        ?_, ?_, ?_, ?_, ?_, ?_⟩
      · rw [dead]
        exact living.unburied
      · rw [grown]
        exact left
      · intro storage holder
        cases holder
      · intro storage envelope running
        cases running
      · intro _ key listed
        exact absurd listed (retried.unlisted key)
      · intro name score holds
        cases name with
        | schedule =>
            exact absurd ((RankedSet.mem_members _ _).mpr ⟨score, holds⟩) retried.unscheduled
        | retry =>
            rw [RankedSet.holds_unique _ holds retried.waits]
            exact Int.emod_nonneg _ (by decide)
    · have last : life.errors.length = maxRetries := by
        have allowed := living.allowed
        omega
      obtain ⟨buried, nowhere⟩ := living.buried legible running now message delay last
      right
      exact ⟨rfl, buried.text, nowhere, by rw [grown, last]⟩
  · obtain ⟨stored, buried, _, _, _, _, _, ends⟩ :=
      living.ends legible running now message delay
    have counted := course.counted
    rw [running] at counted
    have same : executions original.id
        (runStored reread (storage.handleErr now message handed delay maxRetries)
          life.store).2 = executions original.id life.store := by
      unfold executions
      rw [ends.executed, List.append_nil]
    change executions original.id
      (runStored reread (storage.handleErr now message handed delay maxRetries) life.store).2 =
        base + (life.errors ++ [message]).length + 0
    rw [same, counted, grown]
    rfl

end Failure

/-! Promotion. -/

theorem storedEnvelopes_ids (own : OwnTexts store) {ids : List JobId}
    (found : id ∈ ids → store.jobs.get id ≠ none) :
    (((ids.map store.jobs.get).filterMap storedEnvelope).map JobEnvelope.id).count id =
      ids.count id := by
  induction ids with
  | nil => rfl
  | cons first rest ih =>
      have tail := ih fun member => found (List.mem_cons_of_mem _ member)
      rw [List.map_cons]
      cases stored : store.jobs.get first with
      | none =>
          have different : first ≠ id := by
            rintro rfl
            exact found List.mem_cons_self stored
          rw [List.filterMap_cons_none rfl, List.count_cons_of_ne different]
          exact tail
      | some payload =>
          obtain ⟨envelope, rfl, same⟩ := own first payload stored
          have kept : (some (Payload.json envelope) :: rest.map store.jobs.get).filterMap
              storedEnvelope = envelope :: (rest.map store.jobs.get).filterMap storedEnvelope :=
            rfl
          rw [kept, List.map_cons, List.count_cons, List.count_cons, same, tail]

theorem get_of_storedEnvelopes (own : OwnTexts store) {ids : List JobId}
    (member : envelope ∈ (ids.map store.jobs.get).filterMap storedEnvelope) :
    store.jobs.get envelope.id = some (.json envelope) := by
  obtain ⟨text, read, decoded⟩ := List.mem_filterMap.mp member
  obtain ⟨first, _, rfl⟩ := List.mem_map.mp read
  cases found : store.jobs.get first with
  | none =>
      rw [found] at decoded
      cases decoded
  | some text =>
      obtain ⟨stored, rfl, same⟩ := own first text found
      rw [found] at decoded
      cases decoded
      rw [same, found]

theorem all_decode (own : OwnTexts store) (ids : List JobId) :
    (ids.map store.jobs.get).any undecodable = false := by
  rw [List.any_eq_false]
  intro stored member
  obtain ⟨id, _, rfl⟩ := List.mem_map.mp member
  cases found : store.jobs.get id with
  | none => simp [undecodable]
  | some text =>
      obtain ⟨envelope, rfl, _⟩ := own id text found
      simp [undecodable]

structure Promoted (storage : StorageInternal) (now : Int) (name : DelayedSet) (id : JobId)
    (before after : Store) : Prop where
  occurs : after.occurrences id = before.occurrences id
  listed : ∀ key, id ∈ before.lists.get key → id ∈ after.lists.get key
  rest : after = { before with
    lists := after.lists, schedule := after.schedule, retry := after.retry }
  came : ∀ key envelope, id ∈ after.lists.get key → before.jobs.get id = some (.json envelope) →
    id ∈ before.lists.get key ∨ key = storage.namespaceQueue envelope.queue
  waits : ∀ other score, (after.delayed other).Holds id score → (before.delayed other).Holds id score
  due : ∀ score envelope, (before.delayed name).Holds id score → 0 ≤ score → score ≤ now →
    before.jobs.get id = some (.json envelope) →
      id ∈ after.lists.get (storage.namespaceQueue envelope.queue)

theorem promoted_enqueueScheduled (storage : StorageInternal) (now : Int) (name : DelayedSet)
    (own : OwnTexts store)
    (found : id ∈ (store.delayed name).members → store.jobs.get id ≠ none) :
    Promoted storage now name id store
      (runAlone (storage.enqueueScheduled now name) store).2 := by
  have asked : runAlone (storage.enqueueScheduled now name) store =
      runAlone (storage.claimAndEnqueueScheduledJobIds name
        ((store.delayed name).within 0 now)) store := rfl
  rw [asked, StorageInternal.runAlone_claim]
  generalize due : (store.delayed name).within 0 now = ids
  have dueIds : ∀ score, (store.delayed name).Holds id score → 0 ≤ score → score ≤ now →
      id ∈ ids := by
    intro score holds low high
    rw [← due]
    exact (RankedSet.mem_within _ _ _ _).mpr ⟨score, holds, low, high⟩
  have members : ∀ other ∈ ids, other ∈ (store.delayed name).members := by
    intro other member
    rw [← due] at member
    exact (RankedSet.within_sublist_members _ _ _).subset member
  have claimed : claimedIds ids (claimAll name ids store).1 = ids := by
    refine claimedIds_of_members ?_ members
    rw [← due]
    exact RankedSet.within_nodup _ _ _
  rw [claimed]
  by_cases none : ids = []
  · rw [if_pos none]
    refine ⟨rfl, fun _ member => member, rfl, fun _ _ member _ => Or.inl member,
      fun _ _ holds => holds, ?_⟩
    intro score envelope holds low high _
    have member := dueIds score holds low high
    rw [none] at member
    cases member
  · have jobs : (claimAll name ids store).2.jobs = store.jobs := by
      rw [claimAll_rest]
    have lists : (claimAll name ids store).2.lists = store.lists := by
      rw [claimAll_rest]
    have decoded : decodeAll (ids.map (claimAll name ids store).2.jobs.get) =
        .ok ((ids.map store.jobs.get).filterMap storedEnvelope) := by
      rw [jobs, decodeAll_eq, all_decode own ids]
      rfl
    rw [if_neg none, if_neg none, decoded]
    simp only [resume_ok]
    generalize envelopesEq : (ids.map store.jobs.get).filterMap storedEnvelope = envelopes
    have shuffled := storage.order.perm (groupByQueue envelopes)
    obtain ⟨counted, listed, same⟩ := served_pushes storage.namespaceQueue
      (storage.order.arrange (groupByQueue envelopes)) (claimAll name ids store).2 id
    have removed := occurrences_claimAll name ids store id
    rw [claimed] at removed
    rw [(shuffled.flatMap_right Prod.snd).count_eq, groupByQueue_count, ← envelopesEq,
      storedEnvelopes_ids own fun member => found (members id member), envelopesEq] at counted
    unfold StorageInternal.pushGroups
    refine ⟨by omega, ?_, ?_, ?_, ?_, ?_⟩
    · intro key member
      refine listed key ?_
      rw [lists]
      exact member
    · rw [same, claimAll_rest]
    · intro key envelope member stored
      rcases of_mem_served_pushes storage.namespaceQueue member with before | pushed
      · rw [lists] at before
        exact Or.inl before
      · right
        obtain ⟨queue, group, inGroups, inside, rfl⟩ := pushed
        obtain ⟨pushed, read, rfl, ownId⟩ :=
          (mem_groupByQueue envelopes).mp ⟨group, shuffled.mem_iff.mp inGroups, inside⟩
        rw [← envelopesEq] at read
        have text := get_of_storedEnvelopes own read
        rw [ownId, stored] at text
        cases text
        rfl
    · intro other score holds
      rw [same] at holds
      exact holds_claimAll name ids store id other score (by cases other <;> exact holds)
    · intro score envelope holds low high stored
      have member : envelope ∈ envelopes := by
        rw [← envelopesEq, List.mem_filterMap]
        exact ⟨_, List.mem_map.mpr ⟨id, dueIds score holds low high, stored⟩, rfl⟩
      obtain ⟨sameEnvelope, wrapped, ownId⟩ := own id _ stored
      cases wrapped
      obtain ⟨group, inGroups, inside⟩ :=
        (mem_groupByQueue envelopes).mpr ⟨envelope, member, rfl, ownId⟩
      exact mem_served_pushes storage.namespaceQueue _ (shuffled.mem_iff.mpr inGroups) inside

theorem Course.promote {life : JobLife} {base : Nat}
    (course : Course original maxRetries base life) (storage : StorageInternal) (now : Int)
    (name : DelayedSet) (own : OwnTexts life.store) :
    Course original maxRetries base
      { life with
        store := (runStored reread (storage.enqueueScheduled now name) life.store).2 } := by
  rw [StorageInternal.runStored_enqueueScheduled]
  rcases course.state with living | ended
  · obtain ⟨stored, found, same, retries⟩ := living.stored
    have promoted := promoted_enqueueScheduled storage now name own fun _ => by
      rw [found]
      exact Option.some_ne_none _
    generalize (runAlone (storage.enqueueScheduled now name) life.store).2 = after at promoted
    refine ⟨Or.inl ⟨⟨stored, ?_, same, retries⟩, promoted.occurs.trans living.once, ?_,
      living.allowed, fun holder held => promoted.listed _ (living.held holder held),
      living.handed, ?_, ?_⟩, ?_⟩
    · rw [promoted.rest]
      exact found
    · rw [promoted.rest]
      exact living.unburied
    · intro resting key listed
      rcases promoted.came key stored listed found with before | pushed
      · exact living.queued resting key before
      · exact ⟨storage, by rw [pushed, same.queue]⟩
    · exact fun other score holds => living.due other score (promoted.waits other score holds)
    · rw [promoted.rest]
      exact course.counted
  · have promoted := promoted_enqueueScheduled storage now name own fun member =>
      absurd member (notMem_delayed_of_occurrences ended.nowhere name)
    generalize (runAlone (storage.enqueueScheduled now name) life.store).2 = after at promoted
    refine ⟨Or.inr ⟨ended.resting, ?_, promoted.occurs.trans ended.nowhere, ended.exhausted⟩, ?_⟩
    · rw [promoted.rest]
      exact ended.text
    · rw [promoted.rest]
      exact course.counted

/-! Whole lives. -/

theorem Course.loaded {life : JobLife} {base : Nat}
    (course : Course original maxRetries base life)
    (found : life.store.jobs.get original.id = some (.json envelope)) :
    envelope.id = original.id := by
  rcases course.state with living | ended
  · obtain ⟨stored, kept, same, _⟩ := living.stored
    rw [found] at kept
    cases kept
    exact same.id
  · rw [ended.text] at found
    cases found

theorem Course.step {life next : JobLife} {base : Nat}
    (course : Course original maxRetries base life)
    (legible : original.job.args.Legible reread)
    (step : LifeStep reread original.id maxRetries life next) :
    Course original maxRetries base next := by
  cases step with
  | other untouched => exact course.other untouched
  | dequeue storage queue resting got => exact course.dequeue storage queue resting got
  | start job taken loaded => exact course.start legible job taken loaded (course.loaded loaded)
  | startBatch batch taken loaded member distinct =>
      exact course.startBatch legible batch taken loaded (course.loaded loaded) member distinct
  | updateState state shallow running => exact course.updateState legible shallow running
  | fail now message delay running => exact course.fail legible running now message delay
  | promote storage now name own => exact course.promote storage now name own

theorem Course.run {life next : JobLife} {base : Nat}
    (course : Course original maxRetries base life)
    (legible : original.job.args.Legible reread)
    (steps : Relation.ReflTransGen (LifeStep reread original.id maxRetries) life next) :
    Course original maxRetries base next := by
  induction steps with
  | refl => exact course
  | tail _ step ih => exact ih.step legible step

def JobLife.enqueued (reread : String → String) (storage : StorageInternal) (now : Int)
    (original : JobEnvelope) (store : Store) : JobLife where
  store := (runStored reread (storage.enqueueAt now original) store).2
  phase := .resting
  errors := []

end Oxana
