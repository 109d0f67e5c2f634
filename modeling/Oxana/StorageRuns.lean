import Oxana.ExecutorCore

/-!
What each storage operation does to the store when it runs alone and no command
fails.  Every later argument about whole operations goes through these equations.
-/

namespace Oxana

variable {α β : Type}

@[simp] theorem runAlone_pure (value : α) (store : Store) :
    runAlone (pure value) store = (some (.ok value), store) := rfl

@[simp] theorem runAlone_done (value : α) (store : Store) :
    runAlone (.done value) store = (some (.ok value), store) := rfl

@[simp] theorem runAlone_fail (error : OxanaError) (store : Store) :
    runAlone (.fail error : Redis α) store = (some (.error error), store) := rfl

@[simp] theorem runAlone_halt (store : Store) :
    runAlone (.halt : Redis α) store = (none, store) := rfl

theorem runAlone_bind (program : Redis α) (rest : α → Redis β) (store : Store) :
    runAlone (program >>= rest) store =
      Program.resume (runAlone program store) fun value after => runAlone (rest value) after :=
  Program.run_bind (Program.reliable serve) program rest store

@[simp] theorem runAlone_ask (command : Command) (store : Store) :
    runAlone (ask command) store =
      (some (.ok (serve command store).1), (serve command store).2) := rfl

@[simp] theorem runAlone_ofExcept (result : Except OxanaError α) (store : Store) :
    runAlone (Program.ofExcept result) store = (some result, store) :=
  Program.run_ofExcept (Program.reliable serve) result store

@[simp] theorem runAlone_batch (commands : List Command) (store : Store) :
    runAlone (Program.batch commands) store =
      (some (.ok ()), Program.served serve store commands) :=
  Program.run_batch_reliable serve commands store

theorem runAlone_attempt (program : Redis α) (store : Store) :
    runAlone program.attempt store =
      ((runAlone program store).1.map .ok, (runAlone program store).2) :=
  Program.run_attempt (Program.reliable serve) program store

def normalized (envelope : JobEnvelope) : JobEnvelope :=
  envelope.withState (readBackState envelope.metadata.state)

theorem readBackState_readBackState (state : Option Json) :
    readBackState (readBackState state) = readBackState state := by
  cases state with
  | none => rfl
  | some value => cases value <;> rfl

theorem normalized_normalized (envelope : JobEnvelope) :
    normalized (normalized envelope) = normalized envelope :=
  congrArg envelope.withState (readBackState_readBackState _)

theorem toText_eq (envelope : JobEnvelope) : toText envelope = .json (normalized envelope) := rfl

def lookup (store : Store) (id : JobId) : Except OxanaError (Option JobEnvelope) :=
  match store.jobs.get id with
  | none => .ok none
  | some (.json envelope) => .ok (some envelope)
  | some (.malformed _) => .error .jsonError

theorem lookup_of_json {store : Store} {id : JobId} {envelope : JobEnvelope}
    (found : store.jobs.get id = some (.json envelope)) :
    lookup store id = .ok (some envelope) := by
  simp [lookup, found]

def Readable (store : Store) : Prop :=
  ∀ id text, store.jobs.get id = some text → ∃ envelope, text = .json envelope

theorem lookup_of_none {store : Store} {id : JobId} (missing : store.jobs.get id = none) :
    lookup store id = .ok none := by
  simp [lookup, missing]

namespace StorageInternal

@[simp] theorem runAlone_getJob (id : JobId) (store : Store) :
    runAlone (getJob id) store = (some (lookup store id), store) := by
  unfold getJob lookup
  rw [runAlone_bind, runAlone_ask]
  simp only [serve]
  cases found : store.jobs.get id with
  | none => rfl
  | some text => cases text <;> rfl

def decidedAction (store : Store) (envelope : JobEnvelope) : Except OxanaError JobEnqueueAction :=
  if envelope.metadata.unique = true ∧ (store.jobs.get envelope.id).isSome = true then
    if envelope.metadata.onConflict = some .replace then
      (lookup store envelope.id).map fun
        | some stored => .replace stored.queue
        | none => .default
    else .ok .skip
  else .ok .default

@[simp] theorem runAlone_jobEnqueueAction (envelope : JobEnvelope) (store : Store) :
    runAlone (jobEnqueueAction envelope) store = (some (decidedAction store envelope), store) := by
  unfold jobEnqueueAction decidedAction
  by_cases unique : envelope.metadata.unique = true
  · simp only [unique, if_true, true_and]
    rw [runAlone_bind, runAlone_ask]
    simp only [serve]
    by_cases found : (store.jobs.get envelope.id).isSome = true
    · simp only [found, if_true]
      cases conflict : envelope.metadata.onConflict with
      | none => simp
      | some strategy =>
          cases strategy with
          | skip => simp
          | replace =>
              simp only [if_true, Program.resume_ok]
              rw [runAlone_bind, runAlone_getJob]
              cases result : lookup store envelope.id with
              | error error => rfl
              | ok stored => cases stored <;> rfl
    · simp [found]
  · simp [unique]

def enqueueCommands (storage : StorageInternal) (envelope : JobEnvelope)
    (destination : JobDestination) : JobEnqueueAction → List Command
  | .skip => []
  | .replace existingQueue => storage.appendReplace existingQueue envelope destination
  | .default => storage.appendEnqueue envelope destination

theorem runAlone_enqueueWConn (storage : StorageInternal) (envelope : JobEnvelope)
    (destination : JobDestination) (store : Store) {action : JobEnqueueAction}
    (decided : decidedAction store envelope = .ok action) :
    runAlone (storage.enqueueWConn envelope destination) store =
      (some (.ok envelope.id),
        Program.served serve store (storage.enqueueCommands envelope destination action)) := by
  unfold enqueueWConn
  rw [runAlone_bind, runAlone_jobEnqueueAction, decided]
  cases action with
  | skip => rfl
  | replace existingQueue =>
      simp only [enqueueCommands, Program.resume_ok]
      rw [runAlone_bind, runAlone_batch]
      rfl
  | default =>
      simp only [enqueueCommands, Program.resume_ok]
      rw [runAlone_bind, runAlone_batch]
      rfl

@[simp] theorem runAlone_dequeue (storage : StorageInternal) (queue : String) (store : Store) :
    runAlone (storage.dequeue queue) store =
      (some (.ok (moveLast store (storage.namespaceQueue queue) storage.currentProcessingQueue).1),
        (moveLast store (storage.namespaceQueue queue) storage.currentProcessingQueue).2) := rfl

@[simp] theorem runAlone_updateJob (envelope : JobEnvelope) (store : Store) :
    runAlone (updateJob envelope) store =
      (some (.ok ()),
        { store with jobs := store.jobs.set envelope.id (some (toText envelope)) }) := rfl

theorem runAlone_updateState {id : JobId} {store : Store} {envelope : JobEnvelope}
    (found : store.jobs.get id = some (.json envelope)) (state : Json) :
    runAlone (updateState id state) store =
      (some (.ok ()),
        { store with
          jobs := store.jobs.set envelope.id (some (toText (envelope.withState (some state)))) }) := by
  unfold updateState
  rw [runAlone_bind, runAlone_getJob, lookup_of_json found]
  rfl

theorem runAlone_retryIn {id : JobId} {store : Store} {envelope : JobEnvelope}
    (found : store.jobs.get id = some (.json envelope)) (now : Int) (delay : Nat)
    (error : String) :
    runAlone (retryIn now id delay error) store =
      (some (.ok ()), Program.served serve store
        [.hset envelope.id (toText (envelope.withRetriesIncremented error)),
          .zadd .retry envelope.id (retryScore now delay)]) := by
  unfold retryIn
  rw [runAlone_bind, runAlone_getJob, lookup_of_json found]
  rfl

@[simp] theorem runAlone_finishWithSuccess (storage : StorageInternal) (envelope : JobEnvelope)
    (store : Store) :
    runAlone (storage.finishWithSuccess envelope) store =
      (some (.ok ()), Program.served serve store
        [.hdel [envelope.id], .lrem storage.currentProcessingQueue 1 envelope.id]) := rfl

@[simp] theorem runAlone_finishWithFailure (storage : StorageInternal) (envelope : JobEnvelope)
    (store : Store) :
    runAlone (storage.finishWithFailure envelope) store =
      (some (.ok ()), Program.served serve store
        [.lrem storage.currentProcessingQueue 1 envelope.id]) := rfl

@[simp] theorem runAlone_kill (storage : StorageInternal) (envelope : JobEnvelope) (error : String)
    (store : Store) :
    runAlone (storage.kill envelope error) store =
      (some (.ok ()), Program.served serve store
        [.lrem storage.currentProcessingQueue 1 envelope.id, .hdel [envelope.id],
          .lpushDead (toText (envelope.withError error)), .ltrimDead 999]) := rfl

theorem runAlone_handleErr_kill (storage : StorageInternal) (now : Int) (message : String)
    (envelope : JobEnvelope) (delay maxRetries : Nat) (store : Store)
    (exhausted : ¬envelope.metadata.retries < maxRetries) :
    (runAlone (storage.handleErr now message envelope delay maxRetries) store).2 =
      (runAlone (storage.kill envelope message) store).2 := by
  unfold handleErr
  rw [if_neg exhausted, runAlone_bind, runAlone_attempt, runAlone_kill]
  rfl

theorem runAlone_handleErr_retry (storage : StorageInternal) (now : Int) (message : String)
    (envelope : JobEnvelope) (delay maxRetries : Nat) (store : Store)
    (retriesLeft : envelope.metadata.retries < maxRetries) :
    (runAlone (storage.handleErr now message envelope delay maxRetries) store).2 =
      (runAlone (retryIn now envelope.id delay message)
        (runAlone (storage.finishWithFailure envelope) store).2).2 := by
  unfold handleErr
  rw [if_pos retriesLeft, runAlone_bind, runAlone_attempt, runAlone_finishWithFailure]
  simp only [Option.map_some, Program.resume_ok]
  rw [runAlone_bind, runAlone_attempt]
  generalize runAlone (retryIn now envelope.id delay message) _ = ended
  obtain ⟨result, after⟩ := ended
  cases result <;> rfl

end StorageInternal

/-! The processes that are taken for dead. -/

theorem mem_foldl_noteDead (items dead : List String) (processId : String) :
    processId ∈ items.foldl noteDead dead ↔ processId ∈ dead ∨ processId ∈ items := by
  induction items generalizing dead with
  | nil => simp
  | cons item rest ih =>
      rw [List.foldl_cons, ih, List.mem_cons]
      unfold noteDead
      split
      · rename_i known
        constructor
        · tauto
        · rintro (before | rfl | later)
          · exact Or.inl before
          · exact Or.inl known
          · exact Or.inr later
      · rw [List.mem_append, List.mem_singleton]
        tauto

theorem mem_collectDead (now : Int) (threshold : Nat) (scored : List (String × Int))
    (owners : List String) (processId : String) :
    processId ∈ collectDead now threshold scored owners ↔
      (∃ score, (processId, score) ∈ scored ∧ isStale now threshold score = true) ∨
        (processId ∈ owners ∧ ∀ score, (processId, score) ∉ scored) := by
  unfold collectDead
  rw [mem_foldl_noteDead, List.mem_append, List.mem_map, List.mem_filter]
  constructor
  · rintro (impossible | ⟨⟨name, score⟩, member, rfl⟩ | ⟨owner, unscored⟩)
    · cases impossible
    · rw [List.mem_filter] at member
      exact Or.inl ⟨score, member.1, by simpa using member.2⟩
    · refine Or.inr ⟨owner, ?_⟩
      intro score member
      simp only [decide_eq_true_eq] at unscored
      exact unscored (List.mem_map.mpr ⟨_, member, rfl⟩)
  · rintro (⟨score, member, stale⟩ | ⟨owner, unscored⟩)
    · exact Or.inr (Or.inl ⟨(processId, score), List.mem_filter.mpr ⟨member, stale⟩, rfl⟩)
    · refine Or.inr (Or.inr ⟨owner, ?_⟩)
      simp only [decide_eq_true_eq]
      intro inside
      obtain ⟨⟨name, score⟩, member, rfl⟩ := List.mem_map.mp inside
      exact unscored score member

/-! A unique job and the processes of one host, for concrete runs. -/

def reportJob (args : Json) (onConflict : JobConflictStrategy) : Job where
  name := "report"
  args := args
  uniqueId := some "7"
  onConflict := onConflict
  shouldResurrect := true
  throttleCost := none

def report (args : Json) (onConflict : JobConflictStrategy) : JobEnvelope :=
  .new "low" (reportJob args onConflict) "" 0 0

def workerNode (pid : Nat) : StorageInternal where
  given := ""
  hostname := "worker"
  pid := pid
  startedAt := 0
  order := .insertion

def heldStore : Store :=
  (runAlone ((workerNode 1).dequeue "low")
    (runAlone ((workerNode 1).enqueue (report .null .skip)) Store.empty).2).2

theorem heldStore_jobs (id : JobId) :
    heldStore.jobs.get id =
      if id = "report/7" then some (toText (report .null .skip)) else none :=
  SparseMap.get_set _ _ _ _

theorem heldStore_lists (key : String) :
    heldStore.lists.get key =
      if key = (workerNode 1).currentProcessingQueue then ["report/7"] else [] := by
  have moved : heldStore.lists.get key =
      ((((SparseMap.empty : SparseMap String (List JobId) []).set
        ((workerNode 1).namespaceQueue "low") ["report/7"]).set
          ((workerNode 1).namespaceQueue "low") []).set
            (workerNode 1).currentProcessingQueue ["report/7"]).get key := rfl
  rw [moved, SparseMap.get_set, SparseMap.get_set, SparseMap.get_set]
  split
  · rfl
  · split <;> rfl

end Oxana
