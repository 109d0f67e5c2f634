import Oxana.ClusterInvariant

/-!
What `delete_job` and `cleanup` remove of a job and what they leave.
-/

namespace Oxana

variable {storage : StorageInternal} {store : Store} {id : JobId}

def jobExpireTime : Int := 7 * 24 * 3600

def JobMeta.createdAtSecs (metadata : JobMeta) : Int :=
  metadata.createdAt.tdiv 1000000

def expiredAt (now : Int) : Payload → Bool
  | .json envelope => decide (envelope.metadata.createdAtSecs < now - jobExpireTime)
  | .malformed _ => true

namespace StorageInternal

/-- `now` is in microseconds and `items` are the pairs that the `HSCAN` calls returned. -/
def cleanup (now : Int) (items : List (JobId × Payload)) : Redis Nat := do
  let jobIdsToClean :=
    (items.filter fun item => expiredAt (now / 1000000) item.2).map Prod.fst
  if 0 < jobIdsToClean.length then do
    ask (.hdel jobIdsToClean)
    pure jobIdsToClean.length
  else pure jobIdsToClean.length

theorem runAlone_cleanup (now : Int) (items : List (JobId × Payload)) (store : Store) :
    (runAlone (cleanup now items) store).2 = { store with
      jobs := removeFields store.jobs
        ((items.filter fun item => expiredAt (now / 1000000) item.2).map Prod.fst) } := by
  unfold cleanup
  dsimp only
  split
  · rfl
  · rename_i none
    have empty := List.length_eq_zero_iff.mp (Nat.eq_zero_of_not_pos none)
    rw [empty]
    rfl

theorem runAlone_deleteJob (storage : StorageInternal) (id : JobId) (store : Store) :
    runAlone (storage.deleteJob id) store = (some (.ok ()),
      Store.withList { store with jobs := removeFields store.jobs [id] }
        storage.currentProcessingQueue
        ((store.lists.get storage.currentProcessingQueue).erase id)) := rfl

end StorageInternal

/-! What is left of a deleted job. -/

theorem deleteJob_occurrences (storage : StorageInternal) (id : JobId) (store : Store) :
    (runAlone (storage.deleteJob id) store).2.occurrences id +
        min 1 ((store.lists.get storage.currentProcessingQueue).count id) =
      store.occurrences id := by
  rw [storage.runAlone_deleteJob]
  have moved := occurrences_withList { store with jobs := removeFields store.jobs [id] } id
    storage.currentProcessingQueue ((store.lists.get storage.currentProcessingQueue).erase id)
  have same : Store.occurrences { store with jobs := removeFields store.jobs [id] } id =
      store.occurrences id := rfl
  rw [List.count_erase_self, same] at moved
  dsimp only at moved ⊢
  omega

theorem deleteJob_missing (storage : StorageInternal) (id : JobId) (store : Store) :
    (runAlone (storage.deleteJob id) store).2.jobs.get id = none := by
  rw [storage.runAlone_deleteJob]
  change (removeFields store.jobs [id]).get id = none
  rw [removeFields_get, if_pos (List.mem_singleton_self id)]

theorem cleanup_occurrences (now : Int) (items : List (JobId × Payload)) (id : JobId)
    (store : Store) :
    (runAlone (StorageInternal.cleanup now items) store).2.occurrences id =
      store.occurrences id := by
  rw [StorageInternal.runAlone_cleanup]
  rfl

def overwrites (store : Store) (id : JobId) : JobDestination → Nat
  | .queue => 0
  | .schedule => memberCount store.schedule id

theorem enqueue_occurrences (storage : StorageInternal) (envelope : JobEnvelope)
    (destination : JobDestination) (missing : store.jobs.get envelope.id = none) :
    (runAlone (storage.enqueueWConn envelope destination) store).2.occurrences envelope.id +
        overwrites store envelope.id destination =
      store.occurrences envelope.id + 1 := by
  have decided : StorageInternal.decidedAction store envelope = .ok .default := by
    simp [StorageInternal.decidedAction, missing]
  rw [storage.runAlone_enqueueWConn envelope destination store decided]
  let written : Store :=
    { store with jobs := store.jobs.set envelope.id (some (toText envelope)) }
  have same : written.occurrences envelope.id = store.occurrences envelope.id := rfl
  cases destination with
  | queue =>
      have moved := occurrences_withList written envelope.id
        (storage.namespaceQueue envelope.queue)
        (envelope.id :: written.lists.get (storage.namespaceQueue envelope.queue))
      rw [List.count_cons_self] at moved
      change (written.withList (storage.namespaceQueue envelope.queue)
        (envelope.id :: written.lists.get (storage.namespaceQueue envelope.queue))).occurrences
          envelope.id + 0 = _
      omega
  | schedule =>
      have moved := occurrences_setDelayed written .schedule envelope.id
        (written.schedule.insert envelope.id envelope.metadata.scheduledAt)
      rw [memberCount_insert, if_pos rfl] at moved
      change _ + memberCount written.schedule envelope.id = _ at moved
      change (written.setDelayed .schedule _).occurrences envelope.id +
        memberCount written.schedule envelope.id = _
      change (written.setDelayed .schedule _).occurrences envelope.id + _ = _ at moved
      exact moved.trans (congrArg (· + 1) same)

/-- An id that was deleted leaves no trace exactly if it was at most in the processing list of
the process that deletes it, once; what is left counts besides a new job with the id. -/
theorem deletion_leaves_no_trace (storage : StorageInternal) (store : Store) (id : JobId) :
    ((runAlone (storage.deleteJob id) store).2.occurrences id = 0 ↔
      store.occurrences id =
        min 1 ((store.lists.get storage.currentProcessingQueue).count id)) ∧
    (∀ (envelope : JobEnvelope) (destination : JobDestination), envelope.id = id →
      ((runAlone (storage.enqueueWConn envelope destination)
          (runAlone (storage.deleteJob id) store).2).2.occurrences id = 1 ↔
        store.occurrences id =
          min 1 ((store.lists.get storage.currentProcessingQueue).count id) +
            overwrites store id destination)) ∧
    ∀ (now : Int) (items : List (JobId × Payload)),
      ((runAlone (StorageInternal.cleanup now items) store).2.occurrences id = 0 ↔
        store.occurrences id = 0) := by
  have deleted := deleteJob_occurrences storage id store
  refine ⟨by omega, ?_, ?_⟩
  · rintro envelope destination rfl
    have enqueued := enqueue_occurrences storage envelope destination
      (deleteJob_missing storage envelope.id store)
    have kept : overwrites (runAlone (storage.deleteJob envelope.id) store).2 envelope.id
        destination = overwrites store envelope.id destination := by
      cases destination <;> rfl
    rw [kept] at enqueued
    omega
  · intro now items
    rw [cleanup_occurrences]

theorem deletion_leaves_no_trace_held :
    (runAlone ((workerNode 1).deleteJob "report/7") heldStore).2.occurrences "report/7" = 0 ∧
      (runAlone ((workerNode 1).enqueue (report .null .skip))
        (runAlone ((workerNode 1).deleteJob "report/7") heldStore).2).2.occurrences
          "report/7" = 1 := by
  have left := deletion_leaves_no_trace (workerNode 1) heldStore "report/7"
  exact ⟨left.1.mpr (by decide),
    (left.2.1 (report .null .skip) .queue (by decide)).mpr (by decide)⟩

/-- In a cluster whose replacements meet no running job, a stored job leaves no trace exactly
if it is in the processing list of the process that deletes it. -/
theorem reachable_deletion {given : String} {world : World}
    (reachable : Reachable given (unattended given) (unattended given) world)
    (storage : StorageInternal) {id : JobId} (stored : world.store.jobs.get id ≠ none) :
    (runAlone (storage.deleteJob id) world.store).2.occurrences id = 0 ↔
      id ∈ world.store.lists.get storage.currentProcessingQueue := by
  obtain ⟨text, found⟩ := Option.ne_none_iff_exists'.mp stored
  have once := (reachable_sound reachable).placement.placed id
  rw [storedCount_of_some found, List.count_nil] at once
  have deleted := deleteJob_occurrences storage id world.store
  rw [← List.count_pos_iff]
  omega

def enqueuedActions : List (StorageInternal × Action) :=
  [(workerNode 1, .enqueue (report .null .skip))]

/-- A queued job is deleted and enqueued once more: its id is in the queue twice. -/
theorem deleted_job_enqueued_twice :
    ¬∀ world, Reachable "" neverReplacing anyRevival world →
      ∀ (storage : StorageInternal) (id : JobId),
      (runAlone (storage.deleteJob id) world.store).2.occurrences id = 0 ∧
      ∀ envelope : JobEnvelope, envelope.id = id → envelope.metadata.unique = true →
        (runAlone (storage.enqueue envelope)
          (runAlone (storage.deleteJob id) world.store).2).2.occurrences id = 1 := by
  intro claimed
  have reachable : Reachable "" neverReplacing anyRevival
      (runActions World.initial enqueuedActions) := by
    refine Reachable.runActions Relation.ReflTransGen.refl ?_
    simp only [PermittedRun, Permitted, enqueuedActions, neverReplacing]
    decide
  have once := (claimed _ reachable (workerNode 1) "report/7").2 (report .null .skip)
    (by decide) rfl
  revert once
  decide

end Oxana
