import Oxana.AttemptEffect
import Oxana.StoredTexts

/-!
The operations on jobs against the server that keeps the texts as they will be read.
-/

namespace Oxana

open Program

variable {reread : String → String} {storage : StorageInternal} {store : Store}
  {envelope started stored : JobEnvelope}

theorem settle_of_shallow (shallow : envelope.Shallow) :
    settle reread (toText envelope) = toText (envelope.withNumbers reread) := by
  rw [settle_toText, if_pos shallow]

namespace StorageInternal

theorem sends_getJob (reread : String → String) (id : JobId) :
    (getJob id).Sends (Command.Settled reread) := by
  refine sends_bind (sends_request trivial) fun found => ?_
  cases found with
  | none => trivial
  | some text => exact sends_bind (sends_ofExcept _) fun _ => trivial

theorem runStored_getJob (reread : String → String) (id : JobId) (store : Store) :
    runStored reread (getJob id) store = (some (lookup store id), store) := by
  rw [runStored_of_sends (sends_getJob reread id), runAlone_getJob]

theorem runStored_jobEnqueueAction (reread : String → String) (envelope : JobEnvelope)
    (store : Store) :
    runStored reread (jobEnqueueAction envelope) store =
      (some (decidedAction store envelope), store) := by
  rw [← runAlone_jobEnqueueAction]
  refine runStored_of_sends ?_ store
  unfold jobEnqueueAction
  split
  · refine sends_bind (sends_request trivial) fun found => ?_
    cases found with
    | false => trivial
    | true =>
        cases envelope.metadata.onConflict with
        | none => trivial
        | some strategy =>
            cases strategy with
            | skip => trivial
            | replace =>
                refine sends_bind (sends_getJob reread envelope.id) fun existing => ?_
                cases existing <;> trivial
  · trivial

theorem runStored_enqueueWConn (storage : StorageInternal) (destination : JobDestination)
    {action : JobEnqueueAction} (decided : decidedAction store envelope = .ok action) :
    runStored reread (storage.enqueueWConn envelope destination) store =
      (some (.ok envelope.id), served (serveStored reread) store
        (storage.enqueueCommands envelope destination action)) := by
  unfold enqueueWConn
  rw [runStored_bind, runStored_jobEnqueueAction, decided]
  cases action with
  | skip => rfl
  | replace existingQueue =>
      simp only [resume_ok]
      rw [runStored_bind, runStored_batch]
      rfl
  | default =>
      simp only [resume_ok]
      rw [runStored_bind, runStored_batch]
      rfl

theorem runStored_dequeue (reread : String → String) (storage : StorageInternal) (queue : String)
    (store : Store) :
    runStored reread (storage.dequeue queue) store = runAlone (storage.dequeue queue) store :=
  runStored_of_sends (sends_request (by exact trivial)) store

theorem runStored_enqueueScheduled (reread : String → String) (storage : StorageInternal)
    (now : Int) (name : DelayedSet) (store : Store) :
    runStored reread (storage.enqueueScheduled now name) store =
      runAlone (storage.enqueueScheduled now name) store := by
  refine runStored_of_sends (sends_bind (sends_request (by exact trivial)) fun ids => ?_) store
  unfold claimAndEnqueueScheduledJobIds
  split
  · trivial
  · refine sends_bind (sends_collect fun _ _ => trivial) fun claimed => ?_
    dsimp only
    split
    · trivial
    · refine sends_bind (sends_bind (sends_request trivial) fun _ => sends_ofExcept _) ?_
      intro envelopes
      refine sends_bind (sends_batch fun command member => ?_) fun _ => trivial
      obtain ⟨group, _, rfl⟩ := List.mem_map.mp member
      trivial

theorem runStored_updateState {id : JobId}
    (found : store.jobs.get id = some (.json envelope)) (state : Json) :
    runStored reread (updateState id state) store =
      (some (.ok ()), { store with
        jobs := store.jobs.set envelope.id
          (some (settle reread (toText (envelope.withState (some state))))) }) := by
  unfold updateState
  rw [runStored_bind, runStored_getJob, lookup_of_json found]
  rfl

theorem runStored_retryIn {id : JobId} (found : store.jobs.get id = some (.json envelope))
    (now : Int) (delay : Nat) (error : String) :
    runStored reread (retryIn now id delay error) store =
      (some (.ok ()), served (serveStored reread) store
        [.hset envelope.id (toText (envelope.withRetriesIncremented error)),
          .zadd .retry envelope.id (retryScore now delay)]) := by
  unfold retryIn
  rw [runStored_bind, runStored_getJob, lookup_of_json found]
  rfl

end StorageInternal

theorem store_of_handleErr_retry {maxRetries : Nat}
    (retries : started.metadata.retries < maxRetries)
    (found : store.jobs.get started.id = some (.json stored)) (storage : StorageInternal)
    (now : Int) (message : String) (delay : Nat) :
    (runStored reread (storage.handleErr now message started delay maxRetries) store).2 =
      served (serveStored reread) store
        [.lrem storage.currentProcessingQueue 1 started.id,
          .hset stored.id (toText (stored.withRetriesIncremented message)),
          .zadd .retry stored.id (retryScore now delay)] := by
  have removed : runStored reread (storage.finishWithFailure started).attempt store =
      (some (.ok (.ok ())),
        (serve (.lrem storage.currentProcessingQueue 1 started.id) store).2) := rfl
  have left : (serve (.lrem storage.currentProcessingQueue 1 started.id) store).2.jobs.get
      started.id = some (.json stored) := found
  unfold StorageInternal.handleErr
  rw [if_pos retries, runStored_bind, removed]
  simp only [resume_ok]
  rw [runStored_bind, runStored_attempt, StorageInternal.runStored_retryIn left]
  rfl

theorem store_of_handleErr_kill {maxRetries : Nat}
    (exhausted : ¬started.metadata.retries < maxRetries) (storage : StorageInternal)
    (now : Int) (message : String) (delay : Nat) :
    (runStored reread (storage.handleErr now message started delay maxRetries) store).2 =
      served (serveStored reread) store
        [.lrem storage.currentProcessingQueue 1 started.id, .hdel [started.id],
          .lpushDead (toText (started.withError message)), .ltrimDead 999] := by
  unfold StorageInternal.handleErr
  rw [if_neg exhausted]
  rfl

/-- `handle_err` of texts that can be read: they are written with the numbers read again. -/
theorem ends_handleErr_stored (reread : String → String) (storage : StorageInternal) (now : Int)
    (message : String) (delay maxRetries : Nat)
    (found : store.jobs.get started.id = some (.json stored)) (own : stored.id = started.id)
    (shallow : started.Shallow) (readable : stored.Shallow) :
    Ends storage started.id (.failed now message delay maxRetries (started.withNumbers reread)
        (stored.withNumbers reread)) [] store
      (runStored reread (storage.handleErr now message started delay maxRetries) store).2 := by
  by_cases retries : started.metadata.retries < maxRetries
  · have written : settle reread (toText (stored.withRetriesIncremented message)) =
        toText ((stored.withNumbers reread).withRetriesIncremented message) :=
      settle_of_shallow readable
    rw [store_of_handleErr_retry retries found, Ending.failed, if_pos (by exact retries), own,
      ← written]
    refine ⟨?_, ?_, fun key => lists_lrem store key _ _, rfl, rfl, (List.append_nil _).symm,
      ⟨rfl, rfl, rfl, rfl⟩⟩
    · exact SparseMap.get_set_self _ _ _
    · intro other different
      exact SparseMap.get_set_of_ne _ _ different
  · have buried : settle reread (toText (started.withError message)) =
        toText ((started.withNumbers reread).withError message) := settle_of_shallow shallow
    rw [store_of_handleErr_kill retries, Ending.failed, if_neg (by exact retries), ← buried]
    refine ⟨?_, ?_, fun key => lists_lrem store key _ _, rfl, rfl, (List.append_nil _).symm,
      ⟨rfl, rfl, rfl, rfl⟩⟩
    · change (removeFields store.jobs [started.id]).get started.id = none
      rw [removeFields_get, if_pos (List.mem_singleton_self _)]
    · intro other different
      change (removeFields store.jobs [started.id]).get other = _
      rw [removeFields_get, if_neg (by simpa using different)]

end Oxana
