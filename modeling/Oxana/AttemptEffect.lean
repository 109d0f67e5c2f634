import Oxana.Occurrences
import Oxana.StorageRuns

/-!
What one attempt at a job does to the store when it runs alone: the text of the job, the
processing list, the retry set, the dead list and the log of executions.  Two runs are
compared through these effects only, never through their commands.
-/

namespace Oxana

open Program

variable {storage : StorageInternal} {store before after : Store} {id : JobId}
  {started stored envelope : JobEnvelope}

/-- The text that stays stored, the score of the retry and the entry in the dead list. -/
structure Ending where
  text : Option Payload
  retryAt : Option Int
  buried : Option Payload

namespace Ending

def succeeded : Ending where
  text := none
  retryAt := none
  buried := none

/-- The decision uses the envelope in memory, the retry the stored one. -/
def failed (now : Int) (message : String) (delay maxRetries : Nat)
    (started stored : JobEnvelope) : Ending :=
  if started.metadata.retries < maxRetries then
    { text := some (toText (stored.withRetriesIncremented message))
      retryAt := some (retryScore now delay)
      buried := none }
  else
    { text := none
      retryAt := none
      buried := some (toText (started.withError message)) }

def of (now : Int) (override : RetryDelayOverride) (result : ExecutionResult)
    (policy : JobExecutionPolicy) (started stored : JobEnvelope) : Ending :=
  match result with
  | .notPanic (.ok ()) => succeeded
  | .notPanic (.error message) =>
      failed now message (retryDelay override message started policy) policy.maxRetries started
        stored
  | .panic message => failed now message policy.retryDelay policy.maxRetries started stored

def retried (ending : Ending) (id : JobId) (retry : RankedSet JobId Int) : RankedSet JobId Int :=
  match ending.retryAt with
  | some score => retry.insert id score
  | none => retry

def buriedIn (ending : Ending) (dead : List Payload) : List Payload :=
  match ending.buried with
  | some text => (text :: dead).take 1000
  | none => dead

end Ending

structure SameElsewhere (before after : Store) : Prop where
  schedule : after.schedule = before.schedule
  reviving : after.reviving = before.reviving
  processes : after.processes = before.processes
  processesData : after.processesData = before.processesData

theorem SameElsewhere.refl (store : Store) : SameElsewhere store store := ⟨rfl, rfl, rfl, rfl⟩

theorem SameElsewhere.trans {middle : Store} (early : SameElsewhere before middle)
    (late : SameElsewhere middle after) : SameElsewhere before after :=
  ⟨late.schedule.trans early.schedule, late.reviving.trans early.reviving,
    late.processes.trans early.processes, late.processesData.trans early.processesData⟩

/-- The attempt at one job: its text becomes that of the ending and its id leaves the
processing list. -/
structure Ends (storage : StorageInternal) (id : JobId) (ending : Ending)
    (log : List JobEnvelope) (before after : Store) : Prop where
  text : after.jobs.get id = ending.text
  others : ∀ other, other ≠ id → after.jobs.get other = before.jobs.get other
  lists : ∀ key, after.lists.get key =
    if key = storage.currentProcessingQueue then (before.lists.get key).erase id
    else before.lists.get key
  retry : after.retry = ending.retried id before.retry
  dead : after.dead = ending.buriedIn before.dead
  executed : after.executed = before.executed ++ log
  elsewhere : SameElsewhere before after

theorem lists_lrem (store : Store) (key current : String) (id : JobId) :
    (serve (.lrem current 1 id) store).2.lists.get key =
      if key = current then (store.lists.get key).erase id else store.lists.get key := by
  simp only [serve, SparseMap.get_set]
  split
  · rename_i same
    rw [same, removeFromList_one]
  · rfl

theorem ends_finishWithSuccess (storage : StorageInternal) (store : Store)
    (envelope : JobEnvelope) :
    ∃ after, runAlone (storage.finishWithSuccess envelope) store = (some (.ok ()), after) ∧
      Ends storage envelope.id .succeeded [] store after := by
  refine ⟨_, StorageInternal.runAlone_finishWithSuccess storage envelope store, ?_⟩
  refine ⟨?_, ?_, fun key => lists_lrem _ key _ _, rfl, rfl, (List.append_nil _).symm,
    ⟨rfl, rfl, rfl, rfl⟩⟩
  · change (removeFields store.jobs [envelope.id]).get envelope.id = none
    rw [removeFields_get, if_pos (List.mem_singleton_self _)]
  · intro other different
    change (removeFields store.jobs [envelope.id]).get other = _
    rw [removeFields_get, if_neg (by simpa using different)]

theorem ends_kill (storage : StorageInternal) (store : Store) (envelope : JobEnvelope)
    (message : String) :
    ∃ after, runAlone (storage.kill envelope message) store = (some (.ok ()), after) ∧
      Ends storage envelope.id
        { text := none, retryAt := none, buried := some (toText (envelope.withError message)) }
        [] store after := by
  refine ⟨_, StorageInternal.runAlone_kill storage envelope message store, ?_⟩
  refine ⟨?_, ?_, fun key => lists_lrem store key _ _, rfl, rfl, (List.append_nil _).symm,
    ⟨rfl, rfl, rfl, rfl⟩⟩
  · change (removeFields store.jobs [envelope.id]).get envelope.id = none
    rw [removeFields_get, if_pos (List.mem_singleton_self _)]
  · intro other different
    change (removeFields store.jobs [envelope.id]).get other = _
    rw [removeFields_get, if_neg (by simpa using different)]

/-- `handle_err` when the job is stored under its own id. -/
theorem ends_handleErr (storage : StorageInternal) (now : Int) (message : String)
    (delay maxRetries : Nat)
    (found : store.jobs.get started.id = some (.json stored)) (own : stored.id = started.id) :
    ∃ after, runAlone (storage.handleErr now message started delay maxRetries) store =
        (some (.ok ()), after) ∧
      Ends storage started.id (.failed now message delay maxRetries started stored) [] store
        after := by
  unfold StorageInternal.handleErr Ending.failed
  by_cases retries : started.metadata.retries < maxRetries
  · rw [if_pos retries, if_pos retries]
    have left : (serve (.lrem storage.currentProcessingQueue 1 started.id) store).2.jobs.get
        started.id = some (.json stored) := found
    refine ⟨served serve (serve (.lrem storage.currentProcessingQueue 1 started.id) store).2
      [.hset stored.id (toText (stored.withRetriesIncremented message)),
        .zadd .retry stored.id (retryScore now delay)], ?_, ?_⟩
    · rw [runAlone_bind, runAlone_attempt, StorageInternal.runAlone_finishWithFailure]
      simp only [Option.map_some, resume_ok, served_cons, served_nil]
      rw [runAlone_bind, runAlone_attempt, StorageInternal.runAlone_retryIn left]
      rfl
    · rw [own]
      refine ⟨?_, ?_, fun key => lists_lrem store key _ _, rfl, rfl, (List.append_nil _).symm,
        ⟨rfl, rfl, rfl, rfl⟩⟩
      · exact SparseMap.get_set_self _ _ _
      · intro other different
        exact SparseMap.get_set_of_ne _ _ different
  · rw [if_neg retries, if_neg retries]
    obtain ⟨final, ended, ends⟩ := ends_kill storage store started message
    refine ⟨final, ?_, ends⟩
    rw [runAlone_bind, runAlone_attempt, ended]
    rfl

theorem ends_finishJobResult (storage : StorageInternal) (now : Int)
    (override : RetryDelayOverride) (result : ExecutionResult)
    (policy : JobExecutionPolicy) (found : store.jobs.get started.id = some (.json stored))
    (own : stored.id = started.id) :
    ∃ after, runAlone (storage.finishJobResult now override result started policy) store =
        (some (.ok ()), after) ∧
      Ends storage started.id (.of now override result policy started stored) [] store after := by
  cases result with
  | panic message => exact ends_handleErr storage _ _ _ _ found own
  | notPanic outcome =>
      cases outcome with
      | error message => exact ends_handleErr storage _ _ _ _ found own
      | ok value =>
          obtain ⟨after, ended, ends⟩ := ends_finishWithSuccess storage store started
          refine ⟨after, ?_, ends⟩
          unfold StorageInternal.finishJobResult
          rw [runAlone_bind, runAlone_attempt, ended]
          rfl

/-! The states a worker persists. -/

def stateAfter (stored : JobEnvelope) (states : List Json) : JobEnvelope :=
  states.foldl (fun current state => normalized (current.withState (some state))) stored

theorem stateAfter_id (stored : JobEnvelope) (states : List Json) :
    (stateAfter stored states).id = stored.id := by
  unfold stateAfter
  induction states generalizing stored with
  | nil => rfl
  | cons state rest ih => exact ih _

/-- A change of the jobs alone, at one id. -/
structure Rewrites (id : JobId) (text : Payload) (before after : Store) : Prop where
  text : after.jobs.get id = some text
  others : ∀ other, other ≠ id → after.jobs.get other = before.jobs.get other
  rest : after = { before with jobs := after.jobs }

theorem Rewrites.trans {middle : Store} {first second : Payload}
    (early : Rewrites id first before middle) (late : Rewrites id second middle after) :
    Rewrites id second before after where
  text := late.text
  others := fun other different => (late.others other different).trans
    (early.others other different)
  rest := by
    rw [late.rest, early.rest]

theorem rewrites_hset (store : Store) (id : JobId) (text : Payload) :
    Rewrites id text store (serve (.hset id text) store).2 where
  text := SparseMap.get_set_self _ _ _
  others := fun _ different => SparseMap.get_set_of_ne _ _ different
  rest := rfl

theorem rewrites_updateState (found : store.jobs.get id = some (.json stored))
    (own : stored.id = id) (state : Json) :
    ∃ after, runAlone (StorageInternal.updateState id state).attempt store =
        (some (.ok (.ok ())), after) ∧
      Rewrites id (.json (normalized (stored.withState (some state)))) store after := by
  subst own
  refine ⟨_, ?_, rewrites_hset store _ _⟩
  rw [runAlone_attempt, StorageInternal.runAlone_updateState found]
  rfl

theorem rewrites_persistStates (states : List Json)
    (found : store.jobs.get id = some (.json stored)) (own : stored.id = id) :
    ∃ after, runAlone (StorageInternal.persistStates id states) store =
        (some (.ok ()), after) ∧
      Rewrites id (.json (stateAfter stored states)) store after := by
  induction states generalizing store stored with
  | nil => exact ⟨store, rfl, found, fun _ _ => rfl, rfl⟩
  | cons state rest ih =>
      obtain ⟨middle, updated, early⟩ := rewrites_updateState found own state
      obtain ⟨after, ended, late⟩ := ih early.text own
      refine ⟨after, ?_, early.trans late⟩
      unfold StorageInternal.persistStates
      rw [runAlone_bind, updated]
      exact ended

/-! One attempt. -/

def StorageInternal.Attempt.handed (job : StorageInternal.Attempt) (envelope : JobEnvelope) :
    JobEnvelope :=
  (if job.shouldResume then envelope else envelope.withState none).withStartedAt job.startedAt

theorem StorageInternal.Attempt.handed_id (job : StorageInternal.Attempt)
    (envelope : JobEnvelope) : (job.handed envelope).id = envelope.id := by
  unfold StorageInternal.Attempt.handed
  split <;> rfl

def StorageInternal.Attempt.persisted (job : StorageInternal.Attempt) (envelope : JobEnvelope) :
    JobEnvelope :=
  stateAfter (normalized (job.handed envelope)) job.states

def StorageInternal.Attempt.ending (job : StorageInternal.Attempt) (envelope : JobEnvelope) :
    Ending :=
  .of job.finishedAt job.override job.result (job.policy (job.handed envelope))
    (job.handed envelope) (job.persisted envelope)

theorem ends_run (storage : StorageInternal) (job : StorageInternal.Attempt)
    (envelope : JobEnvelope) (store : Store) :
    ∃ after, runAlone (storage.run job envelope) store = (some (.ok ()), after) ∧
      Ends storage envelope.id (job.ending envelope) [job.handed envelope] store after := by
  have starts : runAlone (StorageInternal.setStartedAt job.startedAt
      (if job.shouldResume then envelope else envelope.withState none)) store =
        (some (.ok (job.handed envelope)), (serve (.hset (job.handed envelope).id
          (toText (job.handed envelope))) store).2) := rfl
  have early := rewrites_hset store (job.handed envelope).id (toText (job.handed envelope))
  generalize (serve (.hset (job.handed envelope).id (toText (job.handed envelope))) store).2 =
    begun at starts early
  have executing : (serve (.execute (job.handed envelope)) begun).2.jobs.get
      (job.handed envelope).id = some (.json (normalized (job.handed envelope))) := early.text
  obtain ⟨middle, persisted, late⟩ := rewrites_persistStates job.states executing rfl
  have same : (job.persisted envelope).id = (job.handed envelope).id := stateAfter_id _ _
  obtain ⟨after, ended, ends⟩ := ends_finishJobResult storage job.finishedAt
    job.override job.result (job.policy (job.handed envelope)) late.text same
  refine ⟨after, ?_, ?_⟩
  · unfold StorageInternal.run
    dsimp only
    rw [runAlone_bind, starts]
    simp only [resume_ok]
    rw [runAlone_bind, runAlone_ask]
    simp only [resume_ok]
    rw [runAlone_bind, persisted]
    exact ended
  · rw [← job.handed_id envelope]
    have rest : middle = { store with
        jobs := middle.jobs, executed := store.executed ++ [job.handed envelope] } := by
      rw [late.rest]
      simp only [serve]
      rw [early.rest]
    refine ⟨ends.text, ?_, ?_, ?_, ?_, ?_, ?_⟩
    · intro other different
      rw [ends.others other different, late.others other different]
      exact early.others other different
    · intro key
      rw [ends.lists, rest]
    · rw [ends.retry, rest]
      rfl
    · rw [ends.dead, rest]
      rfl
    · rw [ends.executed, rest, List.append_nil]
    · refine SameElsewhere.trans ?_ ends.elsewhere
      rw [rest]
      exact ⟨rfl, rfl, rfl, rfl⟩

end Oxana
