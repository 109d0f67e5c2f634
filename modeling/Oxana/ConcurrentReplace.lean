import Oxana.ConcurrentSkip
import Oxana.ClusterCore

/-!
One client replaces a unique job while a worker loads and runs the job that is stored
under its id.  The worker writes back what it read, so the order of its reads and the
client's write decides whether the replacement survives.
-/

namespace Oxana

open Program

inductive Party
  | client
  | worker
  deriving DecidableEq

/-- The store, whether the client has written its envelope, and what the worker has read
and executed since. -/
structure ReplaceHistory where
  store : Store
  replaced : Bool
  loadedAfter : Option Bool
  readAfter : Bool
  executedAfter : List JobEnvelope

namespace ReplaceHistory

def start (store : Store) : ReplaceHistory where
  store := store
  replaced := false
  loadedAfter := none
  readAfter := false
  executedAfter := []

def record (history : ReplaceHistory) : Party → Command → ReplaceHistory
  | .client, .hset _ _ => { history with replaced := true }
  | .worker, .hget _ =>
      { history with
        loadedAfter := some (history.loadedAfter.getD history.replaced)
        readAfter := history.replaced }
  | .worker, .execute envelope =>
      { history with
        executedAfter :=
          if history.replaced then envelope :: history.executedAfter else history.executedAfter }
  | _, _ => history

end ReplaceHistory

def serveParty (party : Party) (command : Command) (history : ReplaceHistory) :
    command.Reply × ReplaceHistory :=
  ((serve command history.store).1,
    { history.record party command with store := (serve command history.store).2 })

abbrev ReplacePool := Pool Command.Reply OxanaError Unit ReplaceHistory Party

def SameWork (first second : JobEnvelope) : Prop :=
  first.job.args = second.job.args ∧ first.queue = second.queue

/-- Once the client has written the replacement, the worker writes back only what it has
read since and deletes only what it has loaded since, unless the replacement asks for
the same work. -/
def ActsOnReplacement (earlier replacement : JobEnvelope) (pool : ReplacePool) :
    Party → Command → Prop
  | .worker, .hset _ _ => pool.state.replaced = true →
      pool.state.readAfter = true ∨ SameWork earlier replacement
  | .worker, .hdel _ => pool.state.replaced = true →
      pool.state.loadedAfter = some true ∨
        (earlier.job.args = replacement.job.args ∧ pool.state.executedAfter ≠ [])
  | _, _ => True

def ReplacementKept (client : StorageInternal) (replacement : JobEnvelope)
    (destination : JobDestination) (history : ReplaceHistory) : Prop :=
  (∃ envelope ∈ history.executedAfter, envelope.job.args = replacement.job.args) ∨
    ((∃ envelope, history.store.jobs.get replacement.id = some (.json envelope) ∧
        SameWork envelope replacement) ∧
      AtDestination client history.store replacement destination)

def replaceThreads (client worker : StorageInternal) (replacement : JobEnvelope)
    (destination : JobDestination) (job : JobEnvelope → StorageInternal.Attempt) :
    Party → Redis Unit
  | .client => do
      let _ ← client.enqueueWConn replacement destination
      pure ()
  | .worker => worker.routeJob (fun envelope => .ok (job envelope)) replacement.id

/-! What each party has done so far. -/

inductive ReplacePhase
  | deciding
  | moving
  | placed
  deriving DecidableEq

/-- The client uses the first field, the worker the others: what it loaded first, what
it read last and whether it has executed the job. -/
structure ReplaceNote where
  phase : ReplacePhase
  loaded : Option (Option JobEnvelope)
  latest : Option JobEnvelope
  executed : Bool

def ReplaceNote.fresh : ReplaceNote where
  phase := .deciding
  loaded := none
  latest := none
  executed := false

def decoded : Option Payload → Option JobEnvelope
  | some (.json envelope) => some envelope
  | _ => none

section Monitors

variable (client worker : StorageInternal) (replacement : JobEnvelope)
  (destination : JobDestination)

def clientAllows : ReplacePhase → Command → Prop
  | .deciding, command => command = .hexists replacement.id ∨ command = .hget replacement.id ∨
      command = .hset replacement.id (toText replacement)
  | .moving, command => (∃ name, command = .zrem name replacement.id) ∨
      (∃ key, command = .lrem key 0 replacement.id) ∨
      command = client.pushToDestination replacement destination
  | .placed, _ => False

def clientRecords : ReplacePhase → Command → ReplacePhase
  | .deciding, .hset _ _ => .moving
  | .moving, .lpush _ _ => .placed
  | .moving, .zadd _ _ _ => .placed
  | phase, _ => phase

def clientMonitor : Monitor Command.Reply ReplaceNote where
  allows := fun note => clientAllows client replacement destination note.phase
  expects := fun _ _ _ => True
  records := fun note command _ => { note with phase := clientRecords note.phase command }

def workerAllows (id : JobId) (note : ReplaceNote) : Command → Prop
  | .hget field => field = id
  | .hset field text => field = id ∧ ∃ read written, note.latest = some read ∧
      text = .json written ∧ written.id = id ∧ SameWork written read
  | .execute envelope => ∃ read, note.loaded = some (some read) ∧
      envelope.job.args = read.job.args
  | .hdel ids => ids = [id] ∧ (note.loaded = some none ∨ note.executed = true)
  | .lrem key _ _ => key = worker.currentProcessingQueue
  | .zadd name _ _ => name = .retry
  | .lpushDead _ => True
  | .ltrimDead _ => True
  | _ => False

def workerRecords (note : ReplaceNote) : (command : Command) → command.Reply → ReplaceNote
  | .hget _, reply =>
      { note with loaded := some (note.loaded.getD (decoded reply)), latest := decoded reply }
  | .execute _, _ => { note with executed := true }
  | _, _ => note

def workerExpects (id : JobId) : (command : Command) → command.Reply → Prop
  | .hget _, reply => ∀ envelope, reply = some (.json envelope) → envelope.id = id
  | _, _ => True

def workerMonitor (id : JobId) : Monitor Command.Reply ReplaceNote where
  allows := workerAllows worker id
  expects := fun _ => workerExpects id
  records := workerRecords

end Monitors

variable {client worker : StorageInternal} {replacement envelope : JobEnvelope}
  {destination : JobDestination} {id : JobId} {note : ReplaceNote}

/-! The client writes its envelope, clears the old places and pushes the id. -/

theorem complies_clear {commands : List Command} (start : note.phase = .moving)
    (clears : ∀ command ∈ commands, (∃ name, command = .zrem name replacement.id) ∨
      ∃ key, command = .lrem key 0 replacement.id) :
    Complies (clientMonitor client replacement destination) (fun _ after => after.phase = .placed)
      (fun _ => True) note
      (batch (commands ++ [client.pushToDestination replacement destination]) : Redis Unit) := by
  induction commands generalizing note with
  | nil =>
      refine complies_batch_cons ?_ ?_
      · simp [clientMonitor, clientAllows, start]
      · intro reply _
        refine complies_batch_nil ?_
        cases destination with
        | queue => simp [clientMonitor, clientRecords, StorageInternal.pushToDestination, start]
        | schedule => simp [clientMonitor, clientRecords, StorageInternal.pushToDestination, start]
  | cons command rest ih =>
      have later : ∀ other ∈ rest, (∃ name, other = .zrem name replacement.id) ∨
          ∃ key, other = .lrem key 0 replacement.id :=
        fun other member => clears other (List.mem_cons_of_mem _ member)
      rcases clears command List.mem_cons_self with ⟨name, rfl⟩ | ⟨key, rfl⟩
      · refine complies_batch_cons ?_ fun reply _ => ih ?_ later
        · simp [clientMonitor, clientAllows, start]
        · simp [clientMonitor, clientRecords, start]
      · refine complies_batch_cons ?_ fun reply _ => ih ?_ later
        · simp [clientMonitor, clientAllows, start]
        · simp [clientMonitor, clientRecords, start]

theorem complies_write (commands : List Command) (start : note.phase = .deciding)
    (clears : ∀ command ∈ commands, (∃ name, command = .zrem name replacement.id) ∨
      ∃ key, command = .lrem key 0 replacement.id) :
    Complies (clientMonitor client replacement destination) (fun _ after => after.phase = .placed)
      (fun _ => True) note
      (batch (.hset replacement.id (toText replacement) :: commands ++
        [client.pushToDestination replacement destination]) : Redis Unit) := by
  refine complies_batch_cons ?_ fun reply _ => complies_clear ?_ clears
  · simp [clientMonitor, clientAllows, start]
  · simp [clientMonitor, clientRecords, start]

theorem complies_replaceAction (start : note.phase = .deciding)
    (replaces : replacement.metadata.onConflict = some .replace) :
    Complies (clientMonitor client replacement destination)
      (fun action after => after.phase = .deciding ∧ action ≠ .skip) (fun _ => True)
      note (StorageInternal.jobEnqueueAction replacement) := by
  have reads : ∀ command : Command,
      command = .hexists replacement.id ∨ command = .hget replacement.id →
      ∀ before : ReplaceNote, before.phase = .deciding →
      Complies (clientMonitor client replacement destination)
        (fun _ after => after.phase = .deciding) (fun _ => True) before (ask command) := by
    rintro command (rfl | rfl) before deciding
    · refine complies_request ?_ ?_
      · simp [clientMonitor, clientAllows, deciding]
      · intro reply _
        simp [clientMonitor, clientRecords, deciding]
    · refine complies_request ?_ ?_
      · simp [clientMonitor, clientAllows, deciding]
      · intro reply _
        simp [clientMonitor, clientRecords, deciding]
  unfold StorageInternal.jobEnqueueAction
  split
  · refine complies_bind (reads _ (Or.inl rfl) note start) ?_
    intro found after deciding
    cases found with
    | false => exact ⟨deciding, by simp⟩
    | true =>
        simp only [if_true, replaces]
        have stored : Complies (clientMonitor client replacement destination)
            (fun _ later => later.phase = .deciding) (fun _ => True) after
            (StorageInternal.getJob replacement.id) := by
          refine complies_bind (reads _ (Or.inr rfl) after deciding) ?_
          intro text later still
          cases text with
          | none => exact still
          | some text =>
              cases text with
              | json envelope => exact still
              | malformed text => trivial
        refine complies_bind stored ?_
        intro existing later still
        cases existing with
        | none => exact ⟨still, by simp⟩
        | some envelope => exact ⟨still, by simp⟩
  · exact ⟨start, by simp⟩

theorem complies_replacing (start : note.phase = .deciding)
    (replaces : replacement.metadata.onConflict = some .replace) :
    Complies (clientMonitor client replacement destination) (fun _ after => after.phase = .placed)
      (fun _ => True) note (client.enqueueWConn replacement destination) := by
  refine complies_bind (complies_replaceAction start replaces) ?_
  rintro action after ⟨deciding, notSkip⟩
  cases action with
  | skip => exact absurd rfl notSkip
  | default =>
      refine complies_bind (complies_write [] deciding (by simp)) ?_
      exact fun _ _ placed => placed
  | replace existingQueue =>
      have writes : Complies (clientMonitor client replacement destination)
          (fun _ after => after.phase = .placed) (fun _ => True) after
          (batch (client.appendReplace existingQueue replacement destination) : Redis Unit) := by
        unfold StorageInternal.appendReplace
        split
        · exact complies_write _ deciding (by simp)
        · exact complies_write _ deciding (by simp)
      exact complies_bind writes fun _ _ placed => placed

/-! The worker loads, executes and finishes the job. -/

theorem complies_hget (field : JobId) (same : field = id) :
    Complies (workerMonitor worker id)
      (fun found after => after = workerRecords note (.hget field) found ∧
        ∀ envelope, found = some (.json envelope) → envelope.id = id)
      (fun _ => False) note (ask (.hget field)) := by
  refine complies_request same ?_
  intro reply expected
  exact ⟨rfl, expected⟩

theorem complies_getJob :
    Complies (workerMonitor worker id)
      (fun found after => after.latest = found ∧
        after.loaded = some (note.loaded.getD found) ∧ after.executed = note.executed ∧
        ∀ envelope, found = some envelope → envelope.id = id)
      (fun after => after.executed = note.executed) note (StorageInternal.getJob id) := by
  have reads : Complies (workerMonitor worker id)
      (fun found after => after = workerRecords note (.hget id) found ∧
        ∀ envelope, found = some (.json envelope) → envelope.id = id)
      (fun after => after.executed = note.executed) note (ask (.hget id)) :=
    complies_mono (complies_hget id rfl) (fun _ _ holds => holds) fun _ failed => failed.elim
  refine complies_bind reads ?_
  rintro found after ⟨rfl, own⟩
  cases found with
  | none => exact ⟨rfl, rfl, rfl, by simp⟩
  | some text =>
      cases text with
      | malformed text => exact (rfl : _ = note.executed)
      | json envelope =>
          refine ⟨rfl, rfl, rfl, ?_⟩
          rintro found ⟨⟩
          exact own envelope rfl

def Executed (note : ReplaceNote) : Prop := note.executed = true

theorem complies_getJob_executed (started : Executed note) :
    Complies (workerMonitor worker id)
      (fun found after => after.latest = found ∧ Executed after ∧
        ∀ envelope, found = some envelope → envelope.id = id)
      Executed note (StorageInternal.getJob id) :=
  complies_mono complies_getJob (fun _ _ ⟨latest, _, executed, own⟩ =>
    ⟨latest, executed.trans started, own⟩) fun _ executed => executed.trans started

theorem allows_writeBack {written : JobEnvelope} (latest : note.latest = some envelope)
    (same : envelope.id = id) (kept : (normalized written).id = envelope.id)
    (work : SameWork (normalized written) envelope) :
    (workerMonitor worker id).allows note (.hset written.id (toText written)) :=
  ⟨kept.trans same, envelope, normalized written, latest, rfl, kept.trans same, work⟩

theorem complies_updateState (state : Json) (started : Executed note) :
    Complies (workerMonitor worker id) (fun _ => Executed) Executed note
      (StorageInternal.updateState id state) := by
  refine complies_bind (complies_getJob_executed started) ?_
  rintro found after ⟨latest, executed, own⟩
  cases found with
  | none => exact executed
  | some envelope =>
      refine complies_batch_cons ?_ fun _ _ => complies_batch_nil executed
      exact allows_writeBack latest (own envelope rfl) rfl ⟨rfl, rfl⟩

theorem complies_persistStates (states : List Json) (started : Executed note) :
    Complies (workerMonitor worker id) (fun _ => Executed) Executed note
      (StorageInternal.persistStates id states) := by
  induction states generalizing note with
  | nil => exact started
  | cons state rest ih =>
      refine complies_bind (complies_attempt_keeps (complies_updateState state started)) ?_
      exact fun _ _ still => ih still

theorem complies_retryIn (now : Int) (delay : Nat) (error : String) (started : Executed note) :
    Complies (workerMonitor worker id) (fun _ => Executed) Executed note
      (StorageInternal.retryIn now id delay error) := by
  refine complies_bind (complies_getJob_executed started) ?_
  rintro found after ⟨latest, executed, own⟩
  cases found with
  | none => exact executed
  | some envelope =>
      refine complies_batch_cons ?_ fun _ _ => ?_
      · exact allows_writeBack latest (own envelope rfl) rfl ⟨rfl, rfl⟩
      · exact complies_batch_cons rfl fun _ _ => complies_batch_nil executed

theorem complies_handleErr (now : Int) (message : String) (delay maxRetries : Nat)
    (same : envelope.id = id) (started : Executed note) :
    Complies (workerMonitor worker id) (fun _ => Executed) Executed note
      (worker.handleErr now message envelope delay maxRetries) := by
  unfold StorageInternal.handleErr
  split
  · have finishes : Complies (workerMonitor worker id) (fun _ => Executed) Executed note
        (worker.finishWithFailure envelope) :=
      complies_batch_cons rfl fun _ _ => complies_batch_nil started
    refine complies_bind (complies_attempt_keeps finishes) ?_
    intro _ after executed
    rw [same]
    refine complies_bind (complies_attempt_keeps (complies_retryIn now delay message executed)) ?_
    exact fun _ _ still => still
  · have kills : Complies (workerMonitor worker id) (fun _ => Executed) Executed note
        (worker.kill envelope message) := by
      refine complies_batch_cons rfl fun _ _ => ?_
      refine complies_batch_cons ⟨by rw [same], Or.inr started⟩ fun _ _ => ?_
      refine complies_batch_cons trivial fun _ _ => ?_
      exact complies_batch_cons trivial fun _ _ => complies_batch_nil started
    exact complies_bind (complies_attempt_keeps kills) fun _ _ still => still

theorem complies_finishJobResult (now : Int) (override : RetryDelayOverride)
    (result : ExecutionResult) (policy : JobExecutionPolicy) (same : envelope.id = id)
    (started : Executed note) :
    Complies (workerMonitor worker id) (fun _ => Executed) Executed note
      (worker.finishJobResult now override result envelope policy) := by
  cases result with
  | panic message => exact complies_handleErr _ _ _ _ same started
  | notPanic outcome =>
      cases outcome with
      | error message => exact complies_handleErr _ _ _ _ same started
      | ok value =>
          have finishes : Complies (workerMonitor worker id) (fun _ => Executed) Executed note
              (worker.finishWithSuccess envelope) := by
            refine complies_batch_cons ⟨by rw [same], Or.inr started⟩ fun _ _ => ?_
            exact complies_batch_cons rfl fun _ _ => complies_batch_nil started
          exact complies_bind (complies_attempt_keeps finishes) fun _ _ still => still

theorem complies_run (job : StorageInternal.Attempt) (same : envelope.id = id)
    (loaded : note.loaded = some (some envelope)) (latest : note.latest = some envelope) :
    Complies (workerMonitor worker id) (fun _ => Executed) (fun _ => True) note
      (worker.run job envelope) := by
  unfold StorageInternal.run
  generalize chosen : (if job.shouldResume then envelope else envelope.withState none) = prepared
  have kept : prepared.id = envelope.id ∧ SameWork prepared envelope := by
    rw [← chosen]
    split
    · exact ⟨rfl, rfl, rfl⟩
    · exact ⟨rfl, rfl, rfl⟩
  have starts : Complies (workerMonitor worker id)
      (fun started after => started = prepared.withStartedAt job.startedAt ∧ after = note)
      (fun _ => True) note (StorageInternal.setStartedAt job.startedAt prepared) := by
    have writes : Complies (workerMonitor worker id) (fun _ after => after = note)
        (fun _ => True) note
        (StorageInternal.updateJob (prepared.withStartedAt job.startedAt)) := by
      refine complies_batch_cons ?_ fun _ _ => complies_batch_nil rfl
      exact allows_writeBack latest same kept.1 kept.2
    exact complies_bind writes fun _ _ unchanged => ⟨rfl, unchanged⟩
  refine complies_bind starts ?_
  rintro started after ⟨rfl, rfl⟩
  have executes : Complies (workerMonitor worker id) (fun _ => Executed) (fun _ => True) after
      (ask (.execute (prepared.withStartedAt job.startedAt))) :=
    complies_request ⟨envelope, loaded, kept.2.1⟩ fun _ _ => rfl
  refine complies_bind executes ?_
  intro _ running executed
  have own : (prepared.withStartedAt job.startedAt).id = id := kept.1.trans same
  have finishes : Complies (workerMonitor worker id) (fun _ => Executed) Executed running (do
      StorageInternal.persistStates id job.states
      worker.finishJobResult job.finishedAt job.override job.result
        (prepared.withStartedAt job.startedAt)
        (job.policy (prepared.withStartedAt job.startedAt))) := by
    refine complies_bind (complies_persistStates job.states executed) ?_
    exact fun _ _ still => complies_finishJobResult _ _ _ _ own still
  rw [own]
  exact complies_mono finishes (fun _ _ still => still) fun _ _ => trivial

theorem complies_routeJob (job : JobEnvelope → StorageInternal.Attempt)
    (fresh : note.loaded = none) :
    Complies (workerMonitor worker id) (fun _ _ => True) (fun _ => True) note
      (worker.routeJob (fun envelope => .ok (job envelope)) id) := by
  have loads : Complies (workerMonitor worker id)
      (fun pending after => ∀ envelope, pending = some envelope → envelope.id = id ∧
        after.loaded = some (some envelope) ∧ after.latest = some envelope)
      (fun _ => True) note (worker.loadPendingJob id) := by
    have reads : Complies (workerMonitor worker id)
        (fun found after => ∀ stored, found = .ok stored →
          (after.loaded = some stored ∧ after.latest = stored ∧
            ∀ envelope, stored = some envelope → envelope.id = id))
        (fun _ => True) note (StorageInternal.getJob id).attempt := by
      refine complies_attempt (complies_mono complies_getJob ?_ ?_)
      · rintro found after ⟨latest, loaded, _, own⟩ stored ⟨⟩
        rw [fresh] at loaded
        exact ⟨loaded, latest, own⟩
      · exact fun _ _ => ⟨trivial, fun _ _ => by rintro ⟨⟩⟩
    refine complies_bind reads ?_
    intro found after known
    cases found with
    | error error => exact fun _ impossible => by cases impossible
    | ok stored =>
        obtain ⟨loaded, latest, own⟩ := known stored rfl
        cases stored with
        | some envelope =>
            rintro found ⟨⟩
            exact ⟨own envelope rfl, loaded, latest⟩
        | none =>
            have deletes : Complies (workerMonitor worker id) (fun _ _ => True) (fun _ => True)
                after (worker.deleteJob id) := by
              refine complies_batch_cons ⟨rfl, Or.inl loaded⟩ fun _ _ => ?_
              exact complies_batch_cons rfl fun _ _ => complies_batch_nil trivial
            refine complies_bind (complies_attempt_keeps deletes) ?_
            exact fun _ _ _ _ impossible => by cases impossible
  refine complies_bind loads ?_
  intro pending after known
  cases pending with
  | none => trivial
  | some envelope =>
      obtain ⟨same, loaded, latest⟩ := known envelope rfl
      exact complies_mono (complies_run (job envelope) same loaded latest) (fun _ _ _ => trivial)
        fun _ _ => trivial

/-! What the store and the notes say about each other. -/

/-- The worker's copies are those of the earlier job, or of the replacement where they
were read after it was written. -/
structure Pending (earlier replacement : JobEnvelope) (history : ReplaceHistory)
    (worker : ReplaceNote) : Prop where
  stored : history.replaced = true → ∃ envelope,
    history.store.jobs.get replacement.id = some (.json envelope) ∧ SameWork envelope replacement
  before : history.replaced = false → ∀ envelope,
    history.store.jobs.get replacement.id = some (.json envelope) → SameWork envelope earlier
  quiet : history.replaced = false → history.loadedAfter ≠ some true ∧ history.readAfter = false ∧
    history.executedAfter = []
  latest : ∀ envelope, worker.latest = some envelope →
    if history.readAfter then SameWork envelope replacement else SameWork envelope earlier
  loaded : ∀ envelope, worker.loaded = some (some envelope) →
    if history.loadedAfter = some true then SameWork envelope replacement
    else SameWork envelope earlier
  missing : worker.loaded = some none → history.loadedAfter ≠ some true
  waiting : history.loadedAfter = some true → worker.executed = false
  different : history.executedAfter ≠ [] → earlier.job.args ≠ replacement.job.args

def Ran (replacement : JobEnvelope) (history : ReplaceHistory) : Prop :=
  ∃ envelope ∈ history.executedAfter, envelope.job.args = replacement.job.args

def Loading (history : ReplaceHistory) (worker : ReplaceNote) : Prop :=
  (worker.loaded = none ∧ history.loadedAfter = none ∧ worker.executed = false) ∨
    ∃ found after, worker.loaded = some found ∧ history.loadedAfter = some after

structure ReplaceSound (client : StorageInternal) (earlier replacement : JobEnvelope)
    (destination : JobDestination) (history : ReplaceHistory) (phase : ReplacePhase)
    (worker : ReplaceNote) : Prop where
  own : ∀ envelope, history.store.jobs.get replacement.id = some (.json envelope) →
    envelope.id = replacement.id
  replaced : history.replaced = true ↔ phase ≠ .deciding
  loading : Loading history worker
  placed : phase = .placed → AtDestination client history.store replacement destination
  work : Ran replacement history ∨ Pending earlier replacement history worker

section Sound

variable {earlier : JobEnvelope} {history : ReplaceHistory} {phase : ReplacePhase}

theorem sameWork_trans {first second third : JobEnvelope} (left : SameWork first second)
    (right : SameWork second third) : SameWork first third :=
  ⟨left.1.trans right.1, left.2.trans right.2⟩

theorem pending_start (store : Store)
    (stored : store.jobs.get replacement.id = some (.json earlier)) (fresh : note.loaded = none)
    (unread : note.latest = none) :
    Pending earlier replacement (.start store) note where
  stored := by simp [ReplaceHistory.start]
  before := by
    intro _ envelope found
    have same : store.jobs.get replacement.id = some (.json envelope) := found
    rw [stored] at same
    cases same
    exact ⟨rfl, rfl⟩
  quiet := by simp [ReplaceHistory.start]
  latest := by simp [unread]
  loaded := by simp [fresh]
  missing := by simp [fresh]
  waiting := by simp [ReplaceHistory.start]
  different := by simp [ReplaceHistory.start]

theorem pending_replace (pending : Pending earlier replacement history note)
    (first : history.replaced = false) :
    Pending earlier replacement
      (serveParty .client (.hset replacement.id (toText replacement)) history).2 note := by
  obtain ⟨unloaded, unread, idle⟩ := pending.quiet first
  have latest := pending.latest
  have loaded := pending.loaded
  refine ⟨?_, ?_, ?_, latest, loaded, pending.missing, pending.waiting, pending.different⟩
  · intro _
    exact ⟨normalized replacement, SparseMap.get_set_self _ _ _, rfl, rfl⟩
  · intro impossible
    cases impossible
  · intro impossible
    cases impossible

theorem decoded_eq {text : Option Payload} (found : decoded text = some envelope) :
    text = some (.json envelope) := by
  cases text with
  | none => cases found
  | some payload =>
      cases payload with
      | json stored =>
          cases found
          rfl
      | malformed text => cases found

theorem pending_read_before (pending : Pending earlier replacement history note)
    (replaced : history.replaced = false) :
    Pending earlier replacement (serveParty .worker (.hget replacement.id) history).2
      (workerRecords note (.hget replacement.id) (history.store.jobs.get replacement.id)) := by
  obtain ⟨unloaded, unread, idle⟩ := pending.quiet replaced
  have stays : some (history.loadedAfter.getD false) ≠ some true := by
    cases after : history.loadedAfter with
    | none => simp
    | some value =>
        rw [after] at unloaded
        simpa using unloaded
  have reads : ∀ envelope, decoded (history.store.jobs.get replacement.id) = some envelope →
      SameWork envelope earlier :=
    fun envelope found => pending.before replaced envelope (decoded_eq found)
  constructor <;> simp only [serveParty, ReplaceHistory.record, replaced]
  case stored => simp
  case before => exact fun _ => pending.before replaced
  case quiet => exact fun _ => ⟨stays, trivial, idle⟩
  case latest => exact reads
  case loaded =>
      intro envelope found
      rw [if_neg stays]
      cases before : note.loaded with
      | none => exact reads envelope (by simpa [workerRecords, before] using found)
      | some value =>
          have kept := pending.loaded envelope (by simpa [workerRecords, before] using found)
          rwa [if_neg unloaded] at kept
  case missing => exact fun _ => stays
  case waiting => exact fun after => absurd after stays
  case different => exact pending.different

theorem pending_read_after (pending : Pending earlier replacement history note)
    (loading : Loading history note) (replaced : history.replaced = true) :
    Pending earlier replacement (serveParty .worker (.hget replacement.id) history).2
      (workerRecords note (.hget replacement.id) (history.store.jobs.get replacement.id)) := by
  obtain ⟨stored, found, work⟩ := pending.stored replaced
  have reads : decoded (history.store.jobs.get replacement.id) = some stored := by
    rw [found]
    rfl
  constructor <;> simp only [serveParty, ReplaceHistory.record, replaced]
  case stored => exact fun _ => ⟨stored, found, work⟩
  case before => simp
  case quiet => simp
  case latest =>
      intro envelope latest
      rw [workerRecords, reads] at latest
      cases latest
      exact work
  case loaded =>
      intro envelope loads
      rcases loading with ⟨unloaded, none, _⟩ | ⟨value, after, loaded, known⟩
      · simp only [workerRecords, reads, unloaded, Option.getD_none, Option.some.injEq] at loads
        rw [none, Option.getD_none, if_pos rfl, ← loads]
        exact work
      · have kept := pending.loaded envelope (by simpa [workerRecords, loaded] using loads)
        simpa [known] using kept
  case missing =>
      intro loads
      rcases loading with ⟨unloaded, none, _⟩ | ⟨value, after, loaded, known⟩
      · simp [workerRecords, reads, unloaded] at loads
      · have kept := pending.missing (by simpa [workerRecords, loaded] using loads)
        simpa [known] using kept
  case waiting =>
      intro loads
      rcases loading with ⟨_, _, idle⟩ | ⟨value, after, loaded, known⟩
      · exact idle
      · refine pending.waiting ?_
        simpa [known] using loads
  case different => exact pending.different

theorem pending_write {read written : JobEnvelope}
    (pending : Pending earlier replacement history note) (latest : note.latest = some read)
    (work : SameWork written read)
    (permitted : history.replaced = true →
      history.readAfter = true ∨ SameWork earlier replacement) :
    Pending earlier replacement
      (serveParty .worker (.hset replacement.id (.json written)) history).2 note := by
  have known := pending.latest read latest
  refine ⟨?_, ?_, pending.quiet, pending.latest, pending.loaded, pending.missing, pending.waiting,
    pending.different⟩
  · intro replaced
    refine ⟨written, SparseMap.get_set_self _ _ _, ?_⟩
    rcases permitted replaced with after | same
    · rw [if_pos after] at known
      exact sameWork_trans work known
    · split at known
      · exact sameWork_trans work known
      · exact sameWork_trans work (sameWork_trans known same)
  · intro replaced envelope found
    have same : some (Payload.json written) = some (.json envelope) := by
      rw [← found]
      exact (SparseMap.get_set_self _ _ _).symm
    cases same
    have unread : history.readAfter = false := (pending.quiet replaced).2.1
    rw [unread] at known
    exact sameWork_trans work known

theorem pending_execute {read started : JobEnvelope}
    (pending : Pending earlier replacement history note)
    (loaded : note.loaded = some (some read)) (args : started.job.args = read.job.args) :
    Ran replacement (serveParty .worker (.execute started) history).2 ∨
      Pending earlier replacement (serveParty .worker (.execute started) history).2
        (workerRecords note (.execute started) ()) := by
  have known := pending.loaded read loaded
  cases replaced : history.replaced with
  | false =>
      right
      obtain ⟨unloaded, unread, idle⟩ := pending.quiet replaced
      constructor <;> simp only [serveParty, ReplaceHistory.record, replaced]
      case stored => simp
      case before => exact fun _ => pending.before replaced
      case quiet => exact fun _ => ⟨unloaded, unread, idle⟩
      case latest => exact pending.latest
      case loaded => exact pending.loaded
      case missing => exact pending.missing
      case waiting => exact fun after => absurd after unloaded
      case different => exact pending.different
  | true =>
      by_cases after : history.loadedAfter = some true
      · left
        rw [if_pos after] at known
        refine ⟨started, ?_, args.trans known.1⟩
        simp [serveParty, ReplaceHistory.record, replaced]
      · rw [if_neg after] at known
        by_cases same : earlier.job.args = replacement.job.args
        · left
          refine ⟨started, ?_, args.trans (known.1.trans same)⟩
          simp [serveParty, ReplaceHistory.record, replaced]
        · right
          constructor <;> simp only [serveParty, ReplaceHistory.record, replaced]
          case stored => exact fun _ => pending.stored replaced
          case before => simp
          case quiet => simp
          case latest => exact pending.latest
          case loaded => exact pending.loaded
          case missing => exact pending.missing
          case waiting => exact fun loads => absurd loads after
          case different => exact fun _ => same

theorem pending_delete (pending : Pending earlier replacement history note)
    (allowed : note.loaded = some none ∨ note.executed = true)
    (permitted : history.replaced = true → history.loadedAfter = some true ∨
      (earlier.job.args = replacement.job.args ∧ history.executedAfter ≠ [])) :
    Pending earlier replacement (serveParty .worker (.hdel [replacement.id]) history).2 note := by
  cases replaced : history.replaced with
  | false =>
      refine ⟨?_, ?_, pending.quiet, pending.latest, pending.loaded, pending.missing,
        pending.waiting, pending.different⟩
      · intro impossible
        exact absurd (replaced.symm.trans impossible) (by simp)
      · intro _ envelope found
        have gone : (removeFields history.store.jobs [replacement.id]).get replacement.id =
            some (.json envelope) := found
        simp [removeFields_get] at gone
  | true =>
      exfalso
      rcases permitted replaced with after | ⟨same, ran⟩
      · rcases allowed with missing | executed
        · exact pending.missing missing after
        · simp [pending.waiting after] at executed
      · exact pending.different ran same

theorem pending_store (pending : Pending earlier replacement history note) {store : Store}
    (jobs : store.jobs = history.store.jobs) :
    Pending earlier replacement { history with store := store } note := by
  refine ⟨?_, ?_, pending.quiet, pending.latest, pending.loaded, pending.missing,
    pending.waiting, pending.different⟩
  · intro replaced
    simp only [jobs]
    exact pending.stored replaced
  · intro replaced
    simp only [jobs]
    exact pending.before replaced

theorem sound_store {after : ReplacePhase} {store : Store}
    (sound : ReplaceSound client earlier replacement destination history phase note)
    (jobs : store.jobs = history.store.jobs) (written : phase ≠ .deciding ↔ after ≠ .deciding)
    (stays : after = .placed → AtDestination client store replacement destination) :
    ReplaceSound client earlier replacement destination { history with store := store } after
      note := by
  refine ⟨?_, sound.replaced.trans written, sound.loading, stays, ?_⟩
  · simp only [jobs]
    exact sound.own
  · rcases sound.work with ran | pending
    · exact Or.inl ran
    · exact Or.inr (pending_store pending jobs)

theorem push_atDestination (store : Store) :
    AtDestination client (serve (client.pushToDestination replacement destination) store).2
        replacement destination := by
  cases destination with
  | queue => simp [AtDestination, serve, StorageInternal.pushToDestination]
  | schedule =>
      simp [AtDestination, serve, StorageInternal.pushToDestination, Store.setDelayed,
        Store.delayed]

theorem sound_client
    (sound : ReplaceSound client earlier replacement destination history phase note)
    {command : Command} (allowed : clientAllows client replacement destination phase command) :
    ReplaceSound client earlier replacement destination (serveParty .client command history).2
      (clientRecords phase command) note := by
  cases phase with
  | placed => exact False.elim allowed
  | deciding =>
      have first : history.replaced = false := by
        have iff := sound.replaced
        simpa using iff
      rcases allowed with rfl | rfl | rfl
      · exact sound
      · exact sound
      · refine ⟨?_, by simp [serveParty, ReplaceHistory.record, clientRecords], sound.loading,
          by simp [clientRecords], ?_⟩
        · intro envelope found
          have same : some (toText replacement) = some (.json envelope) := by
            rw [← found]
            exact (SparseMap.get_set_self _ _ _).symm
          cases same
          rfl
        · rcases sound.work with ran | pending
          · exact Or.inl ran
          · exact Or.inr (pending_replace pending first)
  | moving =>
      rcases allowed with ⟨name, rfl⟩ | ⟨key, rfl⟩ | rfl
      · exact sound_store sound (setDelayed_jobs _ _ _) Iff.rfl (by simp [clientRecords])
      · exact sound_store sound rfl Iff.rfl (by simp [clientRecords])
      · have written : clientRecords .moving (client.pushToDestination replacement destination) =
            .placed := by
          cases destination <;> rfl
        have jobs : (serve (client.pushToDestination replacement destination) history.store).2.jobs =
            history.store.jobs := by
          cases destination <;> rfl
        have unrecorded : history.record .client
            (client.pushToDestination replacement destination) = history := by
          cases destination <;> rfl
        rw [written]
        simp only [serveParty, unrecorded]
        exact sound_store sound jobs (by simp) fun _ => push_atDestination history.store

theorem sound_worker (apart : destination = .queue →
      client.namespaceQueue replacement.queue ≠ worker.currentProcessingQueue)
    (sound : ReplaceSound client earlier replacement destination history phase note)
    {command : Command} (allowed : workerAllows worker replacement.id note command)
    (writes : ∀ field text, command = .hset field text → history.replaced = true →
      history.readAfter = true ∨ SameWork earlier replacement)
    (deletes : ∀ ids, command = .hdel ids → history.replaced = true →
      history.loadedAfter = some true ∨
        (earlier.job.args = replacement.job.args ∧ history.executedAfter ≠ [])) :
    ReplaceSound client earlier replacement destination (serveParty .worker command history).2
      phase (workerRecords note command (serve command history.store).1) := by
  cases command with
  | hget field =>
      obtain rfl : field = replacement.id := allowed
      refine ⟨sound.own, sound.replaced, ?_, sound.placed, ?_⟩
      · exact Or.inr ⟨_, _, rfl, rfl⟩
      · rcases sound.work with ran | pending
        · exact Or.inl ran
        · cases replaced : history.replaced with
          | false => exact Or.inr (pending_read_before pending replaced)
          | true => exact Or.inr (pending_read_after pending sound.loading replaced)
  | hset field text =>
      obtain ⟨rfl, read, written, latest, rfl, own, work⟩ := allowed
      refine ⟨?_, sound.replaced, sound.loading, sound.placed, ?_⟩
      · intro envelope found
        have same : some (Payload.json written) = some (.json envelope) := by
          rw [← found]
          exact (SparseMap.get_set_self _ _ _).symm
        cases same
        exact own
      · rcases sound.work with ran | pending
        · exact Or.inl ran
        · exact Or.inr (pending_write pending latest work (writes _ _ rfl))
  | execute started =>
      obtain ⟨read, loaded, args⟩ := allowed
      refine ⟨sound.own, sound.replaced, ?_, sound.placed, ?_⟩
      · rcases sound.loading with ⟨none, _⟩ | known
        · rw [none] at loaded
          cases loaded
        · exact Or.inr known
      · rcases sound.work with ⟨envelope, member, same⟩ | pending
        · left
          refine ⟨envelope, ?_, same⟩
          simp only [serveParty, ReplaceHistory.record]
          split
          · exact List.mem_cons_of_mem _ member
          · exact member
        · exact pending_execute pending loaded args
  | hdel ids =>
      obtain ⟨rfl, reason⟩ := allowed
      refine ⟨?_, sound.replaced, sound.loading, sound.placed, ?_⟩
      · intro envelope found
        have gone : (removeFields history.store.jobs [replacement.id]).get replacement.id =
            some (.json envelope) := found
        simp [removeFields_get] at gone
      · rcases sound.work with ran | pending
        · exact Or.inl ran
        · exact Or.inr (pending_delete pending reason (deletes _ rfl))
  | lrem key count id =>
      obtain rfl : key = worker.currentProcessingQueue := allowed
      refine sound_store sound rfl Iff.rfl ?_
      intro reached
      have holds := sound.placed reached
      cases destination with
      | schedule => exact holds
      | queue =>
          simp only [AtDestination, serve, SparseMap.get_set_of_ne _ _ (apart rfl)]
          exact holds
  | zadd name id score =>
      obtain rfl : name = .retry := allowed
      refine sound_store sound rfl Iff.rfl ?_
      intro reached
      have holds := sound.placed reached
      cases destination with
      | schedule => exact holds
      | queue => exact holds
  | lpushDead text =>
      refine sound_store sound rfl Iff.rfl ?_
      intro reached
      have holds := sound.placed reached
      cases destination with
      | schedule => exact holds
      | queue => exact holds
  | ltrimDead stop =>
      refine sound_store sound rfl Iff.rfl ?_
      intro reached
      have holds := sound.placed reached
      cases destination with
      | schedule => exact holds
      | queue => exact holds
  | _ => exact False.elim allowed

theorem sound_start {store : Store} (stored : store.jobs.get replacement.id = some (.json earlier))
    (same : earlier.id = replacement.id) :
    ReplaceSound client earlier replacement destination (.start store) .deciding .fresh := by
  refine ⟨?_, by simp [ReplaceHistory.start], Or.inl ⟨rfl, rfl, rfl⟩, by simp,
    Or.inr (pending_start store stored rfl rfl)⟩
  intro envelope found
  have read : store.jobs.get replacement.id = some (.json envelope) := found
  rw [stored] at read
  cases read
  exact same

theorem sound_expects
    (sound : ReplaceSound client earlier replacement destination history phase note)
    {command : Command} (allowed : workerAllows worker replacement.id note command) :
    workerExpects replacement.id command (serve command history.store).1 := by
  cases command with
  | hget field =>
      obtain rfl : field = replacement.id := allowed
      exact sound.own
  | _ => trivial

end Sound

def replaceMonitor (client worker : StorageInternal) (replacement : JobEnvelope)
    (destination : JobDestination) : Party → Monitor Command.Reply ReplaceNote
  | .client => clientMonitor client replacement destination
  | .worker => workerMonitor worker replacement.id

def ReplaceReturns : Party → Unit → ReplaceNote → Prop
  | .client, _, note => note.phase = .placed
  | .worker, _, _ => True

theorem complies_parties {job : JobEnvelope → StorageInternal.Attempt}
    (replaces : replacement.replaces) (party : Party) :
    Complies (replaceMonitor client worker replacement destination party) (ReplaceReturns party)
      (fun _ => True) .fresh (replaceThreads client worker replacement destination job party) := by
  cases party with
  | client => exact complies_bind (complies_replacing rfl replaces.2) fun _ _ placed => placed
  | worker => exact complies_routeJob job rfl

theorem sound_serve {earlier : JobEnvelope} (apart : destination = .queue →
      client.namespaceQueue replacement.queue ≠ worker.currentProcessingQueue)
    (pool : ReplacePool) (notes : Party → ReplaceNote) (party : Party) (command : Command)
    (sound : ReplaceSound client earlier replacement destination pool.state
      (notes .client).phase (notes .worker))
    (_ : ∀ other, Complies (replaceMonitor client worker replacement destination other)
      (ReplaceReturns other) (fun _ => True) (notes other) (pool.threads other))
    (allowed : (replaceMonitor client worker replacement destination party).allows (notes party)
      command)
    (permitted : ActsOnReplacement earlier replacement pool party command) :
    let records := (replaceMonitor client worker replacement destination party).records
      (notes party) command (serveParty party command pool.state).1
    (replaceMonitor client worker replacement destination party).expects (notes party) command
        (serveParty party command pool.state).1 ∧
      ReplaceSound client earlier replacement destination (serveParty party command pool.state).2
        (Function.update notes party records .client).phase
        (Function.update notes party records .worker) := by
  cases party with
  | client => exact ⟨trivial, sound_client sound allowed⟩
  | worker =>
      refine ⟨sound_expects sound allowed, sound_worker apart sound allowed ?_ ?_⟩
      · rintro field text rfl
        exact permitted
      · rintro ids rfl
        exact permitted

/-- The replacement survives in every order in which the worker acts on what it has read
since the replacement was written. -/
theorem replacement_kept {client worker : StorageInternal} {earlier replacement : JobEnvelope}
    {destination : JobDestination} {job : JobEnvelope → StorageInternal.Attempt} {store : Store}
    {pool : ReplacePool} (replaces : replacement.replaces)
    (stored : store.jobs.get replacement.id = some (.json earlier))
    (same : earlier.id = replacement.id)
    (apart : destination = .queue →
      client.namespaceQueue replacement.queue ≠ worker.currentProcessingQueue)
    (reaches : Pool.Reaches (interleaving serveParty (ActsOnReplacement earlier replacement))
      ⟨.start store, replaceThreads client worker replacement destination job⟩ pool)
    (returned : pool.threads .client = .done ()) :
    ReplacementKept client replacement destination pool.state := by
  obtain ⟨notes, sound, comply⟩ := Pool.Reaches.interleaved
    (replaceMonitor client worker replacement destination) ReplaceReturns (fun _ _ => True)
    (fun history notes => ReplaceSound client earlier replacement destination history
      (notes .client).phase (notes .worker))
    ⟨fun _ => .fresh, sound_start stored same, complies_parties replaces⟩
    (sound_serve apart) reaches
  have complies := comply .client
  rw [returned] at complies
  rcases sound.work with ran | pending
  · exact Or.inl ran
  · refine Or.inr ⟨pending.stored ?_, sound.placed complies⟩
    rw [sound.replaced, (complies : (notes .client).phase = .placed)]
    simp

/-! The first process holds a job that a client replaces. -/

def plainAttempt : StorageInternal.Attempt where
  shouldResume := false
  startedAt := 1
  states := []
  result := .notPanic (.ok ())
  finishedAt := 2
  policy := fun _ => { maxRetries := 3, retryDelay := 30 }
  override := none

def replaceStart : ReplacePool where
  state := .start heldStore
  threads := replaceThreads (workerNode 2) (workerNode 1) (report (.bool true) .replace) .queue
    fun _ => plainAttempt

def clientFirst : List Party := List.replicate 7 .client ++ [.worker, .worker]

theorem replacement_kept_loaded_after :
    ReplacementKept (workerNode 2) (report (.bool true) .replace) .queue
      (replaceStart.follow serveParty clientFirst).state := by
  have reached : Pool.Reaches
      (interleaving serveParty (ActsOnReplacement (report .null .skip)
        (report (.bool true) .replace)))
      ⟨.start heldStore, replaceThreads (workerNode 2) (workerNode 1)
        (report (.bool true) .replace) .queue fun _ => plainAttempt⟩
      (replaceStart.follow serveParty clientFirst) := by
    refine Pool.follow_reaches serveParty .refl ?_
    exact ⟨trivial, trivial, trivial, trivial, trivial, trivial, trivial, trivial,
      fun _ => Or.inl rfl, trivial⟩
  refine replacement_kept ?_ ?_ ?_ ?_ reached rfl
  · exact ⟨rfl, rfl⟩
  · rfl
  · rfl
  · exact fun _ => by decide

def workerBetween : List Party := .worker :: List.replicate 7 .client ++ [.worker]

/-- The worker loads the job before the client replaces it and writes it back after. -/
theorem replacement_lost :
    ¬∀ pool : ReplacePool, Pool.Reaches (interleaving serveParty anyOrder) replaceStart pool →
      pool.threads .client = .done () →
      ReplacementKept (workerNode 2) (report (.bool true) .replace) .queue pool.state := by
  intro always
  have reached : Pool.Reaches (interleaving serveParty anyOrder) replaceStart
      (replaceStart.follow serveParty workerBetween) :=
    Pool.follow_reaches serveParty .refl (by decide)
  rcases always _ reached rfl with ⟨envelope, member, _⟩ | ⟨⟨envelope, stored, args, _⟩, _⟩
  · cases member
  · have back : (replaceStart.follow serveParty workerBetween).state.store.jobs.get "report/7" =
        some (toText ((report .null .skip).withStartedAt 1)) := rfl
    have same : toText ((report .null .skip).withStartedAt 1) = .json envelope := by
      have found := back.symm.trans stored
      simpa using found
    cases same
    cases args

end Oxana
