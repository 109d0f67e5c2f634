import Oxana.FleetCore

/-!
What the threads of a process send, watched for one id.  A thread that has dequeued the
id holds it until it removes it from the processing list; then it owes the occurrence
it removed.
-/

namespace Oxana

open Program

structure WorkNote where
  holds : Bool
  owed : Nat

def WorkNote.idle : WorkNote where
  holds := false
  owed := 0

def Storable (given : String) (id : JobId) (envelope : JobEnvelope) : Prop :=
  envelope.id = id ∧ Plain given envelope.queue

section Monitors

variable (given : String) (id : JobId) (storage : StorageInternal)

def workAllows (note : WorkNote) : Command → Prop
  | .lmove source destination =>
      (∃ queue, Plain given queue ∧ source = storage.namespaceQueue queue) ∧
        destination = storage.currentProcessingQueue
  | .hset field text => ∃ envelope, text = .json envelope ∧ Storable given field envelope
  | .lrem key count member => key = storage.currentProcessingQueue ∧ count = 1 ∧
      (member = id → note.holds = true ∨ 0 < note.owed)
  | .lpush key ids => isProcessingList given key = false ∧ ids.count id ≤ note.owed
  | .zadd _ member _ => member = id → 0 < note.owed
  | .zaddProcess processId _ => processId = storage.processId
  | .hsetProcess processId _ => processId = storage.processId
  | .hget _ => True
  | .hdel _ => True
  | .execute _ => True
  | .lpushDead _ => True
  | .ltrimDead _ => True
  | _ => False

def workExpects : (command : Command) → command.Reply → Prop
  | .hget field, (reply : Option Payload) =>
      ∀ envelope, reply = some (.json envelope) → Storable given field envelope
  | _, _ => True

def workRecords (note : WorkNote) : (command : Command) → command.Reply → WorkNote
  | .lmove _ _, (reply : Option JobId) => { holds := reply == some id, owed := 0 }
  | .lrem _ _ member, _ =>
      if member = id ∧ note.holds = true then { holds := false, owed := note.owed + 1 } else note
  | .lpush _ ids, _ => { note with owed := note.owed - ids.count id }
  | .zadd _ member _, _ => if member = id then { note with owed := note.owed - 1 } else note
  | _, _ => note

def workMonitor : Monitor Command.Reply WorkNote where
  allows := workAllows given id storage
  expects := fun _ => workExpects given
  records := workRecords id

def fleetWatch : Watch where
  id := id
  fits := fun _ key => isProcessingList given key = false
  kept := none
  adds := False

def fleetMonitor : Monitor Command.Reply (RequeueNote ⊕ WorkNote) :=
  (requeueMonitor (fleetWatch given id) storage).sum (workMonitor given id storage)

end Monitors

variable {given : String} {id member : JobId} {storage : StorageInternal} {note : WorkNote}
  {envelope : JobEnvelope}

theorem fleet_pushes (storage : StorageInternal) {key : String} {ids : List JobId}
    {owes : RequeueNote}
    (allowed : requeueAllows (fleetWatch given id) storage owes (.lpush key ids)) :
    isProcessingList given key = false := by
  obtain ⟨member, inside⟩ := List.exists_mem_of_ne_nil ids allowed.1.1
  exact allowed.1.2 member inside

theorem fits_plain {queue : String} (same : storage.given = given) (plain : Plain given queue) :
    isProcessingList given (storage.namespaceQueue queue) = false := by
  rw [← Bool.not_eq_true, isProcessingList_iff]
  rintro ⟨processId, equal⟩
  refine StorageKeys.namespaceQueue_ne_processingQueue given plain processId ?_
  rw [← equal, ← same]
  rfl

def HoldsIt (id member : JobId) (note : WorkNote) : Prop := member = id → note.holds = true

def OwesIt (id member : JobId) (note : WorkNote) : Prop := member = id → 0 < note.owed

/-! Reading and writing envelopes does not change what a thread holds or owes. -/

theorem complies_workGet :
    Complies (workMonitor given id storage)
      (fun found after => after = note ∧
        ∀ envelope, found = some envelope → Storable given member envelope)
      (fun after => after = note) note (StorageInternal.getJob member) := by
  have asks : Complies (workMonitor given id storage)
      (fun text after => after = note ∧
        ∀ envelope, text = some (.json envelope) → Storable given member envelope)
      (fun after => after = note) note (ask (.hget member)) :=
    complies_request trivial fun _ expected => ⟨rfl, expected⟩
  refine complies_bind asks ?_
  rintro text after ⟨rfl, storable⟩
  cases text with
  | none => exact ⟨rfl, by simp⟩
  | some payload =>
      cases payload with
      | malformed text => exact (rfl : after = after)
      | json envelope =>
          refine ⟨rfl, ?_⟩
          rintro found ⟨⟩
          exact storable envelope rfl

theorem complies_workRead :
    Complies (workMonitor given id storage)
      (fun found after => after = note ∧
        ∀ envelope, found = some envelope → Storable given member envelope)
      (fun _ => True) note (StorageInternal.getJob member) :=
  complies_mono complies_workGet (fun _ _ known => known) fun _ _ => trivial

theorem complies_workUpdate (storable : Storable given envelope.id envelope) :
    Complies (workMonitor given id storage) (fun _ after => after = note)
      (fun after => after = note) note (StorageInternal.updateJob envelope) :=
  complies_batch_cons ⟨normalized envelope, rfl, storable⟩ fun _ _ => complies_batch_nil rfl

theorem complies_workStates (states : List Json) :
    Complies (workMonitor given id storage) (fun _ after => after = note)
      (fun after => after = note) note (StorageInternal.persistStates member states) := by
  induction states with
  | nil => exact (rfl : note = note)
  | cons state rest ih =>
      have updates : Complies (workMonitor given id storage) (fun _ after => after = note)
          (fun after => after = note) note (StorageInternal.updateState member state) := by
        refine complies_bind complies_workGet ?_
        rintro found after ⟨rfl, storable⟩
        cases found with
        | none => exact (rfl : after = after)
        | some envelope =>
            obtain ⟨same, plain⟩ := storable envelope rfl
            exact complies_workUpdate ⟨rfl, plain⟩
      refine complies_bind (complies_attempt_keeps updates) ?_
      rintro _ after rfl
      exact ih

/-! Leaving the processing list. -/

theorem allows_leave (holding : HoldsIt id envelope.id note) :
    (workMonitor given id storage).allows note
      (.lrem storage.currentProcessingQueue 1 envelope.id) :=
  ⟨rfl, rfl, fun same => Or.inl (holding same)⟩

theorem owing_leave (holding : HoldsIt id envelope.id note)
    (reply : (Command.lrem storage.currentProcessingQueue 1 envelope.id).Reply) :
    OwesIt id envelope.id ((workMonitor given id storage).records note
      (.lrem storage.currentProcessingQueue 1 envelope.id) reply) := by
  intro same
  simp [workMonitor, workRecords, same, holding same]

theorem complies_workSuccess (holding : HoldsIt id envelope.id note) :
    Complies (workMonitor given id storage) (fun _ _ => True) (fun _ => True) note
      (storage.finishWithSuccess envelope) := by
  refine complies_batch_cons trivial fun _ _ => ?_
  exact complies_batch_cons (allows_leave holding) fun _ _ => complies_batch_nil trivial

theorem complies_workFailure (holding : HoldsIt id envelope.id note) :
    Complies (workMonitor given id storage) (fun _ after => OwesIt id envelope.id after)
      (fun after => OwesIt id envelope.id after) note (storage.finishWithFailure envelope) :=
  complies_batch_cons (allows_leave holding) fun _ _ => complies_batch_nil (owing_leave holding ())

theorem complies_workKill (message : String)
    (mine : HoldsIt id envelope.id note ∨ OwesIt id envelope.id note) :
    Complies (workMonitor given id storage) (fun _ _ => True) (fun _ => True) note
      (storage.kill envelope message) := by
  refine complies_batch_cons ⟨rfl, rfl, ?_⟩ fun _ _ => ?_
  · intro same
    rcases mine with holding | owing
    · exact Or.inl (holding same)
    · exact Or.inr (owing same)
  · refine complies_batch_cons trivial fun _ _ => ?_
    refine complies_batch_cons trivial fun _ _ => ?_
    exact complies_batch_cons trivial fun _ _ => complies_batch_nil trivial

theorem complies_workRetry (now : Int) (delay : Nat) (error : String)
    (owing : OwesIt id member note) :
    Complies (workMonitor given id storage) (fun _ _ => True) (fun _ => True) note
      (StorageInternal.retryIn now member delay error) := by
  refine complies_bind complies_workRead ?_
  rintro found after ⟨rfl, storable⟩
  cases found with
  | none => trivial
  | some envelope =>
      obtain ⟨same, plain⟩ := storable envelope rfl
      refine complies_batch_cons ⟨_, rfl, rfl, plain⟩ fun _ _ => ?_
      refine complies_batch_cons ?_ fun _ _ => complies_batch_nil trivial
      intro watched
      exact owing (same.symm.trans watched)

theorem complies_workErr (now : Int) (message : String) (delay maxRetries : Nat)
    (holding : HoldsIt id envelope.id note) :
    Complies (workMonitor given id storage) (fun _ _ => True) (fun _ => True) note
      (storage.handleErr now message envelope delay maxRetries) := by
  unfold StorageInternal.handleErr
  split
  · refine complies_bind (complies_mono (complies_attempt_keeps (complies_workFailure holding))
      (fun _ _ owing => owing) fun _ _ => trivial) ?_
    intro _ after owing
    refine complies_bind (complies_attempt_keeps (complies_workRetry now delay message owing)) ?_
    exact fun _ _ _ => trivial
  · refine complies_bind (complies_attempt_keeps (complies_workKill message (Or.inl holding))) ?_
    exact fun _ _ _ => trivial

theorem complies_workResult (now : Int) (override : RetryDelayOverride)
    (result : ExecutionResult) (policy : JobExecutionPolicy)
    (holding : HoldsIt id envelope.id note) :
    Complies (workMonitor given id storage) (fun _ _ => True) (fun _ => True) note
      (storage.finishJobResult now override result envelope policy) := by
  cases result with
  | panic message => exact complies_workErr _ _ _ _ holding
  | notPanic outcome =>
      cases outcome with
      | error message => exact complies_workErr _ _ _ _ holding
      | ok value =>
          refine complies_bind (complies_attempt_keeps (complies_workSuccess holding)) ?_
          exact fun _ _ _ => trivial

theorem complies_workExecute (started : JobEnvelope) :
    Complies (workMonitor given id storage) (fun _ after => after = note) (fun _ => True) note
      (ask (.execute started)) :=
  complies_request trivial fun _ _ => rfl

theorem complies_workRun (job : StorageInternal.Attempt) (plain : Plain given envelope.queue)
    (holding : HoldsIt id envelope.id note) :
    Complies (workMonitor given id storage) (fun _ _ => True) (fun _ => True) note
      (storage.run job envelope) := by
  unfold StorageInternal.run
  generalize chosen : (if job.shouldResume then envelope else envelope.withState none) = prepared
  have kept : prepared.id = envelope.id ∧ prepared.queue = envelope.queue := by
    rw [← chosen]
    split
    · exact ⟨rfl, rfl⟩
    · exact ⟨rfl, rfl⟩
  have starts : Complies (workMonitor given id storage)
      (fun started after => started = prepared.withStartedAt job.startedAt ∧ after = note)
      (fun _ => True) note (StorageInternal.setStartedAt job.startedAt prepared) := by
    have storable : Storable given (prepared.withStartedAt job.startedAt).id
        (prepared.withStartedAt job.startedAt) := by
      refine ⟨rfl, ?_⟩
      change Plain given prepared.queue
      rw [kept.2]
      exact plain
    refine complies_bind (complies_mono (complies_workUpdate storable) (fun _ _ same => same)
      fun _ _ => trivial) ?_
    exact fun _ _ unchanged => ⟨rfl, unchanged⟩
  refine complies_bind starts ?_
  rintro started after ⟨rfl, rfl⟩
  refine complies_bind (complies_workExecute _) ?_
  rintro _ running rfl
  refine complies_bind (complies_mono (complies_workStates job.states) (fun _ _ same => same)
    fun _ _ => trivial) ?_
  rintro _ final rfl
  refine complies_workResult _ _ _ _ ?_
  change HoldsIt id prepared.id final
  rw [kept.1]
  exact holding

theorem complies_workPending (build : JobEnvelope → Except String StorageInternal.Attempt)
    (plain : Plain given envelope.queue) (holding : HoldsIt id envelope.id note) :
    Complies (workMonitor given id storage) (fun _ _ => True) (fun _ => True) note
      (storage.processPendingJob build envelope) := by
  unfold StorageInternal.processPendingJob
  split
  · exact complies_workRun _ plain holding
  · refine complies_bind (complies_attempt_keeps (complies_workKill _ (Or.inl holding))) ?_
    exact fun _ _ _ => trivial

theorem complies_workLoad (holding : HoldsIt id member note) :
    Complies (workMonitor given id storage)
      (fun pending after => ∀ envelope, pending = some envelope →
        after = note ∧ Storable given member envelope)
      (fun _ => True) note (storage.loadPendingJob member) := by
  have reads : Complies (workMonitor given id storage)
      (fun found after => after = note ∧
        ∀ envelope, found = .ok (some envelope) → Storable given member envelope)
      (fun _ => True) note (StorageInternal.getJob member).attempt := by
    refine complies_attempt (complies_mono complies_workGet ?_ ?_)
    · rintro found after ⟨same, storable⟩
      refine ⟨same, ?_⟩
      rintro envelope ⟨⟩
      exact storable envelope rfl
    · rintro after same
      exact ⟨trivial, fun _ => ⟨same, by rintro _ ⟨⟩⟩⟩
  refine complies_bind reads ?_
  rintro found after ⟨rfl, storable⟩
  cases found with
  | error error => exact fun _ impossible => by cases impossible
  | ok stored =>
      cases stored with
      | some envelope =>
          rintro found ⟨⟩
          exact ⟨rfl, storable envelope rfl⟩
      | none =>
          have deletes : Complies (workMonitor given id storage) (fun _ _ => True)
              (fun _ => True) after (storage.deleteJob member) := by
            refine complies_batch_cons trivial fun _ _ => ?_
            exact complies_batch_cons ⟨rfl, rfl, fun same => Or.inl (holding same)⟩
              fun _ _ => complies_batch_nil trivial
          refine complies_bind (complies_attempt_keeps deletes) ?_
          exact fun _ _ _ _ impossible => by cases impossible

theorem complies_workRoute (build : JobEnvelope → Except String StorageInternal.Attempt)
    (holding : HoldsIt id member note) :
    Complies (workMonitor given id storage) (fun _ _ => True) (fun _ => True) note
      (storage.routeJob build member) := by
  refine complies_bind (complies_workLoad holding) ?_
  intro pending after known
  cases pending with
  | none => trivial
  | some envelope =>
      obtain ⟨rfl, same, plain⟩ := known envelope rfl
      refine complies_workPending build plain ?_
      rw [same]
      exact holding

theorem complies_workDequeue {queue : String} (plain : Plain given queue) :
    Complies (workMonitor given id storage)
      (fun next after => ∀ member, next = some member → HoldsIt id member after)
      (fun _ => True) note (storage.dequeue queue) := by
  refine complies_request ⟨⟨queue, plain, rfl⟩, rfl⟩ ?_
  rintro reply _ member rfl same
  simp [workMonitor, workRecords, same]

theorem complies_workExecuted {prepared : JobEnvelope} (states : List Json)
    (result : ExecutionResult) (holding : HoldsIt id prepared.id note) (member : JobId) :
    Complies (workMonitor given id storage) (fun _ _ => True) (fun _ => True) note (do
      ask (.execute prepared)
      StorageInternal.persistStates member states
      match result with
      | .notPanic (.ok ()) => do
          storage.finishWithSuccess prepared
          pure StorageInternal.ProcessJobResult.success
      | .notPanic (.error message) => do
          storage.finishWithFailure prepared
          storage.kill prepared message
          pure StorageInternal.ProcessJobResult.failed
      | .panic _ => .halt) := by
  refine complies_bind (complies_workExecute prepared) ?_
  rintro _ running rfl
  refine complies_bind (complies_mono (complies_workStates states)
    (fun _ _ unchanged => unchanged) fun _ _ => trivial) ?_
  rintro _ final rfl
  split
  · exact complies_bind (complies_workSuccess holding) fun _ _ _ => trivial
  · refine complies_bind (complies_mono (complies_workFailure holding)
      (fun _ _ owing => owing) fun _ _ => trivial) ?_
    intro _ gone owing
    exact complies_bind (complies_workKill _ (Or.inr owing)) fun _ _ _ => trivial
  · trivial

theorem complies_workJob (build : JobEnvelope → Except OxanaError StorageInternal.Attempt)
    (holding : HoldsIt id member note) :
    Complies (workMonitor given id storage) (fun _ _ => True) (fun _ => True) note
      (storage.processJob build member) := by
  refine complies_bind complies_workRead ?_
  rintro found after ⟨rfl, storable⟩
  cases found with
  | none => trivial
  | some envelope =>
      obtain ⟨same, plain⟩ := storable envelope rfl
      dsimp only
      split
      · trivial
      · rename_i job built
        generalize chosen : (if job.shouldResume then envelope else envelope.withState none) =
          prepared
        have kept : prepared.id = member ∧ prepared.queue = envelope.queue := by
          rw [← chosen]
          split
          · exact ⟨same, rfl⟩
          · exact ⟨same, rfl⟩
        have mine : HoldsIt id prepared.id after := by
          rw [kept.1]
          exact holding
        split
        · exact complies_workExecuted job.states job.result mine member
        · have storable : Storable given prepared.id prepared := by
            refine ⟨rfl, ?_⟩
            rw [kept.2]
            exact plain
          refine complies_bind (complies_mono (complies_workUpdate storable)
            (fun _ _ unchanged => unchanged) fun _ _ => trivial) ?_
          rintro _ later rfl
          exact complies_workExecuted job.states job.result mine member

theorem complies_workDrain (build : JobEnvelope → Except OxanaError StorageInternal.Attempt)
    {queue : String} (plain : Plain given queue) (bound : Nat) (stats : StorageInternal.DrainStats) :
    Complies (workMonitor given id storage) (fun _ _ => True) (fun _ => True) note
      (storage.drain build queue bound stats) := by
  induction bound generalizing note stats with
  | zero => trivial
  | succ bound ih =>
      unfold StorageInternal.drain
      refine complies_bind (complies_workDequeue plain) ?_
      intro next after holding
      cases next with
      | none => trivial
      | some member =>
          refine complies_bind (complies_workJob build (holding member rfl)) ?_
          exact fun result later _ => ih (stats.add result)

theorem complies_workEnqueue (destination : JobDestination) (same : storage.given = given)
    (plain : Plain given envelope.queue) (single : envelope.metadata.unique = false)
    (owing : OwesIt id envelope.id note) :
    Complies (workMonitor given id storage) (fun _ _ => True) (fun _ => True) note
      (storage.enqueueWConn envelope destination) := by
  have decided : StorageInternal.jobEnqueueAction envelope = pure .default := by
    unfold StorageInternal.jobEnqueueAction
    rw [single]
    rfl
  have sends : Complies (workMonitor given id storage) (fun _ _ => True) (fun _ => True) note
      (batch (storage.appendEnqueue envelope destination) : Redis Unit) := by
    refine complies_batch_cons ⟨normalized envelope, rfl, rfl, plain⟩ fun _ _ => ?_
    refine complies_batch_cons ?_ fun _ _ => complies_batch_nil trivial
    cases destination with
    | schedule => exact owing
    | queue =>
        refine ⟨fits_plain same plain, ?_⟩
        rw [List.count_singleton]
        split
        · rename_i watched
          exact owing (beq_iff_eq.mp watched)
        · exact Nat.zero_le _
  have whole : Complies (workMonitor given id storage) (fun _ _ => True) (fun _ => True) note
      (batch (storage.appendEnqueue envelope destination) >>= fun _ => pure envelope.id) :=
    complies_bind sends fun _ _ _ => trivial
  unfold StorageInternal.enqueueWConn
  rw [decided]
  exact whole

def Duty.owes (id : JobId) : Duty → Nat
  | enqueue envelope _ => if envelope.id = id then 1 else 0
  | _ => 0

theorem complies_duty (id : JobId) (duty : Duty) {issued : JobId → Bool}
    (same : storage.given = given) (ordinary : duty.Ordinary given issued) :
    ∃ note : RequeueNote ⊕ WorkNote,
      ((note = .inl ⟨duty.owes id, duty.judgement⟩) ∨
        (note = .inr ⟨false, duty.owes id⟩ ∧ duty.judgement = .idle)) ∧
      Complies (fleetMonitor given id storage) (fun _ _ => True) (fun _ => True) note
        (duty.program storage) := by
  cases duty with
  | enqueue envelope destination =>
      obtain ⟨plain, single, _⟩ := ordinary
      refine ⟨.inr ⟨false, _⟩, Or.inr ⟨rfl, rfl⟩, complies_inr ?_⟩
      refine complies_bind (complies_workEnqueue destination same plain single ?_)
        fun _ _ _ => trivial
      intro watched
      simp [Duty.owes, watched]
  | ping now =>
      refine ⟨.inr ⟨false, 0⟩, Or.inr ⟨rfl, rfl⟩, complies_inr ?_⟩
      refine complies_batch_cons rfl fun _ _ => ?_
      exact complies_batch_cons rfl fun _ _ => complies_batch_nil trivial
  | promote now name =>
      refine ⟨_, Or.inl rfl, complies_inl ?_⟩
      exact complies_bind (complies_enqueueScheduled now name) fun _ _ _ => trivial
  | resurrect bound now threshold =>
      refine ⟨_, Or.inl rfl, complies_inl ?_⟩
      exact complies_mono (complies_resurrect bound now threshold rfl rfl) (fun _ _ _ => trivial)
        fun _ _ => trivial
  | work queue build =>
      refine ⟨.inr ⟨false, 0⟩, Or.inr ⟨rfl, rfl⟩, complies_inr ?_⟩
      refine complies_bind (complies_workDequeue ordinary) ?_
      intro next after holding
      cases next with
      | none => trivial
      | some member => exact complies_workRoute build (holding member rfl)
  | drain bound queue build =>
      refine ⟨.inr ⟨false, 0⟩, Or.inr ⟨rfl, rfl⟩, complies_inr ?_⟩
      exact complies_bind (complies_workDrain build ordinary bound .default) fun _ _ _ => trivial

end Oxana
