import Oxana.PendingBatch
import Oxana.PoolFaults

/-!
The way of a job id through the tasks of a process: a dispatcher pops it, the coordinator
loads its envelope, and a worker runs it alone or in a batch.  What the tasks send is watched
for one id, which is in the processing list of the process from the pop on.
-/

namespace Oxana

open Program

structure ThrottlerState where
  requests : Nat
  isAllowed : Bool
  throttledFor : Option Int

/-- What the throttler of a queue answers to one pop; its keys hold no job ids. -/
structure ThrottlerCalls where
  state : Except OxanaError ThrottlerState
  consume : Option Nat → Except OxanaError ThrottlerState

namespace StorageInternal

def popQueueMessageWoThrottle (storage : StorageInternal) (queueKey : String) :
    Redis (Option JobId) :=
  storage.dequeue queueKey

def popQueueMessageWThrottle (storage : StorageInternal) (queueKey : String)
    (throttler : ThrottlerCalls) : Redis (Option JobId) := do
  let state ← Program.ofExcept throttler.state
  if state.isAllowed then do
    let next ← storage.dequeue queueKey
    match next with
    | some id => do
        let envelope ← getJob id
        let _ ← Program.ofExcept
          (throttler.consume (envelope.bind fun found => found.metadata.throttleCost))
        pure (some id)
    | none => pure none
  else pure none

def popQueueMessage (storage : StorageInternal) (queueKey : String) :
    Option ThrottlerCalls → Redis (Option JobId)
  | some throttler => storage.popQueueMessageWThrottle queueKey throttler
  | none => storage.popQueueMessageWoThrottle queueKey

/-- A dispatcher that goes on after an error, and the coordinator that gets the id. -/
def popAndLoad (storage : StorageInternal) (queueKey : String)
    (throttler : Option ThrottlerCalls) : Redis (Option JobEnvelope) := do
  let popped ← (storage.popQueueMessage queueKey throttler).attempt
  match popped with
  | .ok (some id) => storage.loadPendingJob id
  | _ => pure none

def popAndLoadAll (storage : StorageInternal) :
    List (String × Option ThrottlerCalls) → Redis (List JobEnvelope)
  | [] => pure []
  | pop :: rest => do
      let envelope ← storage.popAndLoad pop.1 pop.2
      let others ← popAndLoadAll storage rest
      pure (envelope.toList ++ others)

end StorageInternal

inductive WorkerDuty
  | single (queueKey : String) (throttler : Option ThrottlerCalls)
      (build : JobEnvelope → Except String StorageInternal.Attempt)
  | batch (pops : List (String × Option ThrottlerCalls)) (registry : String → Option BatchWorker)

def Consumes (throttler : Option ThrottlerCalls) : Prop :=
  ∀ calls, throttler = some calls → ∀ cost, ∃ state, calls.consume cost = .ok state

namespace WorkerDuty

def program (storage : StorageInternal) : WorkerDuty → Redis Unit
  | single queueKey throttler build => do
      let pending ← storage.popAndLoad queueKey throttler
      match pending with
      | some envelope => storage.processPendingJob build envelope
      | none => pure ()
  | batch pops registry => do
      let pending ← storage.popAndLoadAll pops
      storage.processPendingBatch (buildBatch registry) pending

def Consuming : WorkerDuty → Prop
  | single _ throttler _ => Consumes throttler
  | batch pops _ => ∀ pop ∈ pops, Consumes pop.2

end WorkerDuty

/-! The monitor. -/

/-- How often the id is in the processing list because of this task, and whether the task
has handed a job to a worker. -/
structure StrandNote where
  held : Nat
  started : Bool

section Monitor

variable (own : String) (id : JobId)

def strandAllows : Command → Prop
  | .lmove _ destination => destination = own
  | .lrem key count _ => key = own ∧ count = 1
  | .lpush _ _ => False
  | .lpop _ _ => False
  | .del _ => False
  | _ => True

def strandExpects (note : StrandNote) : (command : Command) → command.Reply → Prop
  | .hget field, (reply : Option Payload) => note.started = false →
      ∀ text, reply = some text → ∃ envelope, text = .json envelope ∧ envelope.id = field
  | _, _ => True

def strandRemoves (note : StrandNote) (member : JobId) : StrandNote :=
  { note with held := note.held - if member = id then 1 else 0 }

def strandRecords (note : StrandNote) : (command : Command) → command.Reply → StrandNote
  | .lmove _ _, (reply : Option JobId) =>
      { note with held := note.held + if reply = some id then 1 else 0 }
  | .lrem _ _ member, _ => strandRemoves id note member
  | .execute _, _ => { note with started := true }
  | _, _ => note

/-- A pop that was applied and a removal that was not leave the id behind, and so does any
failure while the job is loaded and started. -/
def strandTolerates (note : StrandNote) (applied : Bool) : Command → Prop
  | .lmove _ _ => applied = false
  | .lrem _ _ _ => applied = true
  | .hget _ => note.started = true
  | .hset _ _ => note.started = true
  | .hsetMultiple _ => note.started = true
  | .execute _ => False
  | _ => True

def strandSurvives (note : StrandNote) : Command → StrandNote
  | .lrem _ _ member => strandRemoves id note member
  | _ => note

def strandMonitor : FaultMonitor Command.Reply StrandNote where
  allows := fun _ => strandAllows own
  expects := strandExpects
  records := strandRecords id
  tolerates := strandTolerates
  survives := fun note _ => strandSurvives id note

end Monitor

variable {id member : JobId} {storage : StorageInternal} {note : StrandNote}
  {envelope : JobEnvelope}

/-! Pipelines. -/

def strandPipe (own : String) : Command → Prop
  | .hset _ _ => True
  | .hdel _ => True
  | .zadd _ _ _ => True
  | .lrem key count _ => key = own ∧ count = 1
  | .lpushDead _ => True
  | .ltrimDead _ => True
  | _ => False

theorem withstands_pipe {own : String} {commands : List Command} {final : StrandNote}
    (fits : ∀ command ∈ commands, strandPipe own command)
    (removed : commands.foldl (strandSurvives id) note = final) :
    Withstands (strandMonitor own id) (fun _ after => after = final) (fun after => after = final)
      note (batch commands : Redis Unit) := by
  refine withstands_batchFrom commands none ?_ removed removed
  intro command member current
  have pipe := fits command member
  cases command <;> first
    | exact ⟨trivial, fun _ => rfl, fun _ _ => rfl⟩
    | exact ⟨pipe, fun _ => rfl, fun _ _ => rfl⟩
    | exact False.elim pipe

theorem withstands_success :
    Withstands (strandMonitor storage.currentProcessingQueue id)
      (fun _ after => after = strandRemoves id note envelope.id)
      (fun after => after = strandRemoves id note envelope.id) note
      (storage.finishWithSuccess envelope) := by
  refine withstands_pipe ?_ rfl
  simp [strandPipe]

theorem withstands_failure :
    Withstands (strandMonitor storage.currentProcessingQueue id)
      (fun _ after => after = strandRemoves id note envelope.id)
      (fun after => after = strandRemoves id note envelope.id) note
      (storage.finishWithFailure envelope) := by
  refine withstands_pipe ?_ rfl
  simp [strandPipe]

theorem withstands_kill (message : String) :
    Withstands (strandMonitor storage.currentProcessingQueue id)
      (fun _ after => after = strandRemoves id note envelope.id)
      (fun after => after = strandRemoves id note envelope.id) note
      (storage.kill envelope message) := by
  refine withstands_pipe ?_ rfl
  simp [strandPipe]

theorem withstands_delete :
    Withstands (strandMonitor storage.currentProcessingQueue id)
      (fun _ after => after = strandRemoves id note member)
      (fun after => after = strandRemoves id note member) note (storage.deleteJob member) := by
  refine withstands_pipe ?_ rfl
  simp [strandPipe]

def strandRemovesAll (id : JobId) (note : StrandNote) (envelopes : List JobEnvelope) : StrandNote :=
  { note with held := note.held - (envelopes.map JobEnvelope.id).count id }

theorem removesAll_cons (rest : List JobEnvelope) :
    strandRemovesAll id (strandRemoves id note envelope.id) rest =
      strandRemovesAll id note (envelope :: rest) := by
  simp only [strandRemovesAll, strandRemoves, List.map_cons, List.count_cons, beq_iff_eq]
  congr 1
  omega

theorem withstands_successBatch (envelopes : List JobEnvelope) :
    Withstands (strandMonitor storage.currentProcessingQueue id)
      (fun _ after => after = strandRemovesAll id note envelopes)
      (fun after => after = strandRemovesAll id note envelopes) note
      (storage.finishWithSuccessBatch envelopes) := by
  unfold StorageInternal.finishWithSuccessBatch
  split
  · rename_i empty
    rw [empty]
    exact (rfl : note = note)
  · have removed : (Command.hdel (envelopes.map JobEnvelope.id) :: envelopes.map fun envelope =>
        Command.lrem storage.currentProcessingQueue 1 envelope.id).foldl (strandSurvives id) note =
          strandRemovesAll id note envelopes := by
      rw [List.foldl_cons, List.foldl_map]
      change envelopes.foldl (fun current envelope => strandRemoves id current envelope.id) note = _
      generalize note = current
      induction envelopes generalizing current with
      | nil => rfl
      | cons envelope rest ih =>
          rw [List.foldl_cons]
          by_cases last : rest = []
          · subst last
            exact removesAll_cons []
          · rw [ih last, removesAll_cons]
    refine withstands_pipe ?_ removed
    intro command listed
    rcases List.mem_cons.mp listed with rfl | listed
    · trivial
    · obtain ⟨envelope, _, rfl⟩ := List.mem_map.mp listed
      exact ⟨rfl, rfl⟩

/-! The states that a worker persists. -/

theorem withstands_read {own : String} :
    Withstands (strandMonitor own id) (fun _ after => after = note) (fun after => after = note)
      note (StorageInternal.getJob member) := by
  have asks : Withstands (strandMonitor own id) (fun _ after => after = note)
      (fun after => after = note) note (ask (.hget member)) :=
    withstands_request trivial (fun _ _ => rfl) fun _ _ => rfl
  refine withstands_bind asks ?_
  rintro text after rfl
  cases text with
  | none => exact (rfl : after = after)
  | some payload => cases payload <;> exact (rfl : after = after)

theorem withstands_updateState {own : String} (state : Json) :
    Withstands (strandMonitor own id) (fun _ after => after = note) (fun after => after = note)
      note (StorageInternal.updateState member state) := by
  refine withstands_bind withstands_read ?_
  rintro found after rfl
  cases found with
  | none => exact (rfl : after = after)
  | some stored =>
      refine withstands_pipe ?_ rfl
      simp [strandPipe]

theorem withstands_states {own : String} {fails : StrandNote → Prop} (states : List Json) :
    Withstands (strandMonitor own id) (fun _ after => after = note) fails note
      (StorageInternal.persistStates member states) := by
  induction states with
  | nil => exact (rfl : note = note)
  | cons state rest ih =>
      refine withstands_bind (withstands_attempt_keeps (withstands_updateState state)) ?_
      rintro _ after rfl
      exact ih

theorem withstands_batchStates {own : String} {fails : StrandNote → Prop} (ids : List JobId)
    (states : List (Nat × Json)) :
    Withstands (strandMonitor own id) (fun _ after => after = note) fails note
      (StorageInternal.persistBatchStates ids states) := by
  induction states with
  | nil => exact (rfl : note = note)
  | cons update rest ih =>
      unfold StorageInternal.persistBatchStates
      split
      · exact ih
      · refine withstands_bind (withstands_attempt_keeps (withstands_updateState update.2)) ?_
        rintro _ after rfl
        exact ih

theorem withstands_retryIn {own : String} (now : Int) (delay : Nat) (error : String) :
    Withstands (strandMonitor own id) (fun _ after => after = note) (fun after => after = note)
      note (StorageInternal.retryIn now member delay error) := by
  refine withstands_bind withstands_read ?_
  rintro found after rfl
  cases found with
  | none => exact (rfl : after = after)
  | some stored =>
      refine withstands_pipe ?_ rfl
      simp [strandPipe]

/-! Running one job. -/

section Single

variable {fails : StrandNote → Prop}

theorem withstands_handleErr (now : Int) (message : String) (delay maxRetries : Nat) :
    Withstands (strandMonitor storage.currentProcessingQueue id)
      (fun _ after => after = strandRemoves id note envelope.id) fails note
      (storage.handleErr now message envelope delay maxRetries) := by
  unfold StorageInternal.handleErr
  split
  · refine withstands_bind (withstands_attempt_keeps withstands_failure) ?_
    rintro _ after rfl
    refine withstands_bind (withstands_attempt_keeps (withstands_retryIn now delay message)) ?_
    rintro _ final rfl
    exact (rfl : _ = strandRemoves id note envelope.id)
  · refine withstands_bind (withstands_attempt_keeps (withstands_kill message)) ?_
    rintro _ after rfl
    exact (rfl : _ = strandRemoves id note envelope.id)

theorem withstands_result (now : Int) (override : RetryDelayOverride) (result : ExecutionResult)
    (policy : JobExecutionPolicy) :
    Withstands (strandMonitor storage.currentProcessingQueue id)
      (fun _ after => after = strandRemoves id note envelope.id) fails note
      (storage.finishJobResult now override result envelope policy) := by
  unfold StorageInternal.finishJobResult
  split
  · refine withstands_bind (withstands_attempt_keeps withstands_success) ?_
    rintro _ after rfl
    exact (rfl : _ = strandRemoves id note envelope.id)
  · exact withstands_handleErr _ _ _ _
  · exact withstands_handleErr _ _ _ _

theorem withstands_updateJob {own : String} (fresh : note.started = false) :
    Withstands (strandMonitor own id) (fun _ after => after = note) fails note
      (StorageInternal.updateJob envelope) := by
  refine ⟨trivial, fun _ _ => (rfl : note = note), ?_⟩
  intro applied error tolerated
  rw [show note.started = true from tolerated] at fresh
  cases fresh

theorem withstands_execute {own : String} :
    Withstands (strandMonitor own id) (fun _ after => after = { note with started := true })
      fails note (ask (.execute envelope)) :=
  withstands_request trivial (fun _ _ => rfl) fun _ impossible => False.elim impossible

theorem withstands_run (fresh : note.started = false) (job : StorageInternal.Attempt) :
    Withstands (strandMonitor storage.currentProcessingQueue id)
      (fun _ after => after.held = note.held - if envelope.id = id then 1 else 0) fails note
      (storage.run job envelope) := by
  unfold StorageInternal.run
  generalize chosen : (if job.shouldResume then envelope else envelope.withState none) = prepared
  have same : prepared.id = envelope.id := by
    rw [← chosen]
    split <;> rfl
  have starts : Withstands (strandMonitor storage.currentProcessingQueue id)
      (fun started after => after = note ∧ started = prepared.withStartedAt job.startedAt)
      fails note (StorageInternal.setStartedAt job.startedAt prepared) := by
    refine withstands_bind (withstands_updateJob fresh) ?_
    rintro _ after rfl
    exact ⟨rfl, rfl⟩
  refine withstands_bind starts ?_
  rintro started after ⟨rfl, rfl⟩
  refine withstands_bind withstands_execute ?_
  rintro _ running rfl
  refine withstands_bind (withstands_states job.states) ?_
  rintro _ final rfl
  refine withstands_mono (withstands_result _ _ _ _) ?_ fun _ kept => kept
  rintro _ last rfl
  change after.held - (if prepared.id = id then 1 else 0) = _
  rw [same]

theorem withstands_pending (fresh : note.started = false)
    (build : JobEnvelope → Except String StorageInternal.Attempt) :
    Withstands (strandMonitor storage.currentProcessingQueue id)
      (fun _ after => after.held = note.held - if envelope.id = id then 1 else 0) fails note
      (storage.processPendingJob build envelope) := by
  unfold StorageInternal.processPendingJob
  cases build envelope with
  | ok job => exact withstands_run fresh job
  | error error =>
      refine withstands_bind (withstands_attempt_keeps (withstands_kill _)) ?_
      rintro _ after rfl
      exact (rfl : note.held - (if envelope.id = id then 1 else 0) = _)

end Single

/-! Popping and loading. -/

section Loading

variable {fails : StrandNote → Prop}

theorem withstands_getJob {own : String} (fresh : note.started = false) :
    Withstands (strandMonitor own id)
      (fun found after => after = note ∧ ∀ envelope, found = some envelope → envelope.id = member)
      fails note (StorageInternal.getJob member) := by
  have asks : Withstands (strandMonitor own id)
      (fun text after => after = note ∧
        ∀ found, text = some found → ∃ envelope, found = .json envelope ∧ envelope.id = member)
      fails note (ask (.hget member)) := by
    refine withstands_request trivial (fun _ expected => ⟨rfl, expected fresh⟩) ?_
    intro applied tolerated
    rw [show note.started = true from tolerated] at fresh
    cases fresh
  refine withstands_bind asks ?_
  rintro text after ⟨rfl, decodes⟩
  cases text with
  | none => exact ⟨rfl, by simp⟩
  | some payload =>
      obtain ⟨envelope, rfl, same⟩ := decodes payload rfl
      refine ⟨rfl, ?_⟩
      rintro found ⟨⟩
      exact same

theorem withstands_dequeue {queueKey : String} :
    Withstands (strandMonitor storage.currentProcessingQueue id)
      (fun next after => after = { note with held := note.held + if next = some id then 1 else 0 })
      (fun after => after = note) note (storage.dequeue queueKey) :=
  withstands_request rfl (fun _ _ => rfl) fun _ _ => rfl

theorem withstands_pop {queueKey : String} {throttler : Option ThrottlerCalls}
    (fresh : note.started = false) (consumes : Consumes throttler) :
    Withstands (strandMonitor storage.currentProcessingQueue id)
      (fun next after => after = { note with held := note.held + if next = some id then 1 else 0 })
      (fun after => after = note) note (storage.popQueueMessage queueKey throttler) := by
  have empty :
      note = { note with held := note.held + if (none : Option JobId) = some id then 1 else 0 } :=
    rfl
  cases throttler with
  | none => exact withstands_dequeue
  | some calls =>
      rcases calls with ⟨error | state, consume⟩
      · exact (rfl : note = note)
      · change Withstands _ _ _ _ (if state.isAllowed then _ else _)
        split
        · refine withstands_bind withstands_dequeue ?_
          rintro next after rfl
          cases next with
          | none => exact empty
          | some popped =>
              refine withstands_bind (withstands_getJob fresh) ?_
              rintro found later ⟨rfl, _⟩
              obtain ⟨consumed, answer⟩ := consumes _ rfl
                (found.bind fun envelope => envelope.metadata.throttleCost)
              dsimp only at answer ⊢
              rw [answer]
              exact (rfl : _ = _)
        · exact empty

theorem withstands_load (fresh : note.started = false) (mine : member = id → 0 < note.held) :
    Withstands (strandMonitor storage.currentProcessingQueue id)
      (fun pending after => after.started = false ∧
        after.held + (if member = id then 1 else 0) =
          note.held + (pending.toList.map JobEnvelope.id).count id ∧
        ∀ envelope, pending = some envelope → envelope.id = member)
      fails note (storage.loadPendingJob member) := by
  have reads : Withstands (strandMonitor storage.currentProcessingQueue id)
      (fun found after => after = note ∧ ∃ stored, found = .ok stored ∧
        ∀ envelope, stored = some envelope → envelope.id = member)
      fails note (StorageInternal.getJob member).attempt := by
    refine withstands_attempt (withstands_mono (withstands_getJob fresh) ?_ fun _ kept => kept)
    rintro found after ⟨rfl, same⟩
    exact ⟨rfl, found, rfl, same⟩
  refine withstands_bind reads ?_
  rintro found after ⟨rfl, stored, rfl, same⟩
  cases stored with
  | some envelope =>
      refine ⟨fresh, ?_, same⟩
      rw [Option.toList_some, List.map_singleton, List.count_singleton, same envelope rfl]
      simp only [beq_iff_eq]
  | none =>
      refine withstands_bind (withstands_attempt_keeps withstands_delete) ?_
      rintro _ later rfl
      refine ⟨fresh, ?_, fun _ impossible => by cases impossible⟩
      change after.held - (if member = id then 1 else 0) + (if member = id then 1 else 0) =
        after.held + 0
      by_cases watched : member = id
      · have positive := mine watched
        rw [if_pos watched]
        omega
      · rw [if_neg watched]
        omega

theorem withstands_popAndLoad {queueKey : String} {throttler : Option ThrottlerCalls}
    (fresh : note.started = false) (consumes : Consumes throttler) :
    Withstands (strandMonitor storage.currentProcessingQueue id)
      (fun pending after => after.started = false ∧
        after.held = note.held + (pending.toList.map JobEnvelope.id).count id)
      fails note (storage.popAndLoad queueKey throttler) := by
  have pops : Withstands (strandMonitor storage.currentProcessingQueue id)
      (fun popped after => after.started = false ∧ after.held = note.held +
        match popped with
        | .ok (some member) => if member = id then 1 else 0
        | _ => 0)
      fails note (storage.popQueueMessage queueKey throttler).attempt := by
    refine withstands_attempt (withstands_mono (withstands_pop fresh consumes) ?_ ?_)
    · rintro next after rfl
      cases next with
      | none => exact ⟨fresh, rfl⟩
      | some member =>
          refine ⟨fresh, ?_⟩
          simp only [Option.some.injEq]
    · rintro after rfl error
      exact ⟨fresh, rfl⟩
  refine withstands_bind pops ?_
  rintro popped after ⟨fresh, held⟩
  rcases popped with error | next
  · exact ⟨fresh, held⟩
  · cases next with
    | none => exact ⟨fresh, held⟩
    | some member =>
        dsimp only at held ⊢
        refine withstands_mono (withstands_load fresh ?_) ?_ fun _ kept => kept
        · intro watched
          rw [if_pos watched] at held
          omega
        · rintro pending later ⟨same, counted, _⟩
          exact ⟨same, by omega⟩

theorem withstands_popAndLoadAll {pops : List (String × Option ThrottlerCalls)}
    (fresh : note.started = false) (consumes : ∀ pop ∈ pops, Consumes pop.2) :
    Withstands (strandMonitor storage.currentProcessingQueue id)
      (fun pending after => after.started = false ∧
        after.held = note.held + (pending.map JobEnvelope.id).count id)
      fails note (storage.popAndLoadAll pops) := by
  induction pops generalizing note with
  | nil => exact ⟨fresh, rfl⟩
  | cons pop rest ih =>
      refine withstands_bind (withstands_popAndLoad fresh (consumes pop List.mem_cons_self)) ?_
      rintro first after ⟨kept, held⟩
      refine withstands_bind (ih kept fun other member =>
        consumes other (List.mem_cons_of_mem _ member)) ?_
      rintro others final ⟨same, more⟩
      refine ⟨same, ?_⟩
      rw [List.map_append, List.count_append]
      omega

end Loading

/-! Running a batch. -/

section Batches

variable {fails : StrandNote → Prop}

theorem withstands_killEach (message : String) (envelopes : List JobEnvelope) :
    Withstands (strandMonitor storage.currentProcessingQueue id)
      (fun _ after => after = strandRemovesAll id note envelopes) fails note
      (storage.killEach message envelopes) := by
  induction envelopes generalizing note with
  | nil => exact (rfl : note = note)
  | cons envelope rest ih =>
      refine withstands_bind (withstands_attempt_keeps (withstands_kill message)) ?_
      rintro _ after rfl
      rw [← removesAll_cons]
      exact ih

theorem withstands_sortOut (workerName : String) (worker : BatchWorker)
    {invalid : Nat → Option String} {index : Nat} {envelopes : List JobEnvelope}
    (noted : ∀ offset, invalid (index + offset) =
      envelopes[offset]?.bind fun envelope => parseFailure worker envelope.job.args) :
    Withstands (strandMonitor storage.currentProcessingQueue id)
      (fun valid after => valid = envelopes.filter (fun envelope =>
          (parseFailure worker envelope.job.args).isNone) ∧
        after = strandRemovesAll id note (envelopes.filter fun envelope =>
          (parseFailure worker envelope.job.args).isSome))
      fails note (storage.sortOut workerName invalid index envelopes) := by
  induction envelopes generalizing index note with
  | nil => exact ⟨rfl, rfl⟩
  | cons envelope rest ih =>
      have first : invalid index = parseFailure worker envelope.job.args := by
        simpa using noted 0
      have later : ∀ offset, invalid (index + 1 + offset) =
          rest[offset]?.bind fun envelope => parseFailure worker envelope.job.args := by
        intro offset
        have shifted := noted (offset + 1)
        rw [show index + (offset + 1) = index + 1 + offset from by omega] at shifted
        simpa using shifted
      unfold StorageInternal.sortOut
      rw [first]
      cases failed : parseFailure worker envelope.job.args with
      | some error =>
          refine withstands_bind (withstands_attempt_keeps (withstands_kill _)) ?_
          rintro _ after rfl
          refine withstands_mono (ih later) ?_ fun _ kept => kept
          rintro valid final ⟨rfl, rfl⟩
          rw [removesAll_cons]
          simp [failed]
      | none =>
          refine withstands_bind (ih later) ?_
          rintro valid after ⟨rfl, rfl⟩
          simp only [List.filter_cons, failed]
          exact ⟨rfl, rfl⟩

theorem withstands_batchErr (clock : Nat → Int) (message : String)
    (delay : JobEnvelope → JobExecutionPolicy → Nat) (index : Nat)
    (jobs : List (JobEnvelope × JobExecutionPolicy)) :
    Withstands (strandMonitor storage.currentProcessingQueue id)
      (fun _ after => after = strandRemovesAll id note (jobs.map Prod.fst)) fails note
      (storage.handleBatchErr clock message delay index jobs) := by
  induction jobs generalizing note index with
  | nil => exact (rfl : note = note)
  | cons job rest ih =>
      refine withstands_bind (withstands_handleErr _ _ _ _) ?_
      rintro _ after rfl
      rw [List.map_cons, ← removesAll_cons]
      exact ih (index + 1)

theorem withstands_executes {own : String} {envelopes : List JobEnvelope} :
    Withstands (strandMonitor own id) (fun _ after => after.held = note.held) fails note
      (batch (envelopes.map .execute) : Redis Unit) := by
  unfold batch
  induction envelopes generalizing note with
  | nil => exact (rfl : note.held = note.held)
  | cons envelope rest ih =>
      exact ⟨trivial, fun _ _ => withstands_mono ih (fun _ _ kept => kept) fun _ kept => kept,
        fun _ _ impossible => False.elim impossible⟩

theorem withstands_updateJobs {own : String} (fresh : note.started = false)
    (envelopes : List JobEnvelope) :
    Withstands (strandMonitor own id) (fun _ after => after = note) fails note
      (StorageInternal.updateJobs envelopes) := by
  unfold StorageInternal.updateJobs
  split
  · exact (rfl : note = note)
  · refine withstands_request trivial (fun _ _ => rfl) ?_
    intro applied tolerated
    rw [show note.started = true from tolerated] at fresh
    cases fresh

theorem withstands_runBatch (fresh : note.started = false) (job : StorageInternal.BatchAttempt)
    {envelopes : List JobEnvelope} (size : job.size = envelopes.length) :
    Withstands (strandMonitor storage.currentProcessingQueue id)
      (fun _ after => after.held = note.held - (envelopes.map JobEnvelope.id).count id)
      fails note (storage.runBatch job envelopes) := by
  unfold StorageInternal.runBatch
  split
  · rename_i empty
    rw [empty]
    exact (rfl : note.held = note.held)
  rw [if_neg (not_not.mpr size)]
  generalize chosen : (if job.shouldResume then envelopes
    else envelopes.map fun envelope => envelope.withState none) = prepared
  have ids : prepared.map JobEnvelope.id = envelopes.map JobEnvelope.id := by
    rw [← chosen]
    split
    · rfl
    · rw [List.map_map]
      rfl
  have starts : Withstands (strandMonitor storage.currentProcessingQueue id)
      (fun started after => after = note ∧
        started = prepared.map fun envelope => envelope.withStartedAt job.startedAt)
      fails note (StorageInternal.setStartedAtBatch job.startedAt prepared) := by
    refine withstands_bind (withstands_updateJobs fresh _) ?_
    rintro _ after rfl
    exact ⟨rfl, rfl⟩
  refine withstands_bind starts ?_
  rintro started after ⟨rfl, rfl⟩
  refine withstands_bind withstands_executes ?_
  intro _ running held
  refine withstands_bind (withstands_batchStates _ _) ?_
  rintro _ final rfl
  generalize handed : (prepared.map fun envelope => envelope.withStartedAt job.startedAt) = started
  have same : started.map JobEnvelope.id = envelopes.map JobEnvelope.id := by
    rw [← handed, List.map_map, ← ids]
    rfl
  have lasts : started.length = (envelopes.mapIdx job.policy).length := by
    rw [List.length_mapIdx, ← List.length_map (f := JobEnvelope.id), same, List.length_map]
  have paired : (started.zip (envelopes.mapIdx job.policy)).map Prod.fst = started :=
    List.map_fst_zip (le_of_eq lasts)
  have removed : (strandRemovesAll id final started).held =
      after.held - (envelopes.map JobEnvelope.id).count id := by
    change final.held - (started.map JobEnvelope.id).count id = _
    rw [same, held]
  unfold StorageInternal.finishBatchResult
  split
  · refine withstands_bind (withstands_attempt_keeps (withstands_successBatch started)) ?_
    rintro _ last rfl
    exact removed
  · refine withstands_bind (withstands_batchErr _ _ _ _ _) ?_
    rintro _ last rfl
    rw [paired]
    exact removed
  · refine withstands_bind (withstands_batchErr _ _ _ _ _) ?_
    rintro _ last rfl
    rw [paired]
    exact removed

theorem count_filter_split (worker : BatchWorker) (envelopes : List JobEnvelope) :
    ((envelopes.filter fun envelope => (parseFailure worker envelope.job.args).isNone).map
        JobEnvelope.id).count id +
      ((envelopes.filter fun envelope => (parseFailure worker envelope.job.args).isSome).map
        JobEnvelope.id).count id = (envelopes.map JobEnvelope.id).count id := by
  induction envelopes with
  | nil => rfl
  | cons envelope rest ih =>
      cases failed : parseFailure worker envelope.job.args with
      | none =>
          simp only [List.filter_cons, failed, Option.isNone_none, Option.isSome_none, if_true,
            List.map_cons, List.count_cons]
          simp only [Bool.false_eq_true, if_false]
          omega
      | some error =>
          simp only [List.filter_cons, failed, Option.isNone_some, Option.isSome_some, if_true,
            List.map_cons, List.count_cons]
          simp only [Bool.false_eq_true, if_false]
          omega

theorem withstands_batch (fresh : note.started = false) (registry : String → Option BatchWorker)
    (envelopes : List JobEnvelope) :
    Withstands (strandMonitor storage.currentProcessingQueue id)
      (fun _ after => after.held = note.held - (envelopes.map JobEnvelope.id).count id)
      fails note (storage.processPendingBatch (buildBatch registry) envelopes) := by
  cases envelopes with
  | nil => exact (rfl : note.held = note.held)
  | cons first rest =>
      unfold StorageInternal.processPendingBatch buildBatch
      dsimp only
      cases registry first.job.name with
      | none =>
          refine withstands_mono (withstands_killEach _ _) ?_ fun _ kept => kept
          rintro _ after rfl
          rfl
      | some worker =>
          dsimp only
          generalize whole : first :: rest = envelopes
          have noted : ∀ offset, invalidJobsByIndex
              (jobBatchFactory worker (envelopes.map fun envelope => envelope.job.args)).invalid
              envelopes.length (0 + offset) =
                envelopes[offset]?.bind fun envelope => parseFailure worker envelope.job.args := by
            intro offset
            have found := invalid_jobBatchFactory worker
              (envelopes.map fun envelope => envelope.job.args) offset
            rw [List.length_map, List.getElem?_map, Option.bind_map] at found
            rw [Nat.zero_add, found]
            rfl
          refine withstands_bind (withstands_sortOut first.job.name worker noted) ?_
          rintro valid after ⟨rfl, rfl⟩
          have counted := @count_filter_split id worker envelopes
          have length : ((envelopes.map fun envelope => envelope.job.args).filterMap fun value =>
              (worker.parse value).toOption).length =
                (envelopes.filter fun envelope =>
                  (parseFailure worker envelope.job.args).isNone).length := by
            rw [length_parsed, List.filter_map, List.length_map]
            rfl
          generalize valid : (envelopes.filter fun envelope =>
            (parseFailure worker envelope.job.args).isNone) = kept at counted length ⊢
          dsimp only [jobBatchFactory]
          split
          · rename_i none_valid
            have empty : kept = [] := by
              rw [← List.length_eq_zero_iff, ← length, List.length_eq_zero_iff]
              split at none_valid
              · rename_i none_parsed
                exact List.isEmpty_iff.mp none_parsed
              · cases none_valid
            rw [empty] at counted
            change note.held - _ = _
            rw [← counted]
            simp
          · rename_i job some_valid
            split at some_valid
            · cases some_valid
            · cases some_valid
              have still : (strandRemovesAll id note (envelopes.filter fun envelope =>
                  (parseFailure worker envelope.job.args).isSome)).started = false := fresh
              refine withstands_bind (withstands_runBatch still _ length) ?_
              rintro _ final held
              change final.held = _
              rw [held]
              change note.held - _ - _ = _
              omega

end Batches

theorem withstands_duty {duty : WorkerDuty} (consuming : duty.Consuming) :
    Withstands (strandMonitor storage.currentProcessingQueue id) (fun _ after => after.held = 0)
      (fun after => after.held = 0) ⟨0, false⟩ (duty.program storage) := by
  cases duty with
  | single queueKey throttler build =>
      refine withstands_bind (withstands_popAndLoad rfl consuming) ?_
      rintro pending after ⟨fresh, held⟩
      cases pending with
      | none => exact held
      | some envelope =>
          refine withstands_mono (withstands_pending fresh build) ?_ fun _ kept => kept
          intro _ final left
          rw [left, held]
          by_cases watched : envelope.id = id
          · simp [watched]
          · simp [watched]
  | batch pops registry =>
      refine withstands_bind (withstands_popAndLoadAll rfl consuming) ?_
      rintro pending after ⟨fresh, held⟩
      refine withstands_mono (withstands_batch fresh registry pending) ?_ fun _ kept => kept
      intro _ final left
      rw [left, held]
      simp

end Oxana