import Oxana.Footprints
import Oxana.PendingBatch

/-!
Most operations take no job off a list: they neither move nor pop one and drop no whole
list.  Workers remove jobs from their own processing list, and an enqueue that replaces a
job removes it from its queue; only dequeueing, wiping a queue and resurrection do more.
-/

namespace Oxana

open Program

/-- Jobs are removed from the lists that `removes` names, and from no end of a list. -/
def Command.Plain (removes : String → Prop) : Command → Prop
  | .lmove _ _ => False
  | .lpop _ _ => False
  | .del _ => False
  | .lrem key _ _ => removes key
  | _ => True

def JobEnvelope.Replaces (envelope : JobEnvelope) : Prop :=
  envelope.metadata.unique = true ∧ envelope.metadata.onConflict = some .replace

namespace StorageInternal

variable {storage : StorageInternal} {removes : String → Prop}

theorem plain_getJob (id : JobId) : (getJob id).Sends (Command.Plain removes) :=
  getJob_sends trivial

/-! Enqueueing. -/

section Enqueue

variable {envelope : JobEnvelope}

theorem plain_push (destination : JobDestination) :
    (storage.pushToDestination envelope destination).Plain removes := by
  cases destination <;> trivial

def Withdraws (removes : String → Prop) : JobEnqueueAction → Prop
  | .replace _ => ∀ key, removes key
  | _ => True

theorem plain_jobEnqueueAction (withdraws : envelope.Replaces → ∀ key, removes key) :
    (jobEnqueueAction envelope).Yields (Command.Plain removes) (Withdraws removes) := by
  unfold jobEnqueueAction
  split
  · rename_i unique
    refine yields_bind (yields_of_sends (sends_request trivial)) fun found _ => ?_
    split
    · split
      · rename_i replaces
        refine yields_bind (yields_of_sends (plain_getJob _)) fun existing _ => ?_
        cases existing with
        | none => trivial
        | some stored => exact withdraws ⟨unique, replaces⟩
      · trivial
      · trivial
    · trivial
  · trivial

theorem plain_appended (storage : StorageInternal) (destination : JobDestination)
    {action : JobEnqueueAction} (withdraws : Withdraws removes action) {pipe : List Command}
    (before : ∀ command ∈ pipe, command.Plain removes) :
    (∀ existingQueue, action = .replace existingQueue →
      ∀ command ∈ pipe ++ storage.appendReplace existingQueue envelope destination,
        command.Plain removes) ∧
    ∀ command ∈ pipe ++ storage.appendEnqueue envelope destination, command.Plain removes := by
  refine ⟨?_, ?_⟩
  · rintro existingQueue rfl command member
    rcases List.mem_append.mp member with earlier | fresh
    · exact before command earlier
    · exact forall_appendReplace existingQueue trivial (fun _ => trivial)
        (fun key => withdraws key) (plain_push destination) command fresh
  · intro command member
    rcases List.mem_append.mp member with earlier | fresh
    · exact before command earlier
    · exact forall_appendEnqueue trivial (plain_push destination) command fresh

theorem plain_enqueueWConn (destination : JobDestination)
    (withdraws : envelope.Replaces → ∀ key, removes key) :
    (storage.enqueueWConn envelope destination).Sends (Command.Plain removes) := by
  refine sends_bind_of_yields (plain_jobEnqueueAction withdraws) ?_
  intro action allowed
  obtain ⟨replaced, plain⟩ := plain_appended storage destination allowed (List.forall_mem_nil _)
  cases action with
  | skip => trivial
  | replace existingQueue =>
      exact sends_bind (sends_batch (replaced existingQueue rfl)) fun _ => trivial
  | default => exact sends_bind (sends_batch plain) fun _ => trivial

theorem plain_enqueueListAction (staged : List (JobId × String))
    (withdraws : envelope.Replaces → ∀ key, removes key) :
    (enqueueListAction envelope staged).Yields (Command.Plain removes)
      (Withdraws removes) := by
  unfold enqueueListAction
  split
  · rename_i unique
    split
    · exact plain_jobEnqueueAction withdraws
    · split
      · rename_i replaces
        exact withdraws ⟨unique, replaces⟩
      · trivial
      · trivial
  · trivial

theorem plain_stageChunk (destination : JobDestination) {envelopes : List JobEnvelope}
    (withdraws : ∀ envelope ∈ envelopes, envelope.Replaces → ∀ key, removes key)
    (pipe : List Command) (staged : List (JobId × String))
    (before : ∀ command ∈ pipe, command.Plain removes) :
    (storage.stageChunk destination envelopes pipe staged).Yields (Command.Plain removes)
      fun value => ∀ command ∈ value.1, command.Plain removes := by
  induction envelopes generalizing pipe staged with
  | nil => exact before
  | cons envelope rest ih =>
      have later := fun other member => withdraws other (List.mem_cons_of_mem envelope member)
      refine yields_bind (plain_enqueueListAction staged
        (withdraws envelope List.mem_cons_self)) ?_
      intro action allowed
      obtain ⟨replaced, plain⟩ := plain_appended storage destination allowed before
      cases action with
      | skip => exact ih later pipe staged before
      | replace existingQueue => exact ih later _ _ (replaced existingQueue rfl)
      | default => exact ih later _ _ plain

theorem plain_enqueueChunks (destination : JobDestination) (bound : Nat)
    {envelopes : List JobEnvelope}
    (withdraws : ∀ envelope ∈ envelopes, envelope.Replaces → ∀ key, removes key)
    (staged : List (JobId × String)) :
    (storage.enqueueChunks destination bound envelopes staged).Sends (Command.Plain removes) := by
  induction bound generalizing envelopes staged with
  | zero => trivial
  | succ bound ih =>
      have later : ∀ other ∈ envelopes.drop enqueueListChunkSize, other.Replaces →
          ∀ key, removes key := fun other member => withdraws other (List.mem_of_mem_drop member)
      unfold enqueueChunks
      split
      · trivial
      · refine sends_bind_of_yields (plain_stageChunk destination
          (fun other member => withdraws other (List.mem_of_mem_take member)) [] staged
          (List.forall_mem_nil _)) ?_
        rintro ⟨pipe, after⟩ plain
        dsimp only
        split
        · exact ih later _
        · exact sends_bind (sends_batch plain) fun _ => ih later _

theorem plain_enqueueList {envelopes : List JobEnvelope}
    (withdraws : ∀ envelope ∈ envelopes, envelope.Replaces → ∀ key, removes key) :
    (storage.enqueueList envelopes).Sends (Command.Plain removes) := by
  unfold enqueueList
  split
  · trivial
  · exact sends_bind (plain_enqueueChunks _ _ withdraws _) fun _ => trivial

theorem plain_enqueueAt (now : Int) (withdraws : envelope.Replaces → ∀ key, removes key) :
    (storage.enqueueAt now envelope).Sends (Command.Plain removes) := by
  unfold enqueueAt
  split
  · exact plain_enqueueWConn .queue withdraws
  · exact plain_enqueueWConn .schedule withdraws

theorem plain_enqueueIn (now stamped checked : Int) (delay : Nat)
    (withdraws : envelope.Replaces → ∀ key, removes key) :
    (storage.enqueueIn now stamped checked envelope delay).Sends (Command.Plain removes) := by
  unfold enqueueIn
  split
  · exact plain_enqueueWConn .queue withdraws
  · split
    · trivial
    · exact plain_enqueueAt checked withdraws

end Enqueue

/-! One job. -/

theorem plain_retryIn (now : Int) (id : JobId) (delay : Nat) (error : String) :
    (retryIn now id delay error).Sends (Command.Plain removes) := by
  refine sends_bind (plain_getJob id) ?_
  intro found
  cases found with
  | none => trivial
  | some envelope => exact sends_batch (by simp [Command.Plain])

theorem plain_updateJob (envelope : JobEnvelope) :
    (updateJob envelope).Sends (Command.Plain removes) :=
  sends_batch (by simp [Command.Plain])

theorem plain_updateJobs (envelopes : List JobEnvelope) :
    (updateJobs envelopes).Sends (Command.Plain removes) := by
  unfold updateJobs
  split
  · trivial
  · exact sends_request trivial

theorem plain_updateState (id : JobId) (state : Json) :
    (updateState id state).Sends (Command.Plain removes) := by
  refine sends_bind (plain_getJob id) ?_
  intro found
  cases found with
  | none => trivial
  | some envelope => exact plain_updateJob _

/-! What the owner of a processing list does. -/

section Owner

theorem plain_deleteJob (own : removes storage.currentProcessingQueue) (id : JobId) :
    (storage.deleteJob id).Sends (Command.Plain removes) :=
  sends_batch (by simp [Command.Plain, own])

theorem plain_kill (own : removes storage.currentProcessingQueue) (envelope : JobEnvelope)
    (error : String) : (storage.kill envelope error).Sends (Command.Plain removes) :=
  sends_batch (by simp [Command.Plain, own])

theorem plain_finishWithSuccess (own : removes storage.currentProcessingQueue)
    (envelope : JobEnvelope) :
    (storage.finishWithSuccess envelope).Sends (Command.Plain removes) :=
  sends_batch (by simp [Command.Plain, own])

theorem plain_finishWithSuccessBatch (own : removes storage.currentProcessingQueue)
    (envelopes : List JobEnvelope) :
    (storage.finishWithSuccessBatch envelopes).Sends (Command.Plain removes) := by
  unfold finishWithSuccessBatch
  split
  · trivial
  · exact sends_batch (by simp [Command.Plain, own])

theorem plain_finishWithFailure (own : removes storage.currentProcessingQueue)
    (envelope : JobEnvelope) :
    (storage.finishWithFailure envelope).Sends (Command.Plain removes) :=
  sends_batch (by simp [Command.Plain, own])

theorem plain_handleErr (own : removes storage.currentProcessingQueue) (now : Int)
    (message : String) (envelope : JobEnvelope) (delay maxRetries : Nat) :
    (storage.handleErr now message envelope delay maxRetries).Sends (Command.Plain removes) := by
  unfold handleErr
  split
  · refine sends_bind (sends_attempt (plain_finishWithFailure own envelope)) fun _ => ?_
    exact sends_bind (sends_attempt (plain_retryIn now _ delay message)) fun _ => trivial
  · exact sends_bind (sends_attempt (plain_kill own envelope message)) fun _ => trivial

theorem plain_finishJobResult (own : removes storage.currentProcessingQueue) (now : Int)
    (override : RetryDelayOverride) (result : ExecutionResult) (envelope : JobEnvelope)
    (policy : JobExecutionPolicy) :
    (storage.finishJobResult now override result envelope policy).Sends
      (Command.Plain removes) := by
  unfold finishJobResult
  split
  · exact sends_bind (sends_attempt (plain_finishWithSuccess own envelope)) fun _ => trivial
  · exact plain_handleErr own _ _ _ _ _
  · exact plain_handleErr own _ _ _ _ _

theorem plain_loadPendingJob (own : removes storage.currentProcessingQueue) (id : JobId) :
    (storage.loadPendingJob id).Sends (Command.Plain removes) := by
  refine sends_bind (sends_attempt (plain_getJob id)) ?_
  intro found
  rcases found with error | (_ | envelope)
  · trivial
  · exact sends_bind (sends_attempt (plain_deleteJob own id)) fun _ => trivial
  · trivial

theorem plain_persistStates (id : JobId) (states : List Json) :
    (persistStates id states).Sends (Command.Plain removes) := by
  induction states with
  | nil => trivial
  | cons state rest ih =>
      exact sends_bind (sends_attempt (plain_updateState id state)) fun _ => ih

theorem plain_run (own : removes storage.currentProcessingQueue) (job : Attempt)
    (envelope : JobEnvelope) : (storage.run job envelope).Sends (Command.Plain removes) := by
  refine sends_bind (sends_bind (plain_updateJob _) fun _ => trivial) fun started => ?_
  refine sends_bind (sends_request trivial) fun _ => ?_
  refine sends_bind (plain_persistStates _ _) fun _ => ?_
  exact plain_finishJobResult own _ _ _ _ _

theorem plain_processPendingJob (own : removes storage.currentProcessingQueue)
    (build : JobEnvelope → Except String Attempt) (envelope : JobEnvelope) :
    (storage.processPendingJob build envelope).Sends (Command.Plain removes) := by
  unfold processPendingJob
  split
  · exact plain_run own _ _
  · exact sends_bind (sends_attempt (plain_kill own _ _)) fun _ => trivial

theorem plain_processJob (own : removes storage.currentProcessingQueue)
    (build : JobEnvelope → Except OxanaError Attempt) (id : JobId) :
    (storage.processJob build id).Sends (Command.Plain removes) := by
  refine sends_bind (plain_getJob id) ?_
  intro found
  cases found with
  | none => trivial
  | some envelope =>
      dsimp only
      split
      · trivial
      · rename_i job built
        generalize (if job.shouldResume then envelope else envelope.withState none) = prepared
        have started : ∀ rest : Redis ProcessJobResult, rest.Sends (Command.Plain removes) →
            (if job.shouldResume then rest else do
              updateJob prepared
              rest).Sends (Command.Plain removes) := by
          intro rest plain
          split
          · exact plain
          · exact sends_bind (plain_updateJob _) fun _ => plain
        refine started _ ?_
        refine sends_bind (sends_request trivial) fun _ => ?_
        refine sends_bind (plain_persistStates _ _) fun _ => ?_
        split
        · exact sends_bind (plain_finishWithSuccess own _) fun _ => trivial
        · refine sends_bind (plain_finishWithFailure own _) fun _ => ?_
          exact sends_bind (plain_kill own _ _) fun _ => trivial
        · trivial

/-! Batches. -/

theorem plain_persistBatchStates (ids : List JobId) (states : List (Nat × Json)) :
    (persistBatchStates ids states).Sends (Command.Plain removes) := by
  induction states with
  | nil => trivial
  | cons update rest ih =>
      unfold persistBatchStates
      split
      · exact ih
      · exact sends_bind (sends_attempt (plain_updateState _ _)) fun _ => ih

theorem plain_handleBatchErr (own : removes storage.currentProcessingQueue) (clock : Nat → Int)
    (message : String) (delay : JobEnvelope → JobExecutionPolicy → Nat) (index : Nat)
    (jobs : List (JobEnvelope × JobExecutionPolicy)) :
    (storage.handleBatchErr clock message delay index jobs).Sends (Command.Plain removes) := by
  induction jobs generalizing index with
  | nil => trivial
  | cons job rest ih => exact sends_bind (plain_handleErr own _ _ _ _ _) fun _ => ih _

theorem plain_runBatch (own : removes storage.currentProcessingQueue) (batch : BatchAttempt)
    (envelopes : List JobEnvelope) :
    (storage.runBatch batch envelopes).Sends (Command.Plain removes) := by
  unfold runBatch
  split
  · trivial
  split
  · trivial
  refine sends_bind (sends_bind (plain_updateJobs _) fun _ => trivial) fun started => ?_
  refine sends_bind (sends_batch (by simp [Command.Plain])) fun _ => ?_
  refine sends_bind (plain_persistBatchStates _ _) fun _ => ?_
  unfold finishBatchResult
  split
  · exact sends_bind (sends_attempt (plain_finishWithSuccessBatch own _)) fun _ => trivial
  · exact sends_bind (plain_handleBatchErr own _ _ _ _ _) fun _ => trivial
  · exact sends_bind (plain_handleBatchErr own _ _ _ _ _) fun _ => trivial

theorem plain_killEach (own : removes storage.currentProcessingQueue) (message : String)
    (envelopes : List JobEnvelope) :
    (storage.killEach message envelopes).Sends (Command.Plain removes) := by
  induction envelopes with
  | nil => trivial
  | cons envelope rest ih => exact sends_bind (sends_attempt (plain_kill own _ _)) fun _ => ih

theorem plain_sortOut (own : removes storage.currentProcessingQueue) (workerName : String)
    (invalid : Nat → Option String) (index : Nat) (envelopes : List JobEnvelope) :
    (storage.sortOut workerName invalid index envelopes).Sends (Command.Plain removes) := by
  induction envelopes generalizing index with
  | nil => trivial
  | cons envelope rest ih =>
      unfold sortOut
      split
      · exact sends_bind (sends_attempt (plain_kill own _ _)) fun _ => ih _
      · exact sends_bind (ih _) fun _ => trivial

theorem plain_processPendingBatch (own : removes storage.currentProcessingQueue)
    (buildBatch : String → List Json → Except String BatchBuild) (envelopes : List JobEnvelope) :
    (storage.processPendingBatch buildBatch envelopes).Sends (Command.Plain removes) := by
  unfold processPendingBatch
  split
  · trivial
  · split
    · exact plain_killEach own _ _
    · refine sends_bind (plain_sortOut own _ _ _ _) fun valid => ?_
      split
      · trivial
      · exact sends_bind (plain_runBatch own _ _) fun _ => trivial

end Owner

/-! Promotion and revival. -/

theorem plain_claimAndEnqueue (name : DelayedSet) (ids : List JobId) :
    (storage.claimAndEnqueueScheduledJobIds name ids).Sends (Command.Plain removes) := by
  refine sends_mono ?_ (storage.claimAndEnqueueScheduledJobIds_sends name ids)
  intro command
  cases command <;> simp [Command.OfPromotion, Command.Plain]

theorem plain_enqueueScheduled (now : Int) (name : DelayedSet) :
    (storage.enqueueScheduled now name).Sends (Command.Plain removes) :=
  sends_bind (sends_request trivial) fun _ => plain_claimAndEnqueue name _

theorem plain_retryAllNow : storage.retryAllNow.Sends (Command.Plain removes) :=
  sends_bind (sends_request trivial) fun _ => plain_claimAndEnqueue .retry _

theorem plain_ping (now : Int) : (storage.ping now).Sends (Command.Plain removes) :=
  sends_batch (by simp [Command.Plain])

theorem plain_selfCleanup : storage.selfCleanup.Sends (Command.Plain removes) :=
  sends_batch (by simp [Command.Plain])

end StorageInternal

end Oxana
