import Oxana.BatchRun
import Oxana.BoundBatch

/-!
The jobs of a batch and their envelopes: what is decoded, killed and run belongs together,
whatever arguments do not decode and whatever Redis answers.
-/

namespace Oxana

open Program

variable {A : Type} {fits : OxanaError → Prop}

/-! What the arguments decode to. -/

section Decoding

variable {worker : JobWorker A} {job : PendingJob} {rest : List PendingJob}

end Decoding

/-! Sorting out. -/

theorem concludes_kill (storage : StorageInternal) (envelope : JobEnvelope) (message : String) :
    (storage.kill envelope message).Concludes fits fun _ => True :=
  concludes_batch _

theorem concludes_getJob (id : JobId) :
    (StorageInternal.getJob id).Concludes (fun _ => True) fun _ => True := by
  refine concludes_bind (concludes_request _) fun found _ => ?_
  cases found with
  | none => trivial
  | some text => exact concludes_bind (concludes_ofExcept fun _ => trivial) fun _ _ => trivial

theorem concludes_updateState (id : JobId) (state : Json) :
    (StorageInternal.updateState id state).Concludes (fun _ => True) fun _ => True := by
  refine concludes_bind (concludes_getJob id) fun found _ => ?_
  cases found with
  | none => trivial
  | some envelope => exact concludes_batch _

theorem concludes_retryIn (now : Int) (id : JobId) (delay : Nat) (message : String) :
    (StorageInternal.retryIn now id delay message).Concludes (fun _ => True) fun _ => True := by
  refine concludes_bind (concludes_getJob id) fun found _ => ?_
  cases found with
  | none => trivial
  | some envelope => exact concludes_batch _

theorem concludes_finishWithSuccessBatch (storage : StorageInternal)
    (envelopes : List JobEnvelope) :
    (storage.finishWithSuccessBatch envelopes).Concludes fits fun _ => True := by
  unfold StorageInternal.finishWithSuccessBatch
  split
  · trivial
  · exact concludes_batch _

section Pending

variable (storage : StorageInternal) (settings : BatchSettings)
  {registry : String → Option (JobWorker A)} {worker : JobWorker A} {workerName : String}
  {pending : List PendingJob} (nonempty : pending ≠ [])
  (named : ∀ job ∈ pending, job.envelope.job.name = workerName)
  (registered : registry workerName = some worker)
include nonempty named registered

end Pending

/-! The commands around the executions. -/

section Tidy

variable (storage : StorageInternal) {own : List JobEnvelope} {envelope : JobEnvelope}

end Tidy

/-! What is sent. -/

section Sent

variable (storage : StorageInternal) (settings : BatchSettings)
  {registry : String → Option (JobWorker A)} {worker : JobWorker A} {workerName : String}
  {pending : List PendingJob} (nonempty : pending ≠ [])
  (named : ∀ job ∈ pending, job.envelope.job.name = workerName)
  (registered : registry workerName = some worker)
include nonempty named registered

end Sent

/-! What Redis sees when it answers. -/

end Oxana
