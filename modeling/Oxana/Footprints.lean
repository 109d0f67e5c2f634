import Oxana.ExecutorCore

/-! The commands each operation can send, whatever Redis answers. -/

namespace Oxana

def Command.OfEnqueue (storage : StorageInternal) (envelope : JobEnvelope) : Command → Prop
  | .hexists id => id = envelope.id
  | .hget id => id = envelope.id
  | .hset id text => id = envelope.id ∧ text = toText envelope
  | .zrem _ id => id = envelope.id
  | .zadd name id _ => name = .schedule ∧ id = envelope.id
  | .lrem _ count id => count = 0 ∧ id = envelope.id
  | .lpush key ids => key = storage.namespaceQueue envelope.queue ∧ ids = [envelope.id]
  | _ => False

def Command.OfPromotion (storage : StorageInternal) : Command → Prop
  | .zrangebyscore _ _ _ => True
  | .zrange _ => True
  | .zrem _ _ => True
  | .hmget _ => True
  | .lpush key _ => ∃ queue, key = storage.namespaceQueue queue
  | _ => False

def Command.OfResurrection (storage : StorageInternal) : Command → Prop
  | .zrangeProcesses => True
  | .scan _ => True
  | .lpop key _ => ∃ processId, key = storage.processingQueue processId
  | .hget _ => True
  | .lpush key ids => ∃ queue id, key = storage.namespaceQueue queue ∧ ids = [id]
  | .hdel _ => True
  | .zremProcess _ => True
  | .hdelProcess _ => True
  | _ => False

namespace StorageInternal

variable (storage : StorageInternal)

theorem getJob_sends {allowed : Command → Prop} {id : JobId} (reads : allowed (.hget id)) :
    (getJob id).Sends allowed := by
  refine Program.sends_bind (Program.sends_request reads) ?_
  intro found
  cases found with
  | none => trivial
  | some text => exact Program.sends_bind (Program.sends_ofExcept _) fun _ => trivial

/-! The commands of an enqueue, which reads, writes and withdraws one id. -/

section Enqueue

variable {storage : StorageInternal} {allowed : Command → Prop} {envelope : JobEnvelope}

theorem jobEnqueueAction_sends (checks : allowed (.hexists envelope.id))
    (reads : allowed (.hget envelope.id)) : (jobEnqueueAction envelope).Sends allowed := by
  unfold jobEnqueueAction
  split
  · refine Program.sends_bind (Program.sends_request checks) ?_
    intro found
    split
    · split
      · refine Program.sends_bind (getJob_sends reads) ?_
        intro existing
        cases existing <;> trivial
      · trivial
      · trivial
    · trivial
  · trivial

theorem forall_appendEnqueue {destination : JobDestination}
    (stores : allowed (.hset envelope.id (toText envelope)))
    (pushes : allowed (storage.pushToDestination envelope destination)) :
    ∀ command ∈ storage.appendEnqueue envelope destination, allowed command := by
  intro command member
  simp only [appendEnqueue, List.mem_cons, List.not_mem_nil, or_false] at member
  rcases member with rfl | rfl
  · exact stores
  · exact pushes

theorem forall_appendReplace {destination : JobDestination} (existingQueue : String)
    (stores : allowed (.hset envelope.id (toText envelope)))
    (leaves : ∀ name, allowed (.zrem name envelope.id))
    (withdraws : ∀ key, allowed (.lrem key 0 envelope.id))
    (pushes : allowed (storage.pushToDestination envelope destination)) :
    ∀ command ∈ storage.appendReplace existingQueue envelope destination, allowed command := by
  intro command member
  simp only [appendReplace, List.mem_append, List.mem_cons, List.not_mem_nil, or_false] at member
  rcases member with ((rfl | rfl | rfl | rfl) | other) | rfl
  · exact stores
  · exact leaves _
  · exact leaves _
  · exact withdraws _
  · split at other
    · simp at other
    · rw [List.mem_singleton.mp other]
      exact withdraws _
  · exact pushes

theorem enqueueWConn_sends_of {destination : JobDestination}
    (checks : allowed (.hexists envelope.id)) (reads : allowed (.hget envelope.id))
    (stores : allowed (.hset envelope.id (toText envelope)))
    (leaves : ∀ name, allowed (.zrem name envelope.id))
    (withdraws : ∀ key, allowed (.lrem key 0 envelope.id))
    (pushes : allowed (storage.pushToDestination envelope destination)) :
    (storage.enqueueWConn envelope destination).Sends allowed := by
  refine Program.sends_bind (jobEnqueueAction_sends checks reads) ?_
  intro action
  cases action with
  | skip => trivial
  | replace existingQueue =>
      have each := forall_appendReplace existingQueue stores leaves withdraws pushes
      exact Program.sends_bind (Program.sends_batch each) fun _ => trivial
  | default =>
      have each := forall_appendEnqueue stores pushes
      exact Program.sends_bind (Program.sends_batch each) fun _ => trivial

end Enqueue

theorem pushToDestination_of (envelope : JobEnvelope) (destination : JobDestination) :
    (storage.pushToDestination envelope destination).OfEnqueue storage envelope := by
  cases destination with
  | queue => exact ⟨rfl, rfl⟩
  | schedule => exact ⟨rfl, rfl⟩

theorem enqueueWConn_sends (envelope : JobEnvelope) (destination : JobDestination) :
    (storage.enqueueWConn envelope destination).Sends (Command.OfEnqueue storage envelope) :=
  enqueueWConn_sends_of rfl rfl ⟨rfl, rfl⟩ (fun _ => rfl) (fun _ => ⟨rfl, rfl⟩)
    (storage.pushToDestination_of envelope destination)

theorem claimAndEnqueueScheduledJobIds_sends (name : DelayedSet) (ids : List JobId) :
    (storage.claimAndEnqueueScheduledJobIds name ids).Sends (Command.OfPromotion storage) := by
  unfold claimAndEnqueueScheduledJobIds
  split
  · trivial
  · refine Program.sends_bind (Program.sends_collect fun _ _ => trivial) ?_
    intro claimed
    dsimp only
    split
    · trivial
    · refine Program.sends_bind (Program.sends_bind (Program.sends_request trivial)
        fun _ => Program.sends_ofExcept _) ?_
      intro envelopes
      refine Program.sends_bind (Program.sends_batch ?_) fun _ => trivial
      intro command member
      obtain ⟨group, _, rfl⟩ := List.mem_map.mp member
      exact ⟨group.1, rfl⟩

theorem enqueueScheduled_sends (now : Int) (name : DelayedSet) :
    (storage.enqueueScheduled now name).Sends (Command.OfPromotion storage) :=
  Program.sends_bind (Program.sends_request trivial) fun ids =>
    storage.claimAndEnqueueScheduledJobIds_sends name ids

theorem retryAllNow_sends : storage.retryAllNow.Sends (Command.OfPromotion storage) :=
  Program.sends_bind (Program.sends_request trivial) fun ids =>
    storage.claimAndEnqueueScheduledJobIds_sends .retry ids

theorem resurrectJob_sends (id : JobId) :
    (storage.resurrectJob id).Sends (Command.OfResurrection storage) := by
  refine Program.sends_bind (getJob_sends trivial) ?_
  intro found
  cases found with
  | none => trivial
  | some envelope =>
      dsimp only
      split
      · exact Program.sends_request ⟨envelope.queue, envelope.id, rfl, rfl⟩
      · exact Program.sends_request trivial

theorem resurrectJobs_sends (ids : List JobId) :
    (storage.resurrectJobs ids).Sends (Command.OfResurrection storage) := by
  induction ids with
  | nil => trivial
  | cons id rest ih => exact Program.sends_bind (storage.resurrectJob_sends id) fun _ => ih

theorem drainProcessing_sends (processId : String) (bound : Nat) :
    (storage.drainProcessing (storage.processingQueue processId) bound).Sends
      (Command.OfResurrection storage) := by
  induction bound with
  | zero => trivial
  | succ bound ih =>
      refine Program.sends_bind (Program.sends_request ⟨processId, rfl⟩) ?_
      intro ids
      split
      · trivial
      · exact Program.sends_bind (storage.resurrectJobs_sends _) fun _ => ih

theorem resurrectProcesses_sends (bound : Nat) (dead : List String) :
    (storage.resurrectProcesses bound dead).Sends (Command.OfResurrection storage) := by
  induction dead with
  | nil => trivial
  | cons processId rest ih =>
      refine Program.sends_bind (storage.drainProcessing_sends processId bound) ?_
      intro _
      refine Program.sends_bind (Program.sends_batch ?_) fun _ => ih
      intro command member
      simp only [List.mem_cons, List.not_mem_nil, or_false] at member
      rcases member with rfl | rfl <;> trivial

theorem resurrect_sends (bound : Nat) (now : Int) (threshold : Nat) :
    (storage.resurrect bound now threshold).Sends (Command.OfResurrection storage) := by
  refine Program.sends_bind ?_ fun dead => storage.resurrectProcesses_sends bound dead
  refine Program.sends_bind (Program.sends_request trivial) fun _ => ?_
  exact Program.sends_bind (Program.sends_request trivial) fun _ => trivial

end StorageInternal

end Oxana
