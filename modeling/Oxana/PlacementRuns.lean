import Oxana.Placement
import Oxana.Promotion

/-! Every storage operation, run as one step, leaves nothing in the hand. -/

namespace Oxana

variable {keys : StorageKeys} {known : Identity → Prop} {store : Store} {hand ids : List JobId}
  {id : JobId}

namespace Placement

theorem congr_hand (placement : Placement keys known store hand) {other : List JobId}
    (same : ∀ id, other.count id = hand.count id) : Placement keys known store other where
  placed := fun id => by rw [same id]; exact placement.placed id
  stored := placement.stored
  queued := placement.queued

theorem erase_one (placement : Placement keys known store hand) {key : String}
    (member : id ∈ store.lists.get key) :
    Placement keys known (serve (.lrem key 1 id) store).2 (id :: hand) := by
  refine placement.take key [id] ((store.lists.get key).erase id) ?_
  intro other
  by_cases same : other = id
  · subst other
    have positive := List.count_pos_iff.mpr member
    rw [List.count_erase_self, List.count_singleton_self]
    omega
  · rw [List.count_erase_of_ne same, List.count_cons_of_ne (Ne.symm same), List.count_nil,
      Nat.zero_add]

theorem erase_all (placement : Placement keys known store hand) (key : String) (id : JobId) :
    Placement keys known (serve (.lrem key 0 id) store).2
      (List.replicate ((store.lists.get key).count id) id ++ hand) := by
  refine placement.take key _ (removeFromList 0 id (store.lists.get key)) ?_
  intro other
  rw [count_removeFromList_zero]
  by_cases same : other = id
  · subst other
    simp
  · have absent : other ∉ List.replicate ((store.lists.get key).count id) id :=
      fun member => same (List.eq_of_mem_replicate member)
    rw [List.count_eq_zero.mpr absent, if_neg same, Nat.zero_add]

theorem pop (placement : Placement keys known store hand) (key : String) (count : Nat) :
    Placement keys known (serve (.lpop key count) store).2
      ((store.lists.get key).take count ++ hand) := by
  refine placement.take key _ ((store.lists.get key).drop count) ?_
  intro other
  rw [← List.count_append, List.take_append_drop]

theorem push_queue (ids : List JobId) (placement : Placement keys known store (ids ++ hand))
    {queue : String}
    (belongs : ∀ id ∈ ids, ∃ envelope, store.jobs.get id = some (.json envelope) ∧
      envelope.queue = queue) :
    Placement keys known (serve (.lpush (keys.namespaceQueue queue) ids) store).2 hand := by
  refine placement.put (keys.namespaceQueue queue) _ ?_ ?_
  · intro id
    rw [List.count_append, List.count_reverse]
  · intro id member
    obtain ⟨envelope, found, sameQueue⟩ := belongs id member
    exact Or.inr ⟨envelope, found, by rw [sameQueue]⟩

theorem push_destination {storage : StorageInternal} (envelope : JobEnvelope)
    (placement : Placement storage.keys known store (envelope.id :: hand)) {stored : JobEnvelope}
    (found : store.jobs.get envelope.id = some (.json stored))
    (sameQueue : stored.queue = envelope.queue) (destination : JobDestination) :
    Placement storage.keys known
      (serve (storage.pushToDestination envelope destination) store).2 hand := by
  cases destination with
  | queue =>
      apply push_queue [envelope.id] placement
      intro id member
      rw [List.mem_singleton.mp member]
      exact ⟨stored, found, sameQueue⟩
  | schedule => exact placement.schedule .schedule _

/-! Enqueueing. -/

theorem enqueue_default {storage : StorageInternal} {envelope : JobEnvelope}
    (placement : Placement storage.keys known store hand)
    (missing : store.jobs.get envelope.id = none) (recognised : known envelope.identity)
    (destination : JobDestination) :
    Placement storage.keys known
      (Program.served serve store (storage.appendEnqueue envelope destination)) hand := by
  have written := placement.store_fresh (normalized envelope) missing recognised
  exact push_destination envelope written (SparseMap.get_set_self _ _ _) rfl destination

def withdrawn (storage : StorageInternal) (existingQueue : String) (envelope : JobEnvelope)
    (store : Store) : Store :=
  Program.served serve store
    ([.zrem .schedule envelope.id, .zrem .retry envelope.id,
      .lrem (storage.namespaceQueue existingQueue) 0 envelope.id] ++
    (if existingQueue = envelope.queue then []
      else [.lrem (storage.namespaceQueue envelope.queue) 0 envelope.id]))

theorem served_replace (storage : StorageInternal) (existingQueue : String)
    (envelope : JobEnvelope) (destination : JobDestination) (store : Store) :
    Program.served serve store (storage.appendReplace existingQueue envelope destination) =
      (serve (storage.pushToDestination envelope destination)
        (serve (.hset envelope.id (toText envelope))
          (withdrawn storage existingQueue envelope store)).2).2 := by
  unfold StorageInternal.appendReplace withdrawn
  by_cases same : existingQueue = envelope.queue
  · simp only [same, if_true]
    rfl
  · simp only [same, if_false]
    rfl

theorem withdrawn_jobs (storage : StorageInternal) (existingQueue : String)
    (envelope : JobEnvelope) (store : Store) :
    (withdrawn storage existingQueue envelope store).jobs = store.jobs := by
  unfold withdrawn
  split <;> rfl

/-- Everything is in its place except copies of one id that are in the hand. -/
def Around (keys : StorageKeys) (known : Identity → Prop) (id : JobId) (store : Store) : Prop :=
  ∃ hand, Placement keys known store hand ∧ ∀ other ∈ hand, other = id

theorem Around.claim {storage : StorageInternal} (around : Around storage.keys known id store)
    (name : DelayedSet) : Around storage.keys known id (serve (.zrem name id) store).2 := by
  obtain ⟨hand, placement, copies⟩ := around
  refine ⟨_, placement.claim name id, ?_⟩
  intro other member
  split at member
  · rcases List.mem_cons.mp member with same | held
    · exact same
    · exact copies other held
  · exact copies other member

theorem Around.erase_all (around : Around keys known id store) (key : String) :
    Around keys known id (serve (.lrem key 0 id) store).2 := by
  obtain ⟨hand, placement, copies⟩ := around
  refine ⟨_, placement.erase_all key id, ?_⟩
  intro other member
  rcases List.mem_append.mp member with copy | held
  · exact List.eq_of_mem_replicate copy
  · exact copies other held

theorem withdrawn_around {storage : StorageInternal} (envelope : JobEnvelope)
    (existingQueue : String) (placement : Placement storage.keys known store []) :
    Around storage.keys known envelope.id (withdrawn storage existingQueue envelope store) := by
  have start : Around storage.keys known envelope.id store := ⟨[], placement, by simp⟩
  have removed := ((start.claim .schedule).claim .retry).erase_all
    (storage.namespaceQueue existingQueue)
  unfold withdrawn
  split
  · exact removed
  · exact removed.erase_all (storage.namespaceQueue envelope.queue)

theorem mem_withdrawn {storage : StorageInternal} {existingQueue key : String}
    {envelope : JobEnvelope}
    (member : id ∈ (withdrawn storage existingQueue envelope store).lists.get key) :
    id ∈ store.lists.get key ∧
      (key = storage.namespaceQueue existingQueue → id ≠ envelope.id) := by
  have filtered : ∀ items : List JobId, id ∈ removeFromList 0 envelope.id items →
      id ∈ items ∧ id ≠ envelope.id := by
    intro items inside
    simpa [removeFromList] using inside
  unfold withdrawn at member
  split at member
  · simp only [List.append_nil, Program.served_cons, Program.served_nil, serve, setDelayed_lists,
      SparseMap.get_set] at member
    split at member
    · rename_i same
      subst same
      have kept := filtered _ member
      exact ⟨kept.1, fun _ => kept.2⟩
    · rename_i different
      exact ⟨member, fun same => absurd same different⟩
  · simp only [List.cons_append, List.nil_append, Program.served_cons, Program.served_nil, serve,
      setDelayed_lists, SparseMap.get_set] at member
    split at member
    · rename_i same
      have kept := filtered _ member
      split at kept
      · rename_i both
        rw [same, both]
        exact ⟨(filtered _ kept.1).1, fun _ => kept.2⟩
      · rw [same]
        exact ⟨kept.1, fun _ => kept.2⟩
    · split at member
      · rename_i same
        subst same
        have kept := filtered _ member
        exact ⟨kept.1, fun _ => kept.2⟩
      · rename_i different
        exact ⟨member, fun same => absurd same different⟩

theorem withdrawn_delayed (storage : StorageInternal) (existingQueue : String)
    (envelope : JobEnvelope) (store : Store) :
    envelope.id ∉ (withdrawn storage existingQueue envelope store).schedule.members ∧
      envelope.id ∉ (withdrawn storage existingQueue envelope store).retry.members := by
  unfold withdrawn
  split <;> simp [serve, Store.delayed, Store.setDelayed]

/-- An id that no process holds is nowhere once a replacement has withdrawn it. -/
theorem withdrawn_placement {storage : StorageInternal} {envelope old : JobEnvelope}
    (placement : Placement storage.keys known store [])
    (found : store.jobs.get envelope.id = some (.json old))
    (idle : ∀ processId, envelope.id ∉ store.lists.get (storage.processingQueue processId)) :
    Placement storage.keys known (withdrawn storage old.queue envelope store) [envelope.id] := by
  obtain ⟨hand, removed, copies⟩ :=
    withdrawn_around envelope old.queue placement
  have gone : (withdrawn storage old.queue envelope store).occurrences envelope.id = 0 := by
    by_contra present
    rcases found_of_occurrences (Nat.pos_of_ne_zero present) with ⟨key, member⟩ | delayed
    · have kept := mem_withdrawn member
      rcases placement.queued key _ kept.1 with ⟨processId, rfl⟩ | ⟨stored, storedAt, rfl⟩
      · exact idle processId kept.1
      · rw [found] at storedAt
        cases storedAt
        exact kept.2 rfl rfl
    · have absent := withdrawn_delayed storage old.queue envelope store
      exact delayed.elim absent.1 absent.2
  apply removed.congr_hand
  intro other
  by_cases same : other = envelope.id
  · subst other
    have counted := removed.placed envelope.id
    have kept : storedCount (withdrawn storage old.queue envelope store) envelope.id = 1 := by
      rw [← withdrawn_jobs storage old.queue envelope store] at found
      exact storedCount_of_some found
    rw [List.count_singleton_self]
    omega
  · have absent : other ∉ hand := fun member => same (copies other member)
    rw [List.count_eq_zero.mpr absent, List.count_cons_of_ne (Ne.symm same), List.count_nil]

theorem enqueue_replace {storage : StorageInternal} {envelope old : JobEnvelope}
    (placement : Placement storage.keys known store [])
    (found : store.jobs.get envelope.id = some (.json old)) (recognised : known envelope.identity)
    (idle : ∀ processId, envelope.id ∉ store.lists.get (storage.processingQueue processId))
    (destination : JobDestination) :
    Placement storage.keys known
      (Program.served serve store (storage.appendReplace old.queue envelope destination)) [] := by
  rw [served_replace]
  have removed := placement.withdrawn_placement found idle
  have written := removed.rewrite (normalized envelope)
    ((congrArg (fun jobs => jobs.get envelope.id) (withdrawn_jobs _ _ _ _)).trans found)
    recognised (Or.inr List.mem_cons_self)
  exact push_destination envelope written (SparseMap.get_set_self _ _ _) rfl destination

theorem enqueue {storage : StorageInternal} {envelope : JobEnvelope}
    (placement : Placement storage.keys known store []) (recognised : known envelope.identity)
    (fresh : envelope.metadata.unique = false → store.jobs.get envelope.id = none)
    (idle : envelope.metadata.unique = true → envelope.metadata.onConflict = some .replace →
      ∀ processId, envelope.id ∉ store.lists.get (storage.processingQueue processId))
    (destination : JobDestination) :
    Placement storage.keys known
      (runAlone (storage.enqueueWConn envelope destination) store).2 [] := by
  cases found : store.jobs.get envelope.id with
  | none =>
      have decided : StorageInternal.decidedAction store envelope = .ok .default := by
        simp [StorageInternal.decidedAction, found]
      rw [storage.runAlone_enqueueWConn envelope destination store decided]
      exact placement.enqueue_default found recognised destination
  | some text =>
      obtain ⟨old, rfl, _⟩ := placement.stored _ _ found
      have unique : envelope.metadata.unique = true := by
        by_contra single
        rw [fresh (by simpa using single)] at found
        contradiction
      by_cases conflict : envelope.metadata.onConflict = some .replace
      · have decided : StorageInternal.decidedAction store envelope = .ok (.replace old.queue) := by
          simp [StorageInternal.decidedAction, unique, found, conflict, lookup_of_json found,
            Except.map]
        rw [storage.runAlone_enqueueWConn envelope destination store decided]
        exact placement.enqueue_replace found recognised (idle unique conflict) destination
      · have decided : StorageInternal.decidedAction store envelope = .ok .skip := by
          simp [StorageInternal.decidedAction, unique, found, conflict]
        rw [storage.runAlone_enqueueWConn envelope destination store decided]
        exact placement

/-! Working on a held job. -/

theorem move (placement : Placement keys known store hand) (source processId : String) :
    Placement keys known (moveLast store source (keys.processingQueue processId)).2 hand := by
  unfold moveLast
  cases last : (store.lists.get source).getLast? with
  | none => exact placement
  | some id =>
      have shape : (store.lists.get source).dropLast ++ [id] = store.lists.get source :=
        List.dropLast_append_getLast? id last
      have taken := placement.take source [id] (store.lists.get source).dropLast (by
        intro other
        rw [← shape, List.dropLast_concat, List.count_append]
        omega)
      refine taken.put (keys.processingQueue processId) _ ?_ ?_
      · intro other
        exact (List.count_append : ([id] ++ _).count other = _)
      · intro other _
        exact Or.inl ⟨processId, rfl⟩

theorem rewrite_text (placement : Placement keys known store hand) (envelope : JobEnvelope)
    {old : JobEnvelope}
    (found : store.jobs.get envelope.id = some (.json old)) (recognised : known envelope.identity)
    (sameQueue : envelope.queue = old.queue) :
    Placement keys known
      { store with jobs := store.jobs.set envelope.id (some (toText envelope)) } hand :=
  placement.rewrite (normalized envelope) found recognised (Or.inl sameQueue)

theorem updateState (placement : Placement keys known store hand) {envelope : JobEnvelope}
    (found : store.jobs.get id = some (.json envelope)) (state : Json) :
    Placement keys known (runAlone (StorageInternal.updateState id state) store).2 hand := by
  have own := placement.known_of_stored found
  rw [StorageInternal.runAlone_updateState found]
  rw [← own.1] at found
  exact placement.rewrite_text (envelope.withState (some state)) found own.2 rfl

theorem withDead (placement : Placement keys known store hand) (dead : List Payload) :
    Placement keys known { store with dead := dead } hand :=
  ⟨placement.placed, placement.stored, placement.queued⟩

theorem remove_held {storage : StorageInternal} {envelope : JobEnvelope}
    (placement : Placement storage.keys known store hand)
    (held : envelope.id ∈ store.lists.get storage.currentProcessingQueue) :
    Placement storage.keys known (Program.served serve store
      [.lrem storage.currentProcessingQueue 1 envelope.id, .hdel [envelope.id]]) hand :=
  forget [envelope.id] (placement.erase_one held)

theorem finishWithSuccess {storage : StorageInternal} {envelope : JobEnvelope}
    (placement : Placement storage.keys known store hand)
    (held : envelope.id ∈ store.lists.get storage.currentProcessingQueue) :
    Placement storage.keys known (runAlone (storage.finishWithSuccess envelope) store).2 hand :=
  placement.remove_held held

theorem kill {storage : StorageInternal} {envelope : JobEnvelope}
    (placement : Placement storage.keys known store hand)
    (held : envelope.id ∈ store.lists.get storage.currentProcessingQueue) (error : String) :
    Placement storage.keys known (runAlone (storage.kill envelope error) store).2 hand :=
  (placement.remove_held held).withDead _

theorem retry {storage : StorageInternal} {envelope : JobEnvelope}
    (placement : Placement storage.keys known store hand)
    (held : envelope.id ∈ store.lists.get storage.currentProcessingQueue) (now : Int)
    (delay : Nat) (error : String) :
    Placement storage.keys known
      (runAlone (StorageInternal.retryIn now envelope.id delay error)
        (runAlone (storage.finishWithFailure envelope) store).2).2 hand := by
  obtain ⟨stored, found, sameId, recognised⟩ := placement.stored_of_mem held
  have removed := placement.erase_one held
  have kept : (runAlone (storage.finishWithFailure envelope) store).2.jobs.get envelope.id =
      some (.json stored) := found
  have released : (runAlone (storage.finishWithFailure envelope) store).2 =
      (serve (.lrem storage.currentProcessingQueue 1 stored.id) store).2 := by
    rw [sameId]
    rfl
  rw [StorageInternal.runAlone_retryIn kept, released]
  rw [← sameId] at found removed
  have written := removed.rewrite_text (stored.withRetriesIncremented error)
    found recognised rfl
  exact written.schedule .retry _

theorem handleErr {storage : StorageInternal} {envelope : JobEnvelope}
    (placement : Placement storage.keys known store hand)
    (held : envelope.id ∈ store.lists.get storage.currentProcessingQueue) (now : Int)
    (message : String) (delay maxRetries : Nat) :
    Placement storage.keys known
      (runAlone (storage.handleErr now message envelope delay maxRetries) store).2 hand := by
  by_cases retriesLeft : envelope.metadata.retries < maxRetries
  · rw [storage.runAlone_handleErr_retry now message envelope delay maxRetries store retriesLeft]
    exact placement.retry held now delay message
  · rw [storage.runAlone_handleErr_kill now message envelope delay maxRetries store retriesLeft]
    exact placement.kill held message

/-! Promotion. -/

theorem claimAll (placement : Placement keys known store hand) (name : DelayedSet)
    (ids : List JobId) :
    Placement keys known (Oxana.claimAll name ids store).2
      (claimedIds ids (Oxana.claimAll name ids store).1 ++ hand) := by
  induction ids generalizing store hand with
  | nil => simpa [Oxana.claimAll, Program.gathered] using placement
  | cons id rest ih =>
      have first := placement.claim name id
      have later := ih first
      change Placement keys known (Oxana.claimAll name rest (serve (.zrem name id) store).2).2
        (claimedIds (id :: rest) ((serve (.zrem name id) store).1 ::
          (Oxana.claimAll name rest (serve (.zrem name id) store).2).1) ++ hand)
      apply later.congr_hand
      intro other
      rw [claimedIds_cons]
      by_cases member : id ∈ (store.delayed name).members
      · have positive : 0 < (serve (.zrem name id) store).1 := by simp [serve, member]
        rw [if_pos positive, if_pos member]
        simp only [List.cons_append, List.count_append, List.count_cons, serve]
        omega
      · have zero : ¬0 < (serve (.zrem name id) store).1 := by simp [serve, member]
        rw [if_neg zero, if_neg member]
        rfl

theorem push_groups {storage : StorageInternal} (groups : List (String × List JobId))
    (placement : Placement storage.keys known store (groups.flatMap Prod.snd ++ hand))
    (belongs : ∀ group ∈ groups, ∀ id ∈ group.2, ∃ envelope,
      store.jobs.get id = some (.json envelope) ∧ envelope.queue = group.1) :
    Placement storage.keys known
      (Program.served serve store (groups.map fun group =>
        .lpush (storage.namespaceQueue group.1) group.2)) hand := by
  induction groups generalizing store with
  | nil => exact placement
  | cons group rest ih =>
      rw [List.flatMap_cons, List.append_assoc] at placement
      have pushed := push_queue group.2 placement (belongs group List.mem_cons_self)
      exact ih pushed fun later member => belongs later (List.mem_cons_of_mem _ member)

theorem decode_hand (placement : Placement keys known store (ids ++ hand)) :
    ∃ envelopes, decodeAll (ids.map store.jobs.get) = .ok envelopes ∧
      envelopes.map JobEnvelope.id = ids ∧
      ∀ envelope ∈ envelopes, store.jobs.get envelope.id = some (.json envelope) := by
  have stored : ∀ id ∈ ids, ∃ envelope, store.jobs.get id = some (.json envelope) ∧
      envelope.id = id := by
    intro id member
    have positive := List.count_pos_iff.mpr (List.mem_append_left hand member)
    obtain ⟨envelope, found, same, _⟩ := placement.stored_of_occurs id (by omega)
    exact ⟨envelope, found, same⟩
  clear placement
  induction ids with
  | nil => exact ⟨[], rfl, rfl, by simp⟩
  | cons id rest ih =>
      obtain ⟨first, found, same⟩ := stored id List.mem_cons_self
      obtain ⟨envelopes, decoded, sameIds, kept⟩ :=
        ih fun other member => stored other (List.mem_cons_of_mem _ member)
      refine ⟨first :: envelopes, ?_, ?_, ?_⟩
      · simp only [List.map_cons, found, decodeAll, fromText_json, decoded]
      · simp [same, sameIds]
      · intro envelope member
        rcases List.mem_cons.mp member with rfl | later
        · rw [same]
          exact found
        · exact kept envelope later

theorem promote {storage : StorageInternal} (placement : Placement storage.keys known store hand)
    (name : DelayedSet) (ids : List JobId) :
    Placement storage.keys known
      (runAlone (storage.claimAndEnqueueScheduledJobIds name ids) store).2 hand := by
  rw [storage.runAlone_claim]
  split
  · exact placement
  · have claimed := placement.claimAll name ids
    split
    · rename_i none
      rw [none] at claimed
      exact claimed
    · obtain ⟨envelopes, decoded, sameIds, kept⟩ := claimed.decode_hand
      rw [decoded, Program.resume_ok]
      have shuffled := storage.order.perm (groupByQueue envelopes)
      apply push_groups
      · apply claimed.congr_hand
        intro other
        rw [List.count_append, List.count_append, (shuffled.flatMap_right Prod.snd).count_eq,
          groupByQueue_count, sameIds]
      · intro group member id inside
        obtain ⟨envelope, found, sameQueue, sameId⟩ := (mem_groupByQueue envelopes).mp
          ⟨group.2, shuffled.mem_iff.mp member, inside⟩
        exact ⟨envelope, by rw [← sameId]; exact kept envelope found, sameQueue⟩

theorem enqueueScheduled {storage : StorageInternal}
    (placement : Placement storage.keys known store hand) (now : Int) (name : DelayedSet) :
    Placement storage.keys known (runAlone (storage.enqueueScheduled now name) store).2 hand := by
  unfold StorageInternal.enqueueScheduled
  rw [runAlone_bind, runAlone_ask]
  exact placement.promote name _

theorem retryAllNow {storage : StorageInternal}
    (placement : Placement storage.keys known store hand) :
    Placement storage.keys known (runAlone storage.retryAllNow store).2 hand := by
  unfold StorageInternal.retryAllNow
  rw [runAlone_bind, runAlone_ask]
  exact placement.promote .retry _

/-! Wiping and resurrection. -/

theorem wipeQueue {storage : StorageInternal}
    (placement : Placement storage.keys known store hand) (queue : String) :
    Placement storage.keys known (runAlone (storage.wipeQueue queue) store).2 hand := by
  unfold StorageInternal.wipeQueue
  rw [runAlone_bind, runAlone_ask]
  simp only [Program.resume_ok, serve]
  have emptied := placement.take (storage.namespaceQueue queue)
    (store.lists.get (storage.namespaceQueue queue)) [] (by simp)
  split
  · rename_i none
    rw [none] at emptied
    exact emptied
  · exact forget _ emptied

theorem resurrectJob {storage : StorageInternal}
    (placement : Placement storage.keys known store (id :: hand)) :
    (runAlone (storage.resurrectJob id) store).1 = some (.ok ()) ∧
      Placement storage.keys known (runAlone (storage.resurrectJob id) store).2 hand := by
  obtain ⟨envelope, found, same, _⟩ := placement.stored_of_occurs id (by simp)
  unfold StorageInternal.resurrectJob
  rw [runAlone_bind, StorageInternal.runAlone_getJob, lookup_of_json found]
  simp only [Program.resume_ok]
  rw [same]
  split
  · refine ⟨rfl, ?_⟩
    apply push_queue [id] placement
    intro other member
    rw [List.mem_singleton.mp member]
    exact ⟨envelope, found, rfl⟩
  · exact ⟨rfl, forget [id] placement⟩

theorem resurrectJobs {storage : StorageInternal}
    (placement : Placement storage.keys known store (ids ++ hand)) :
    (runAlone (storage.resurrectJobs ids) store).1 = some (.ok ()) ∧
      Placement storage.keys known (runAlone (storage.resurrectJobs ids) store).2 hand := by
  induction ids generalizing store with
  | nil => exact ⟨rfl, placement⟩
  | cons id rest ih =>
      obtain ⟨finished, after⟩ := placement.resurrectJob
      unfold StorageInternal.resurrectJobs
      rw [runAlone_bind]
      generalize runAlone (storage.resurrectJob id) store = ended at finished after
      obtain ⟨result, middle⟩ := ended
      simp only at finished after
      subst finished
      exact ih after

theorem drainProcessing {storage : StorageInternal}
    (placement : Placement storage.keys known store hand) (key : String) (bound : Nat) :
    Placement storage.keys known (runAlone (storage.drainProcessing key bound) store).2 hand := by
  induction bound generalizing store with
  | zero => exact placement
  | succ bound ih =>
      unfold StorageInternal.drainProcessing
      rw [runAlone_bind, runAlone_ask]
      simp only [Program.resume_ok]
      have popped := placement.pop key 10
      split
      · rename_i none
        rw [show (store.lists.get key).take 10 = [] from none] at popped
        exact popped
      · rw [runAlone_bind]
        obtain ⟨finished, after⟩ := popped.resurrectJobs
        change Placement storage.keys known (Program.resume
          (runAlone (storage.resurrectJobs ((store.lists.get key).take 10))
            (serve (.lpop key 10) store).2) _).2 hand
        generalize runAlone (storage.resurrectJobs ((store.lists.get key).take 10))
          (serve (.lpop key 10) store).2 = ended at finished after
        obtain ⟨result, middle⟩ := ended
        simp only at finished after
        subst finished
        exact ih after

theorem withProcesses (placement : Placement keys known store hand)
    (processes : RankedSet String Int) (processesData : SparseMap String (Option Process) none) :
    Placement keys known
      { store with processes := processes, processesData := processesData } hand :=
  ⟨placement.placed, placement.stored, placement.queued⟩

theorem resurrectProcesses {storage : StorageInternal}
    (placement : Placement storage.keys known store hand) (bound : Nat) (dead : List String) :
    Placement storage.keys known
      (runAlone (storage.resurrectProcesses bound dead) store).2 hand := by
  induction dead generalizing store with
  | nil => exact placement
  | cons processId rest ih =>
      unfold StorageInternal.resurrectProcesses
      rw [runAlone_bind]
      have drained := placement.drainProcessing (storage.processingQueue processId) bound
      generalize runAlone (storage.drainProcessing (storage.processingQueue processId) bound) store =
        ended at drained
      obtain ⟨result, after⟩ := ended
      cases result with
      | none => exact drained
      | some outcome =>
          cases outcome with
          | error error => exact drained
          | ok value =>
              simp only [Program.resume_ok]
              rw [runAlone_bind, runAlone_batch, Program.resume_ok]
              exact ih (drained.withProcesses _ _)

end Placement

end Oxana
