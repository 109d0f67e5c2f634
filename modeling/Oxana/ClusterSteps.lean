import Oxana.ClusterSound

/-! Every action of a cluster keeps its invariant. -/

namespace Oxana

variable {given : String} {world : World} {known : Identity → Prop} {store : Store}
  {keys : StorageKeys} {issued : List Identity} {id : JobId} {processId queue : String}
  {envelope old : JobEnvelope} {hand ids : List JobId} {storage : StorageInternal}

theorem Holding.rewrite (holding : Holding keys processId id queue store) (envelope : JobEnvelope)
    (found : store.jobs.get envelope.id = some (.json old))
    (sameQueue : envelope.queue = old.queue) :
    Holding keys processId id queue
      { store with jobs := store.jobs.set envelope.id (some (toText envelope)) } := by
  by_cases same : id = envelope.id
  · subst same
    obtain ⟨stored, storedAt, queueOf⟩ := holding.stored
    rw [found] at storedAt
    cases storedAt
    exact ⟨holding.listed, normalized envelope, SparseMap.get_set_self _ _ _,
      sameQueue.trans queueOf⟩
  · exact holding.of_jobs _ (SparseMap.get_set_of_ne _ _ same)

theorem Holding.resurrectJob {held : JobId}
    (placement : Placement storage.keys known store (id :: hand))
    (holding : Holding storage.keys processId held queue store) :
    Holding storage.keys processId held queue
      (Oxana.runAlone (storage.resurrectJob id) store).2 := by
  obtain ⟨stored, found, same, _⟩ := placement.stored_of_occurs id (by simp)
  have different : held ∉ [stored.id] := by
    rw [same, List.mem_singleton]
    rintro rfl
    exact placement.not_mem_list_of_hand List.mem_cons_self _ holding.listed
  unfold StorageInternal.resurrectJob
  rw [runAlone_bind, StorageInternal.runAlone_getJob, lookup_of_json found]
  simp only [Program.resume_ok]
  split
  · exact holding.serve (.lpush _ _) trivial
  · exact holding.serve (.hdel _) different

theorem Holding.resurrectJobs {held : JobId}
    (placement : Placement storage.keys known store (ids ++ hand))
    (holding : Holding storage.keys processId held queue store) :
    Holding storage.keys processId held queue
      (Oxana.runAlone (storage.resurrectJobs ids) store).2 := by
  induction ids generalizing store with
  | nil => exact holding
  | cons id rest ih =>
      obtain ⟨finished, after⟩ := placement.resurrectJob
      have kept := holding.resurrectJob placement
      unfold StorageInternal.resurrectJobs
      rw [runAlone_bind]
      generalize Oxana.runAlone (storage.resurrectJob id) store = ended at finished after kept
      obtain ⟨result, middle⟩ := ended
      simp only at finished after kept
      subst finished
      exact ih after kept

theorem Holding.drainProcessing {held : JobId} {key : String}
    (spared : key ≠ storage.keys.processingQueue processId)
    (placement : Placement storage.keys known store hand) (bound : Nat)
    (holding : Holding storage.keys processId held queue store) :
    Holding storage.keys processId held queue
      (Oxana.runAlone (storage.drainProcessing key bound) store).2 := by
  induction bound generalizing store with
  | zero => exact holding
  | succ bound ih =>
      have popped := placement.pop key 10
      have kept := holding.serve (.lpop key 10) spared
      unfold StorageInternal.drainProcessing
      rw [runAlone_bind, runAlone_ask]
      simp only [Program.resume_ok]
      split
      · exact kept
      · rw [runAlone_bind]
        obtain ⟨finished, after⟩ := popped.resurrectJobs
        have keptAfter := kept.resurrectJobs popped
        change Holding storage.keys processId held queue (Program.resume
          (Oxana.runAlone (storage.resurrectJobs ((store.lists.get key).take 10))
            (Oxana.serve (.lpop key 10) store).2) _).2
        generalize Oxana.runAlone (storage.resurrectJobs ((store.lists.get key).take 10))
          (Oxana.serve (.lpop key 10) store).2 = ended at finished after keptAfter
        obtain ⟨result, middle⟩ := ended
        simp only at finished after keptAfter
        subst finished
        exact ih after keptAfter

theorem Holding.resurrectProcesses {held : JobId} {dead : List String}
    (alive : ∀ other ∈ dead, other ≠ processId)
    (placement : Placement storage.keys known store hand) (bound : Nat)
    (holding : Holding storage.keys processId held queue store) :
    Holding storage.keys processId held queue
      (Oxana.runAlone (storage.resurrectProcesses bound dead) store).2 := by
  induction dead generalizing store with
  | nil => exact holding
  | cons first rest ih =>
      have spared : storage.processingQueue first ≠ storage.keys.processingQueue processId :=
        fun same => alive first List.mem_cons_self (storage.keys.processingQueue_injective same)
      have drained := placement.drainProcessing (storage.processingQueue first) bound
      have kept := holding.drainProcessing spared placement bound
      unfold StorageInternal.resurrectProcesses
      rw [runAlone_bind]
      generalize Oxana.runAlone
        (storage.drainProcessing (storage.processingQueue first) bound) store =
          ended at drained kept
      obtain ⟨result, after⟩ := ended
      cases result with
      | none => exact kept
      | some outcome =>
          cases outcome with
          | error error => exact kept
          | ok value =>
              simp only [Program.resume_ok]
              rw [runAlone_bind, runAlone_batch, Program.resume_ok]
              exact ih (fun other member => alive other (List.mem_cons_of_mem _ member))
                (drained.withProcesses _ _) (kept.of_same rfl rfl)

namespace Sound

theorem remember (sound : Sound given world) {copy : Option JobEnvelope}
    (held : ∀ envelope, copy = some envelope → Held given world processId id envelope) :
    Sound given (world.remember processId id copy) := by
  refine ⟨sound.ledger, sound.placement, sound.buried, ?_⟩
  intro other job envelope loaded
  simp only [World.remember] at loaded
  split at loaded
  · rename_i same
    obtain ⟨rfl, rfl⟩ := same
    have before := held envelope loaded
    exact ⟨before.running, before.own, before.issued, before.holding⟩
  · have before := sound.held other job envelope loaded
    exact ⟨before.running, before.own, before.issued, before.holding⟩

/-! The actions of clients. -/

theorem enqueueAt (sound : Sound storage.given world)
    (ready : Ready storage.given world.issued world.store.dead world.store envelope) (now : Int) :
    Sound storage.given (world.apply (storage.enqueueAt now envelope)) := by
  unfold StorageInternal.enqueueAt
  split
  · exact sound.apply_enqueue ready .queue
  · exact sound.apply_enqueue ready .schedule

theorem enqueueIn (sound : Sound storage.given world)
    (ready : Ready storage.given world.issued world.store.dead world.store envelope)
    (now stamped checked : Int) (delay : Nat) :
    Sound storage.given (world.apply (storage.enqueueIn now stamped checked envelope delay)) := by
  unfold StorageInternal.enqueueIn
  split
  · exact sound.apply_enqueue ready .queue
  · split
    · exact sound
    · rename_i time _
      have later : Ready storage.given world.issued world.store.dead world.store
          (envelope.withScheduledAt time stamped) :=
        ⟨ready.issued, ready.single, ready.idle⟩
      exact sound.enqueueAt later checked

theorem wipeQueue (sound : Sound storage.given world) (plain : Plain storage.given queue) :
    Sound storage.given (world.apply (storage.wipeQueue queue)) := by
  have apart := StorageKeys.namespaceQueue_ne_processingQueue storage.given plain
  refine sound.apply _ (sound.placement.wipeQueue queue) ?_ ?_
  · unfold StorageInternal.wipeQueue
    rw [runAlone_bind, runAlone_ask]
    simp only [Program.resume_ok, serve]
    split <;> rfl
  · intro process id envelope _ holding
    have spared := sound.placement.not_mem_of_mem (apart process).symm holding.listed
    unfold StorageInternal.wipeQueue
    rw [runAlone_bind, runAlone_ask]
    simp only [Program.resume_ok, serve]
    split
    · exact holding.serve (.del _) (apart process)
    · exact (holding.serve (.hdel _) spared).serve (.del _) (apart process)

/-! The actions of a worker. -/

theorem dequeue (sound : Sound storage.given world) (plain : Plain storage.given queue) :
    Sound storage.given (world.apply (storage.dequeue queue)) := by
  refine sound.apply _ (sound.placement.move _ _) ?_ ?_
  · exact serve_sparesDead (.lmove _ _) trivial _
  · intro process id envelope _ holding
    exact holding.lmove
      (StorageKeys.namespaceQueue_ne_processingQueue storage.given plain process)

theorem load (sound : Sound storage.given world)
    (running : world.running storage.processId = true)
    (member : id ∈ world.store.lists.get storage.currentProcessingQueue) :
    Sound storage.given (perform storage world (.load id)) := by
  obtain ⟨stored, found, sameId, recognised⟩ := sound.placement.stored_of_mem member
  have ended : runAlone (storage.loadPendingJob id) world.store =
      (some (.ok (some stored)), world.store) := by
    unfold StorageInternal.loadPendingJob
    rw [runAlone_bind, runAlone_attempt, StorageInternal.runAlone_getJob, lookup_of_json found]
    rfl
  simp only [perform, World.apply, ended]
  refine sound.remember ?_
  intro envelope same
  cases same
  exact ⟨running, sameId, recognised.1, member, stored, found, rfl⟩

theorem setStartedAt (sound : Sound storage.given world)
    (held : Held storage.given world storage.processId id envelope) (now : Int) :
    Sound storage.given
      ((world.apply (StorageInternal.setStartedAt now envelope)).remember storage.processId id
        (some (envelope.withStartedAt now))) := by
  obtain ⟨stored, found, sameQueue⟩ := held.holding.stored
  rw [← held.own] at found
  have recognised : Known world.issued world.store.dead (envelope.withStartedAt now).identity := by
    refine ⟨held.issued, ?_⟩
    intro single
    have own := sound.placement.known_of_stored found
    have free := own.2.2 ((sound.ledger.sole _ own.2.1 _ held.issued own.1).trans single)
    rw [show stored.identity.id = envelope.id from own.1] at free
    exact free
  have written := sound.apply (StorageInternal.setStartedAt now envelope)
    (sound.placement.rewrite_text (envelope.withStartedAt now) found recognised
      sameQueue.symm) rfl
    fun _ _ _ _ holding => holding.rewrite (envelope.withStartedAt now) found
      sameQueue.symm
  refine written.remember ?_
  intro started same
  cases same
  exact ⟨held.running, held.own, held.issued,
    held.holding.rewrite (envelope.withStartedAt now) found sameQueue.symm⟩

theorem updateState (sound : Sound storage.given world)
    (held : Held storage.given world storage.processId id envelope) (state : Json) :
    Sound storage.given (world.apply (StorageInternal.updateState id state)) := by
  obtain ⟨stored, found, _⟩ := held.holding.stored
  have own := sound.placement.known_of_stored found
  have ended := StorageInternal.runAlone_updateState found state
  refine sound.apply _ (sound.placement.updateState found state) ?_ ?_
  · rw [ended]
  · intro process other copy _ holding
    rw [ended]
    rw [← own.1] at found
    exact holding.rewrite (stored.withState (some state)) found rfl

theorem others_differ (sound : Sound given world) (held : Held given world processId id envelope)
    {other : String} {job : JobId} {copy : JobEnvelope}
    (loaded : (world.remember processId id none).memory other job = some copy) :
    envelope.id ≠ job := by
  intro same
  simp only [World.remember] at loaded
  split at loaded
  · simp at loaded
  · rename_i elsewhere
    have owned := (sound.held other job copy loaded).holding.listed
    have listed := held.holding.listed
    rw [← same, held.own] at owned
    exact elsewhere ⟨sound.placement.holder_unique owned listed, same.symm.trans held.own⟩

theorem finishWithSuccess (sound : Sound storage.given world)
    (held : Held storage.given world storage.processId id envelope) :
    Sound storage.given
      ((world.apply (storage.finishWithSuccess envelope)).remember storage.processId id none) := by
  have listed := held.holding.listed
  rw [← held.own] at listed
  have forgotten : Sound storage.given (world.remember storage.processId id none) :=
    sound.remember (by simp)
  refine forgotten.apply (storage.finishWithSuccess envelope)
    (forgotten.placement.finishWithSuccess listed) rfl ?_
  intro process job copy loaded holding
  have different := sound.others_differ held loaded
  exact (holding.serve (.hdel [envelope.id])
    (by simpa [Command.Spares] using different.symm)).serve (.lrem _ 1 _) different

theorem handleErr_retry (sound : Sound storage.given world)
    (held : Held storage.given world storage.processId id envelope) (now : Int)
    (message : String) (delay maxRetries : Nat)
    (retriesLeft : envelope.metadata.retries < maxRetries) :
    Sound storage.given
      ((world.apply (storage.handleErr now message envelope delay maxRetries)).remember
        storage.processId id none) := by
  have listed := held.holding.listed
  rw [← held.own] at listed
  have forgotten : Sound storage.given (world.remember storage.processId id none) :=
    sound.remember (by simp)
  obtain ⟨stored, found, sameId, _⟩ := sound.placement.stored_of_mem listed
  have kept : (runAlone (storage.finishWithFailure envelope) world.store).2.jobs.get envelope.id =
      some (.json stored) := found
  have ended : (runAlone (storage.handleErr now message envelope delay maxRetries)
      world.store).2 = Program.served serve world.store
        [.lrem storage.currentProcessingQueue 1 envelope.id,
          .hset stored.id (toText (stored.withRetriesIncremented message)),
          .zadd .retry stored.id (retryScore now delay)] := by
    rw [storage.runAlone_handleErr_retry now message envelope delay maxRetries world.store
      retriesLeft, StorageInternal.runAlone_retryIn kept]
    rfl
  refine forgotten.apply _ (forgotten.placement.handleErr listed now message delay maxRetries) ?_ ?_
  · change (runAlone _ world.store).2.dead = _
    rw [ended]
    rfl
  · intro process job copy loaded holding
    have different := sound.others_differ held loaded
    change Holding _ _ _ _ (runAlone _ world.store).2
    rw [ended]
    exact ((holding.serve (.lrem _ 1 _) different).serve (.hset _ _)
      (sameId ▸ different)).serve (.zadd _ _ _) trivial

theorem buried_kill (sound : Sound given world)
    (held : Held given world processId id envelope) (message : String) :
    Buried world.issued ((toText (envelope.withError message) :: world.store.dead).take 1000) where
  decodes := by
    intro text member
    rcases List.mem_cons.mp (List.mem_of_mem_take member) with rfl | earlier
    · exact ⟨normalized (envelope.withError message), rfl, held.issued⟩
    · exact sound.buried.decodes text earlier
  once := by
    intro identity member single
    have shorter : (deadIds
        ((toText (envelope.withError message) :: world.store.dead).take 1000)).count identity.id ≤
          (envelope.id :: deadIds world.store.dead).count identity.id :=
      ((List.take_sublist _ _).filterMap _).count_le _
    have earlier := sound.buried.once identity member single
    by_cases same : envelope.id = identity.id
    · obtain ⟨stored, found, _⟩ := held.holding.stored
      rw [← held.own] at found
      have own := sound.placement.known_of_stored found
      have sole := sound.ledger.sole _ own.2.1 identity member (own.1.trans same)
      have none := List.count_eq_zero.mpr (own.2.2 (sole.trans single))
      rw [show stored.identity.id = identity.id from own.1.trans same] at none
      rw [List.count_cons, none] at shorter
      split at shorter <;> omega
    · rw [List.count_cons_of_ne same] at shorter
      omega

theorem handleErr_kill (sound : Sound storage.given world)
    (held : Held storage.given world storage.processId id envelope) (now : Int)
    (message : String) (delay maxRetries : Nat)
    (exhausted : ¬envelope.metadata.retries < maxRetries) :
    Sound storage.given
      ((world.apply (storage.handleErr now message envelope delay maxRetries)).remember
        storage.processId id none) := by
  have listed := held.holding.listed
  rw [← held.own] at listed
  have ended := storage.runAlone_handleErr_kill now message envelope delay maxRetries world.store
    exhausted
  have removed := sound.placement.kill listed message
  have gone : (runAlone (storage.kill envelope message) world.store).2.jobs.get envelope.id =
      none := by
    change (removeFields world.store.jobs [envelope.id]).get envelope.id = none
    rw [removeFields_get, if_pos (List.mem_singleton_self _)]
  have buried := sound.buried_kill held message
  refine ⟨sound.ledger, ?_, ?_, ?_⟩
  · simp only [World.remember, World.apply, ended]
    refine removed.widen ?_
    intro other stored found recognised
    refine ⟨recognised.1, ?_⟩
    intro single inside
    have own := removed.known_of_stored found
    obtain ⟨corpse, member, sameId⟩ := mem_deadIds.mp inside
    rcases List.mem_cons.mp (List.mem_of_mem_take member) with fresh | earlier
    · have killed : corpse.id = envelope.id := by
        rw [toText_eq] at fresh
        cases fresh
        rfl
      rw [← own.1, show stored.id = envelope.id from sameId.symm.trans killed, gone] at found
      contradiction
    · exact recognised.2 single (mem_deadIds.mpr ⟨corpse, earlier, sameId⟩)
  · simp only [World.remember, World.apply, ended]
    exact buried
  · intro process job copy loaded
    have different := sound.others_differ held loaded
    simp only [World.remember] at loaded
    split at loaded
    · simp at loaded
    · have before := sound.held process job copy loaded
      refine ⟨before.running, before.own, before.issued, ?_⟩
      simp only [World.remember, World.apply, ended]
      exact ((before.holding.serve (.lrem _ 1 _) different).serve
        (.hdel [envelope.id])
          (by simpa [Command.Spares] using different.symm)).of_same rfl rfl

/-! Promotion, revival and resurrection. -/

theorem promote (sound : Sound storage.given world) {program : Redis α}
    (sends : program.Sends (Command.OfPromotion storage))
    (placed : Placement storage.keys (Known world.issued world.store.dead)
      (runAlone program world.store).2 []) :
    Sound storage.given (world.apply program) := by
  refine sound.apply _ placed ?_ ?_
  · refine runAlone_dead (Program.sends_mono ?_ sends) _
    intro command sent
    cases command <;> first | exact sent.elim | trivial
  · intro process id copy _ holding
    refine holding.runAlone (Program.sends_mono ?_ sends)
    intro command sent
    cases command <;> first | exact sent.elim | trivial

theorem resurrect (sound : Sound storage.given world) (bound : Nat) (now : Int) (threshold : Nat)
    (stopped : ∀ processId ∈ storage.deadIn now threshold world.store,
      world.running processId = false) :
    Sound storage.given (world.apply (storage.resurrect bound now threshold)) := by
  have ended : runAlone (storage.resurrect bound now threshold) world.store =
      runAlone (storage.resurrectProcesses bound (storage.deadIn now threshold world.store))
        world.store := by
    unfold StorageInternal.resurrect
    rw [runAlone_bind, storage.runAlone_deadProcessIds]
    rfl
  refine sound.apply _ ?_ ?_ ?_
  · rw [ended]
    exact sound.placement.resurrectProcesses bound _
  · refine runAlone_dead (Program.sends_mono ?_ (storage.resurrect_sends bound now threshold)) _
    intro command sent
    cases command <;> first | exact sent.elim | trivial
  · intro process id copy loaded holding
    rw [ended]
    refine holding.resurrectProcesses ?_ sound.placement bound
    rintro other member rfl
    have running := (sound.held other id copy loaded).running
    rw [stopped other member] at running
    contradiction

end Sound

end Oxana
