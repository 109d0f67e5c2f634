import Oxana.LifePlaces

/-! What each storage operation does to the places of the jobs. -/

namespace Oxana

variable {given : String} {storage : StorageInternal} {world : World} {store after : Store}
  {known : Identity → Prop} {issued : List Identity} {dead : List Payload} {state : LifeState}
  {envelope : JobEnvelope} {id : JobId} {queue processId : String} {place : JobPlace}
  {ids : List JobId}

namespace Lives

theorem place_eq (lives : Lives given store state)
    (placement : Placement (StorageKeys.new given) known store [])
    (plain : ∀ identity, known identity → Plain given identity.queue)
    (inside : place.In (StorageKeys.new given) store id) : state.place id = place :=
  (lives.placed id).unique placement plain inside

theorem of_undisturbed (lives : Lives given store state)
    (same : ∀ id, Undisturbed id store after) (dead : after.dead = store.dead) :
    Lives given after state :=
  ⟨fun id => (same id).keeps (lives.placed id), by rw [dead]; exact lives.dead⟩

theorem put (lives : Lives given store state)
    (others : ∀ other, other ≠ id → Undisturbed other store after)
    (inside : place.In (StorageKeys.new given) after id) (dead : after.dead = store.dead) :
    Lives given after (state.put id place) where
  placed := by
    intro other
    by_cases same : other = id
    · subst same
      rw [LifeState.put_place_self]
      exact inside
    · rw [LifeState.put_place_of_ne _ _ same]
      exact (others other same).keeps (lives.placed other)
  dead := by
    rw [dead]
    exact lives.dead

end Lives

/-! Coming in. -/

def destinationSpot (envelope : JobEnvelope) : JobDestination → JobSpot
  | .queue => .waiting
  | .schedule => .delayed .schedule envelope.metadata.scheduledAt

theorem in_pushed (storage : StorageInternal) (envelope : JobEnvelope)
    (destination : JobDestination) (store : Store) :
    (JobPlace.present envelope.queue (destinationSpot envelope destination)).In
      (StorageKeys.new storage.given)
      (serve (storage.pushToDestination envelope destination)
        (serve (.hset envelope.id (toText envelope)) store).2).2 envelope.id := by
  cases destination with
  | queue =>
      refine ⟨⟨normalized envelope, SparseMap.get_set_self _ _ _, rfl⟩, ?_⟩
      change envelope.id ∈ SparseMap.get _ ((StorageKeys.new storage.given).namespaceQueue _)
      simp only [StorageInternal.pushToDestination, serve]
      rw [StorageInternal.namespaceQueue, StorageInternal.keys, SparseMap.get_set_self]
      exact List.mem_append_left _ (by simp)
  | schedule =>
      refine ⟨⟨normalized envelope, SparseMap.get_set_self _ _ _, rfl⟩, ?_⟩
      exact (RankedSet.holds_insert ..).mpr (Or.inl ⟨rfl, rfl⟩)

theorem undisturbed_enqueue (storage : StorageInternal) (envelope : JobEnvelope)
    (destination : JobDestination) (store : Store) {other : JobId}
    (different : other ≠ envelope.id) :
    Undisturbed other store (runAlone (storage.enqueueWConn envelope destination) store).2 := by
  refine Undisturbed.runAlone (StorageInternal.enqueueWConn_sends_of ?_ ?_ ?_ ?_ ?_ ?_)
  · exact fun _ => trivial
  · exact fun _ => trivial
  · exact fun _ => Ne.symm different
  · exact fun _ _ => Ne.symm different
  · exact fun _ _ => Ne.symm different
  · cases destination with
    | queue => exact fun _ => trivial
    | schedule => exact fun _ => Ne.symm different

theorem Lives.enqueue (lives : Lives storage.given store state)
    (placement : Placement storage.keys (Known issued dead) store [])
    (plain : ∀ identity ∈ issued, Plain storage.given identity.queue)
    (ready : Ready storage.given issued dead store envelope) (destination : JobDestination) :
    ∃ after, Entered envelope.id envelope.queue (destinationSpot envelope destination)
        (decide envelope.replaces) state after ∧
      Lives storage.given (runAlone (storage.enqueueWConn envelope destination) store).2 after := by
  have recognised : ∀ identity, Known issued dead identity → Plain storage.given identity.queue :=
    fun identity member => plain identity member.1
  have others := fun other => @undisturbed_enqueue storage envelope destination store other
  have buried := @enqueueWConn_dead store envelope storage destination
  cases found : store.jobs.get envelope.id with
  | none =>
      have decided : StorageInternal.decidedAction store envelope = .ok .default := by
        simp [StorageInternal.decidedAction, found]
      have absent : state.place envelope.id = .absent :=
        lives.place_eq placement recognised found
      rw [storage.runAlone_enqueueWConn envelope destination store decided] at others buried ⊢
      have pushed := in_pushed storage envelope destination store
      exact ⟨_, .fresh absent, lives.put others pushed buried⟩
  | some text =>
      obtain ⟨old, rfl, _⟩ := placement.stored _ _ found
      have present : state.place envelope.id ≠ .absent := by
        intro absent
        have missing := lives.placed envelope.id
        rw [absent] at missing
        rw [show store.jobs.get envelope.id = none from missing] at found
        cases found
      have unique : envelope.metadata.unique = true := by
        by_contra single
        rw [(ready.single (by simpa using single)).2] at found
        cases found
      by_cases conflict : envelope.metadata.onConflict = some .replace
      · have decided : StorageInternal.decidedAction store envelope = .ok (.replace old.queue) := by
          simp [StorageInternal.decidedAction, unique, found, conflict, lookup_of_json found,
            Except.map]
        rw [decide_eq_true (show envelope.replaces from ⟨unique, conflict⟩)]
        rw [storage.runAlone_enqueueWConn envelope destination store decided] at others buried ⊢
        have pushed := in_pushed storage envelope destination
          (Placement.withdrawn storage old.queue envelope store)
        rw [← Placement.served_replace] at pushed
        cases former : state.place envelope.id with
        | absent => exact absurd former present
        | present own spot =>
            refine ⟨_, .replaced former ?_, lives.put others pushed buried⟩
            rintro processId rfl
            have inside := lives.placed envelope.id
            rw [former] at inside
            exact ready.idle ⟨unique, conflict⟩ processId inside.2
      · have decided : StorageInternal.decidedAction store envelope = .ok .skip := by
          simp [StorageInternal.decidedAction, unique, found, conflict]
        rw [decide_eq_false (fun replaces : envelope.replaces => conflict replaces.2)]
        rw [storage.runAlone_enqueueWConn envelope destination store decided]
        exact ⟨state, .skipped present, lives⟩

/-! Being worked on. -/

theorem Lives.dequeue (lives : Lives storage.given store state)
    (placement : Placement storage.keys known store [])
    (plain : ∀ identity, known identity → Plain storage.given identity.queue)
    (own : Plain storage.given queue) :
    ∃ after, LifeMove (.take queue storage.processId) state after ∧
      Lives storage.given (runAlone (storage.dequeue queue) store).2 after := by
  rw [StorageInternal.runAlone_dequeue]
  have passed : ∀ other, (store.lists.get (storage.namespaceQueue queue)).getLast? ≠ some other →
      Undisturbed other store (moveLast store (storage.namespaceQueue queue)
        storage.currentProcessingQueue).2 := fun other passes =>
    Undisturbed.serve (.lmove _ _) passes
  have buried : (moveLast store (storage.namespaceQueue queue)
      storage.currentProcessingQueue).2.dead = store.dead :=
    serve_sparesDead (.lmove _ _) trivial store
  cases last : (store.lists.get (storage.namespaceQueue queue)).getLast? with
  | none =>
      refine ⟨state, .empty ?_, lives.of_undisturbed (fun other => passed other ?_) buried⟩
      · intro id waiting
        have inside := lives.placed id
        rw [waiting] at inside
        have member : id ∈ store.lists.get (storage.namespaceQueue queue) := inside.2
        rw [List.getLast?_eq_none_iff.mp last] at member
        cases member
      · rw [last]
        exact fun impossible => nomatch impossible
  | some id =>
      have member := List.mem_of_getLast? last
      obtain ⟨stored, found, same⟩ : ∃ stored, store.jobs.get id = some (.json stored) ∧
          stored.queue = queue := by
        rcases placement.queued _ id member with ⟨processId, held⟩ | ⟨stored, found, key⟩
        · exact absurd held
            (StorageKeys.namespaceQueue_ne_processingQueue storage.given own processId)
        · have recognised := (placement.known_of_stored found).2
          exact ⟨stored, found, (StorageKeys.namespaceQueue_injective _ own
            (plain _ recognised) key).symm⟩
      have waiting : state.place id = .present queue .waiting :=
        lives.place_eq placement plain ⟨⟨stored, found, same⟩, member⟩
      refine ⟨_, .found waiting, lives.put ?_ ?_ buried⟩
      · intro other different
        refine passed other ?_
        rw [last]
        exact fun same => different (Option.some_inj.mp same).symm
      · unfold moveLast
        rw [last]
        refine ⟨⟨stored, found, same⟩, ?_⟩
        change id ∈ SparseMap.get _ storage.currentProcessingQueue
        rw [SparseMap.get_set_self]
        exact List.mem_cons_self

theorem Held.place_eq (sound : Sound given world) (lives : Lives given world.store state)
    (held : Held given world processId id envelope) :
    state.place id = .present envelope.queue (.held processId) :=
  lives.place_eq sound.placement (fun _ recognised => sound.ledger.plain _ recognised.1)
    ⟨held.holding.stored, held.holding.listed⟩

theorem Lives.finishWithSuccess (lives : Lives storage.given store state)
    (envelope : JobEnvelope) :
    Lives storage.given (runAlone (storage.finishWithSuccess envelope) store).2
      (state.put envelope.id .absent) := by
  refine lives.put ?_ ?_ rfl
  · intro other different
    refine Undisturbed.runAlone (Program.sends_batch ?_)
    intro command member store
    simp only [List.mem_cons, List.not_mem_nil, or_false] at member
    rcases member with rfl | rfl
    · exact fun inside => different (List.mem_singleton.mp inside)
    · exact Ne.symm different
  · exact (removeFields_get ..).trans (if_pos (List.mem_singleton_self _))

theorem Lives.retry (lives : Lives storage.given store state) {stored : JobEnvelope}
    (found : store.jobs.get envelope.id = some (.json stored)) (own : stored.id = envelope.id)
    (now : Int) (message : String) (delay maxRetries : Nat)
    (retriesLeft : envelope.metadata.retries < maxRetries) :
    Lives storage.given
      (runAlone (storage.handleErr now message envelope delay maxRetries) store).2
      (state.put envelope.id (.present stored.queue (.delayed .retry (retryScore now delay)))) := by
  have kept : (runAlone (storage.finishWithFailure envelope) store).2.jobs.get envelope.id =
      some (.json stored) := found
  rw [storage.runAlone_handleErr_retry now message envelope delay maxRetries store retriesLeft,
    StorageInternal.runAlone_retryIn kept, StorageInternal.runAlone_finishWithFailure]
  refine lives.put ?_ ?_ rfl
  · intro other different
    have first : Undisturbed other store (Program.served serve store
        [.lrem storage.currentProcessingQueue 1 envelope.id]) := by
      refine Undisturbed.served ?_
      intro command member store
      rw [List.mem_singleton.mp member]
      exact Ne.symm different
    refine first.trans (Undisturbed.served ?_)
    intro command member store
    simp only [List.mem_cons, List.not_mem_nil, or_false] at member
    rcases member with rfl | rfl
    · exact fun same => different (same.symm.trans own)
    · exact fun same => different (same.symm.trans own)
  · refine ⟨⟨normalized (stored.withRetriesIncremented message), ?_, rfl⟩, ?_⟩
    · exact (SparseMap.get_set ..).trans (if_pos own.symm)
    · exact (RankedSet.holds_insert ..).mpr (Or.inl ⟨own.symm, rfl⟩)

theorem gravesOf_take (texts : List Payload)
    (decode : ∀ text ∈ texts, ∃ envelope, text = .json envelope) (size : Nat) :
    gravesOf (texts.take size) = (gravesOf texts).take size := by
  induction texts generalizing size with
  | nil => simp [gravesOf]
  | cons text rest ih =>
      obtain ⟨envelope, rfl⟩ := decode text List.mem_cons_self
      cases size with
      | zero => rfl
      | succ size =>
          have later := ih (fun text member => decode text (List.mem_cons_of_mem _ member)) size
          exact congrArg (envelope.grave :: ·) later

theorem Lives.kill (lives : Lives storage.given store state)
    (decode : ∀ text ∈ store.dead, ∃ envelope, text = .json envelope) (envelope : JobEnvelope)
    (message : String) :
    Lives storage.given (runAlone (storage.kill envelope message) store).2
      { state.put envelope.id .absent with dead := (envelope.grave :: state.dead).take 1000 } where
  placed := by
    have removed := lives.finishWithSuccess envelope
    intro id
    have inside := removed.placed id
    by_cases same : id = envelope.id
    · subst same
      rw [LifeState.put_place_self] at inside
      change JobPlace.In _ _ _ ((state.put envelope.id .absent).place envelope.id)
      rw [LifeState.put_place_self]
      exact inside
    · exact inside
  dead := by
    change (envelope.grave :: state.dead).take 1000 =
      gravesOf ((toText (envelope.withError message) :: store.dead).take 1000)
    rw [gravesOf_take, lives.dead]
    · rfl
    · intro text member
      rcases List.mem_cons.mp member with rfl | earlier
      · exact ⟨_, rfl⟩
      · exact decode text earlier

/-! Going back to the queue. -/

theorem undisturbed_promote (storage : StorageInternal) (name : DelayedSet) (ids : List JobId)
    (store : Store) {other : JobId} (outside : other ∉ ids) :
    Undisturbed other store
      (runAlone (storage.claimAndEnqueueScheduledJobIds name ids) store).2 := by
  refine Undisturbed.runAlone ?_
  unfold StorageInternal.claimAndEnqueueScheduledJobIds
  split
  · trivial
  · refine Program.sends_bind (Program.sends_collect ?_) ?_
    · rintro id member store rfl
      exact outside member
    · intro claimed
      dsimp only
      split
      · trivial
      · refine Program.sends_bind (Program.sends_bind (Program.sends_request fun _ => trivial)
          fun _ => Program.sends_ofExcept _) ?_
        intro envelopes
        refine Program.sends_bind (Program.sends_batch ?_) fun _ => trivial
        intro command member store
        obtain ⟨group, _, rfl⟩ := List.mem_map.mp member
        trivial

theorem in_promoted (placement : Placement storage.keys known store []) {name : DelayedSet}
    (nodup : ids.Nodup) (members : ∀ id ∈ ids, id ∈ (store.delayed name).members)
    (inside : id ∈ ids) (found : store.jobs.get id = some (.json envelope)) :
    (JobPlace.present envelope.queue .waiting).In (StorageKeys.new storage.given)
      (runAlone (storage.claimAndEnqueueScheduledJobIds name ids) store).2 id := by
  have claimed := placement.claimAll name ids
  have jobs : (claimAll name ids store).2.jobs = store.jobs := by
    rw [claimAll_rest]
  rw [claimedIds_of_members nodup members] at claimed
  obtain ⟨envelopes, decoded, sameIds, kept⟩ := claimed.decode_hand
  rw [storage.runAlone_claim, claimedIds_of_members nodup members,
    if_neg (List.ne_nil_of_mem inside), if_neg (List.ne_nil_of_mem inside), decoded,
    Program.resume_ok]
  have shuffled := storage.order.perm (groupByQueue envelopes)
  have pushed := served_pushes storage.namespaceQueue
    (storage.order.arrange (groupByQueue envelopes)) (claimAll name ids store).2 id
  refine ⟨⟨envelope, ?_, rfl⟩, ?_⟩
  · have same : (Program.served serve (claimAll name ids store).2
        (storage.pushGroups envelopes)).jobs = (claimAll name ids store).2.jobs := by
      unfold StorageInternal.pushGroups
      rw [pushed.2.2]
    rw [same, jobs]
    exact found
  · rw [← sameIds] at inside
    obtain ⟨read, listed, own⟩ := List.mem_map.mp inside
    have text := kept read listed
    rw [own, jobs, found] at text
    cases text
    obtain ⟨group, inGroups, grouped⟩ :=
      (mem_groupByQueue envelopes).mpr ⟨envelope, listed, rfl, own⟩
    exact mem_served_pushes storage.namespaceQueue _ (shuffled.mem_iff.mpr inGroups) grouped

theorem Lives.promote (lives : Lives storage.given store state)
    (placement : Placement storage.keys known store [])
    (plain : ∀ identity, known identity → Plain storage.given identity.queue)
    {name : DelayedSet} {limit : Option Int} (nodup : ids.Nodup)
    (due : ∀ id, id ∈ ids ↔ ∃ score, (store.delayed name).Holds id score ∧ IsDue limit score) :
    Lives storage.given (runAlone (storage.claimAndEnqueueScheduledJobIds name ids) store).2
      { state with place := fun id => (state.place id).promoted name limit } where
  placed := by
    intro id
    have before := lives.placed id
    by_cases inside : id ∈ ids
    · obtain ⟨score, holds, isDue⟩ := (due id).mp inside
      have counted := memberCount_of_holds holds
      have bound := memberCount_delayed_le_occurrences store name id
      obtain ⟨envelope, found, _⟩ := placement.stored_of_occurs id (by omega)
      have delayed : state.place id = .present envelope.queue (.delayed name score) :=
        lives.place_eq placement plain ⟨⟨envelope, found, rfl⟩, holds⟩
      dsimp only
      rw [delayed, JobPlace.promoted, if_pos ⟨rfl, isDue⟩]
      refine in_promoted placement nodup ?_ inside found
      intro other member
      obtain ⟨score, holds, _⟩ := (due other).mp member
      exact (RankedSet.mem_members ..).mpr ⟨score, holds⟩
    · have same : (state.place id).promoted name limit = state.place id := by
        cases spotted : state.place id with
        | absent => rfl
        | present queue spot =>
            cases spot with
            | waiting => rfl
            | held processId => rfl
            | delayed other score =>
                rw [JobPlace.promoted, if_neg]
                rintro ⟨rfl, isDue⟩
                rw [spotted] at before
                exact inside ((due id).mpr ⟨score, before.2, isDue⟩)
      dsimp only
      rw [same]
      exact (undisturbed_promote storage name ids store inside).keeps before
  dead := by
    have buried : (runAlone (storage.claimAndEnqueueScheduledJobIds name ids) store).2.dead =
        store.dead := by
      refine runAlone_dead (Program.sends_mono ?_
        (storage.claimAndEnqueueScheduledJobIds_sends name ids)) _
      intro command sent
      cases command <;> first | exact sent.elim | trivial
    rw [buried]
    exact lives.dead

theorem Lives.wipeQueue (lives : Lives storage.given store state)
    (placement : Placement storage.keys known store [])
    (plain : ∀ identity, known identity → Plain storage.given identity.queue)
    (own : Plain storage.given queue) :
    Lives storage.given (runAlone (storage.wipeQueue queue) store).2
      { state with place := fun id => (state.place id).wiped queue } := by
  have ended : (runAlone (storage.wipeQueue queue) store).2 =
      Program.served serve store
        [.hdel (store.lists.get (storage.namespaceQueue queue)),
          .del (storage.namespaceQueue queue)] := by
    unfold StorageInternal.wipeQueue
    rw [runAlone_bind, runAlone_ask]
    simp only [Program.resume_ok, serve]
    split
    · rename_i none
      rw [none]
      rfl
    · rfl
  rw [ended]
  refine ⟨?_, lives.dead⟩
  intro id
  have before := lives.placed id
  dsimp only
  by_cases member : id ∈ store.lists.get (storage.namespaceQueue queue)
  · have wiped : (state.place id).wiped queue = .absent := by
      rcases placement.queued _ id member with ⟨processId, held⟩ | ⟨stored, found, key⟩
      · exact absurd held
          (StorageKeys.namespaceQueue_ne_processingQueue storage.given own processId)
      · have recognised := (placement.known_of_stored found).2
        have same := StorageKeys.namespaceQueue_injective _ own (plain _ recognised) key
        have waiting : state.place id = .present queue .waiting :=
          lives.place_eq placement plain ⟨⟨stored, found, same.symm⟩, member⟩
        rw [waiting, JobPlace.wiped, if_pos rfl]
    rw [wiped]
    exact (removeFields_get ..).trans (if_pos member)
  · have kept : (state.place id).wiped queue = state.place id := by
      cases spotted : state.place id with
      | absent => rfl
      | present own spot =>
          cases spot with
          | delayed name due => rfl
          | held processId => rfl
          | waiting =>
              rw [JobPlace.wiped, if_neg]
              rintro rfl
              rw [spotted] at before
              exact member before.2
    rw [kept]
    have first : Undisturbed id store
        (serve (.hdel (store.lists.get (storage.namespaceQueue queue))) store).2 :=
      Undisturbed.serve _ member
    have second := first.trans (Undisturbed.serve (.del (storage.namespaceQueue queue)) member)
    exact second.keeps before

/-! Resurrection. -/

structure DealtWith (given : String) (ids : List JobId) (before after : Store) : Prop where
  others : ∀ id, id ∉ ids → Undisturbed id before after
  handled : ∀ id ∈ ids, ∀ envelope, before.jobs.get id = some (.json envelope) →
    JobPlace.absent.In (StorageKeys.new given) after id ∨
      (JobPlace.present envelope.queue .waiting).In (StorageKeys.new given) after id

theorem Placement.resurrectJob_dealtWith {hand : List JobId}
    (placement : Placement storage.keys known store (id :: hand)) :
    DealtWith storage.given [id] store (runAlone (storage.resurrectJob id) store).2 := by
  obtain ⟨stored, found, same, _⟩ := placement.stored_of_occurs id (by simp)
  unfold StorageInternal.resurrectJob
  rw [runAlone_bind, StorageInternal.runAlone_getJob, lookup_of_json found]
  simp only [Program.resume_ok]
  rw [same]
  split
  · refine ⟨fun other _ => Undisturbed.serve (.lpush _ _) trivial, ?_⟩
    intro other inside envelope text
    rw [List.mem_singleton.mp inside] at text ⊢
    rw [found] at text
    cases text
    refine Or.inr ⟨⟨stored, found, rfl⟩, ?_⟩
    have listed : (serve (.lpush (storage.namespaceQueue stored.queue) [id]) store).2.lists.get
        (storage.namespaceQueue stored.queue) =
          [id] ++ store.lists.get (storage.namespaceQueue stored.queue) :=
      SparseMap.get_set_self _ _ _
    have member : id ∈ [id] ++ store.lists.get (storage.namespaceQueue stored.queue) :=
      List.mem_append_left _ (List.mem_singleton_self id)
    rw [← listed] at member
    exact member
  · refine ⟨fun other outside => Undisturbed.serve (.hdel _) outside, ?_⟩
    intro other inside envelope text
    exact Or.inl ((removeFields_get ..).trans (if_pos inside))

theorem Placement.resurrectJobs_dealtWith {hand : List JobId}
    (placement : Placement storage.keys known store (ids ++ hand)) :
    DealtWith storage.given ids store (runAlone (storage.resurrectJobs ids) store).2 := by
  induction ids generalizing store with
  | nil => exact ⟨fun id _ => Undisturbed.refl id store, fun id member => nomatch member⟩
  | cons first rest ih =>
      have apart : first ∉ rest := by
        have once := (placement.absent_of_hand (List.mem_append_left _ List.mem_cons_self)).2
        rw [List.cons_append, List.count_cons_self, List.count_append] at once
        exact List.count_eq_zero.mp (by omega)
      obtain ⟨finished, after⟩ := placement.resurrectJob
      have dealt := placement.resurrectJob_dealtWith
      unfold StorageInternal.resurrectJobs
      rw [runAlone_bind]
      generalize runAlone (storage.resurrectJob first) store = ended at finished after dealt
      obtain ⟨result, middle⟩ := ended
      simp only at finished after dealt
      subst finished
      have later := ih after
      rw [Program.resume_ok]
      refine ⟨?_, ?_⟩
      · intro id outside
        rw [List.mem_cons, not_or] at outside
        exact (dealt.others id fun same => outside.1 (List.mem_singleton.mp same)).trans
          (later.others id outside.2)
      · intro id inside envelope text
        by_cases same : id = first
        · subst same
          have kept := later.others id apart
          have handled := dealt.handled id (List.mem_singleton_self _) envelope text
          exact handled.imp kept.keeps kept.keeps
        · have stays := dealt.others id fun inside => same (List.mem_singleton.mp inside)
          exact later.handled id ((List.mem_cons.mp inside).resolve_left same) envelope
            (stays.stored.trans text)

theorem Rescued.trans {processes : List String} {first second third : JobPlace}
    (one : Rescued processes first second) (two : Rescued processes second third) :
    Rescued processes first third := by
  cases one with
  | kept => exact two
  | returned member =>
      cases two with
      | kept => exact .returned member
  | dropped member =>
      cases two with
      | kept => exact .dropped member

/-- Every job is where it was, or rescued from one of the processes. -/
def RescuedBy (given : String) (processes : List String) (before after : Store) : Prop :=
  ∀ id place, JobPlace.In (StorageKeys.new given) before id place →
    ∃ next, Rescued processes place next ∧ JobPlace.In (StorageKeys.new given) after id next

namespace RescuedBy

variable {processes : List String} {before middle : Store}

theorem of_undisturbed (same : ∀ id, Undisturbed id before after) :
    RescuedBy given processes before after :=
  fun id place inside => ⟨place, .kept place, (same id).keeps inside⟩

theorem trans (first : RescuedBy given processes before middle)
    (second : RescuedBy given processes middle after) :
    RescuedBy given processes before after := by
  intro id place inside
  obtain ⟨next, rescued, moved⟩ := first id place inside
  obtain ⟨last, again, arrived⟩ := second id next moved
  exact ⟨last, rescued.trans again, arrived⟩

theorem round (placement : Placement storage.keys known store [])
    (plain : ∀ identity, known identity → Plain storage.given identity.queue)
    (member : processId ∈ processes) (count : Nat) :
    RescuedBy storage.given processes store
      (runAlone (storage.resurrectJobs
          ((store.lists.get (storage.processingQueue processId)).take count))
        (serve (.lpop (storage.processingQueue processId) count) store).2).2 := by
  have popped := placement.pop (storage.processingQueue processId) count
  have dealt := popped.resurrectJobs_dealtWith
  intro id place inside
  by_cases taken : id ∈ (store.lists.get (storage.processingQueue processId)).take count
  · have listed := List.mem_of_mem_take taken
    obtain ⟨stored, found, _⟩ := placement.stored_of_mem listed
    have held : place = .present stored.queue (.held processId) :=
      JobPlace.In.unique placement plain inside ⟨⟨stored, found, rfl⟩, listed⟩
    subst held
    rcases dealt.handled id taken stored found with dropped | returned
    · exact ⟨.absent, .dropped member, dropped⟩
    · exact ⟨.present stored.queue .waiting, .returned member, returned⟩
  · have same : Undisturbed id store
        (serve (.lpop (storage.processingQueue processId) count) store).2 :=
      Undisturbed.serve _ taken
    exact ⟨place, .kept place, (same.trans (dealt.others id taken)).keeps inside⟩

theorem drainProcessing (placement : Placement storage.keys known store [])
    (plain : ∀ identity, known identity → Plain storage.given identity.queue)
    (member : processId ∈ processes) (bound : Nat) :
    RescuedBy storage.given processes store
      (runAlone (storage.drainProcessing (storage.processingQueue processId) bound) store).2 := by
  induction bound generalizing store with
  | zero => exact of_undisturbed fun id => Undisturbed.refl id store
  | succ bound ih =>
      have first := round placement plain member 10
      have popped := placement.pop (storage.processingQueue processId) 10
      obtain ⟨finished, placed⟩ := popped.resurrectJobs
      unfold StorageInternal.drainProcessing
      rw [runAlone_bind, runAlone_ask]
      simp only [Program.resume_ok]
      split
      · rename_i none
        rw [show (store.lists.get (storage.processingQueue processId)).take 10 = [] from none]
          at first
        exact first
      · rw [runAlone_bind]
        change RescuedBy _ _ _ (Program.resume (runAlone (storage.resurrectJobs
          ((store.lists.get (storage.processingQueue processId)).take 10))
            (serve (.lpop (storage.processingQueue processId) 10) store).2) _).2
        generalize runAlone (storage.resurrectJobs _)
          (serve (.lpop (storage.processingQueue processId) 10) store).2 = ended
            at first finished placed
        obtain ⟨result, middle⟩ := ended
        simp only at first finished placed
        subst finished
        exact first.trans (ih placed)

theorem resurrectProcesses (placement : Placement storage.keys known store [])
    (plain : ∀ identity, known identity → Plain storage.given identity.queue)
    {dead : List String} (members : ∀ processId ∈ dead, processId ∈ processes) (bound : Nat) :
    RescuedBy storage.given processes store
      (runAlone (storage.resurrectProcesses bound dead) store).2 := by
  induction dead generalizing store with
  | nil => exact of_undisturbed fun id => Undisturbed.refl id store
  | cons processId rest ih =>
      have first := drainProcessing placement plain (members processId List.mem_cons_self) bound
      have drained := placement.drainProcessing (storage.processingQueue processId) bound
      unfold StorageInternal.resurrectProcesses
      rw [runAlone_bind]
      generalize runAlone
        (storage.drainProcessing (storage.processingQueue processId) bound) store = ended
          at first drained
      obtain ⟨result, middle⟩ := ended
      cases result with
      | none => exact first
      | some outcome =>
          cases outcome with
          | error error => exact first
          | ok value =>
              simp only [Program.resume_ok]
              rw [runAlone_bind, runAlone_batch, Program.resume_ok]
              have forgotten : RescuedBy storage.given processes middle
                  (Program.served serve middle
                    [.zremProcess processId, .hdelProcess processId]) := by
                refine of_undisturbed fun id => Undisturbed.served ?_
                intro command member store
                simp only [List.mem_cons, List.not_mem_nil, or_false] at member
                rcases member with rfl | rfl <;> trivial
              have placed := drained.withProcesses (middle.processes.erase processId)
                (middle.processesData.set processId none)
              exact first.trans (forgotten.trans (ih placed fun other member =>
                members other (List.mem_cons_of_mem _ member)))

end RescuedBy

theorem Lives.resurrect (lives : Lives storage.given store state)
    (placement : Placement storage.keys known store [])
    (plain : ∀ identity, known identity → Plain storage.given identity.queue) (bound : Nat)
    (now : Int) (threshold : Nat) :
    ∃ after, LifeMove (.rescue (storage.deadIn now threshold store)) state after ∧
      Lives storage.given (runAlone (storage.resurrect bound now threshold) store).2 after := by
  have ended : runAlone (storage.resurrect bound now threshold) store =
      runAlone (storage.resurrectProcesses bound (storage.deadIn now threshold store)) store := by
    unfold StorageInternal.resurrect
    rw [runAlone_bind, storage.runAlone_deadProcessIds]
    rfl
  have buried : (runAlone (storage.resurrect bound now threshold) store).2.dead = store.dead := by
    refine runAlone_dead (Program.sends_mono ?_ (storage.resurrect_sends bound now threshold)) _
    intro command sent
    cases command <;> first | exact sent.elim | trivial
  rw [ended] at buried ⊢
  have rescued := RescuedBy.resurrectProcesses placement plain
    (fun processId (member : processId ∈ storage.deadIn now threshold store) => member) bound
  choose place rescue inside using fun id => rescued id _ (lives.placed id)
  refine ⟨⟨place, state.dead⟩, .rescue rescue rfl, ⟨inside, ?_⟩⟩
  rw [buried]
  exact lives.dead

/-! Revival. -/

theorem Lives.reviveEntries {entries : List Payload} (claim : String) (revived : Nat)
    (reviving : Reviving storage.given issued store entries)
    (lives : Lives storage.given store state) :
    ∃ after, Revived (gravesOf entries) state after ∧ Lives storage.given
      (runAlone (storage.reviveEntries claim entries revived) store).2 after := by
  induction entries generalizing store state revived with
  | nil =>
      refine ⟨state, .nil, ?_⟩
      refine lives.of_undisturbed (fun id => ?_) rfl
      exact Undisturbed.serve (.delClaim claim) trivial
  | cons entry rest ih =>
      obtain ⟨envelope, rfl, _⟩ := reviving.buried.decodes entry List.mem_cons_self
      have finished : (runAlone (storage.enqueue envelope) store).1 = some (.ok envelope.id) :=
        reviving.placement.enqueue_result .queue
      have step : runAlone (storage.reviveEntries claim (.json envelope :: rest) revived) store =
          runAlone (storage.reviveEntries claim rest (revived + 1))
            (runAlone (storage.enqueue envelope) store).2 := by
        rw [StorageInternal.reviveEntries]
        simp only [fromText_json]
        rw [runAlone_bind, runAlone_attempt, finished]
        rfl
      have fewer : Placement storage.keys (Known issued rest) store [] :=
        reviving.placement.widen fun _ _ _ recognised =>
          ⟨recognised.1, fun single inside => recognised.2 single (List.mem_cons_of_mem _ inside)⟩
      obtain ⟨middle, entered, lived⟩ :=
        lives.enqueue fewer reviving.ledger.plain reviving.ready .queue
      obtain ⟨after, others, last⟩ := ih (revived + 1) reviving.enqueue lived
      rw [step]
      exact ⟨after, .cons entered others, last⟩

theorem Lives.reviveAllDead (sound : Sound storage.given world)
    (lives : Lives storage.given world.store state) (uuid : String)
    (idle : ∀ envelope, .json envelope ∈ world.store.dead →
      Unattended storage.given world.store envelope) :
    ∃ after, LifeMove .revive state after ∧
      Lives storage.given (runAlone (storage.reviveAllDead uuid) world.store).2 after := by
  by_cases none : world.store.dead = []
  · have ended : runAlone (storage.reviveAllDead uuid) world.store =
        (some (.ok 0), world.store) := by
      unfold StorageInternal.reviveAllDead
      rw [runAlone_bind, runAlone_ask]
      simp [serve, none]
    have noGraves : state.dead = [] := by
      rw [lives.dead, none]
      rfl
    rw [ended]
    refine ⟨{ state with dead := [] }, .revive ?_, lives.placed, ?_⟩
    · rw [noGraves]
      exact .nil
    · rw [none]
      rfl
  · let claim := storage.keys.dead ++ ":reviving:" ++ uuid
    let claimed : Store := { world.store with
      reviving := world.store.reviving.set claim world.store.dead, dead := [] }
    have ended : runAlone (storage.reviveAllDead uuid) world.store =
        runAlone (storage.reviveEntries claim world.store.dead 0) claimed := by
      unfold StorageInternal.reviveAllDead
      rw [runAlone_bind, runAlone_ask]
      simp only [serve, none, if_false, Program.resume_ok, Nat.one_ne_zero]
      rw [runAlone_bind, runAlone_ask]
      simp only [serve, Program.resume_ok, SparseMap.get_set_self]
      rfl
    have reviving : Reviving storage.given world.issued claimed world.store.dead :=
      ⟨sound.ledger,
        ⟨sound.placement.placed, sound.placement.stored, sound.placement.queued⟩,
        sound.buried, idle⟩
    have awake : Lives storage.given claimed { state with dead := [] } :=
      ⟨lives.placed, rfl⟩
    obtain ⟨after, revived, lived⟩ := Lives.reviveEntries claim 0 reviving awake
    rw [ended]
    rw [← lives.dead] at revived
    exact ⟨after, .revive revived, lived⟩

end Oxana
