import Oxana.LifeMoves

/-!
Each action of a cluster is one step in the life of its jobs, so that what holds of every life
holds of every run.
-/

namespace Oxana

variable {given : String} {storage : StorageInternal} {world : World} {store after : Store}
  {issued : List Identity} {dead : List Payload} {state : LifeState} {envelope : JobEnvelope}

/-! Runs. -/

def enterEvent (envelope : JobEnvelope) (destination : JobDestination) : LifeEvent :=
  .enter envelope.id envelope.queue (destinationSpot envelope destination)
    (decide envelope.replaces)

def enterAtEvent (now : Int) (envelope : JobEnvelope) : LifeEvent :=
  enterEvent envelope (if envelope.metadata.scheduledAt ≤ now then .queue else .schedule)

def lifeEvent (storage : StorageInternal) (world : World) : Action → LifeEvent
  | .start => .quiet
  | .stop => .quiet
  | .ping _ => .quiet
  | .enqueue envelope => enterEvent envelope .queue
  | .enqueueAt now envelope => enterAtEvent now envelope
  | .enqueueIn now stamped checked envelope delay =>
      if delay = 0 then enterEvent envelope .queue
      else
        match scheduleTime now delay with
        | none => .quiet
        | some time => enterAtEvent checked (envelope.withScheduledAt time stamped)
  | .dequeue queue => .take queue storage.processId
  | .load _ => .quiet
  | .setStartedAt _ _ _ => .quiet
  | .updateState _ _ => .quiet
  | .finishWithSuccess id =>
      match world.memory storage.processId id with
      | none => .quiet
      | some envelope => .finish envelope.id storage.processId
  | .handleErr id now _ delay maxRetries =>
      match world.memory storage.processId id with
      | none => .quiet
      | some envelope =>
          if envelope.metadata.retries < maxRetries then
            .retry envelope.id storage.processId (retryScore now delay)
          else .bury envelope.grave storage.processId
  | .enqueueScheduled now name => .promote name (some now)
  | .retryAllNow => .promote .retry none
  | .wipeQueue queue => .wipe queue
  | .reviveAllDead _ => .revive
  | .resurrect _ now threshold => .rescue (storage.deadIn now threshold world.store)

def lifeEvents (world : World) : List (StorageInternal × Action) → List LifeEvent
  | [] => []
  | (storage, action) :: rest =>
      lifeEvent storage world action :: lifeEvents (perform storage world action) rest

theorem Lives.quiet (lives : Lives given store state) (same : ∀ id, Undisturbed id store after)
    (dead : after.dead = store.dead) :
    ∃ next, LifeMove .quiet state next ∧ Lives given after next :=
  ⟨state, .quiet state, lives.of_undisturbed same dead⟩

theorem Lives.enqueueAt (lives : Lives storage.given store state)
    (placement : Placement storage.keys (Known issued dead) store [])
    (plain : ∀ identity ∈ issued, Plain storage.given identity.queue)
    (ready : Ready storage.given issued dead store envelope) (now : Int) :
    ∃ after, LifeMove (enterAtEvent now envelope) state after ∧
      Lives storage.given (runAlone (storage.enqueueAt now envelope) store).2 after := by
  unfold StorageInternal.enqueueAt enterAtEvent
  split
  · obtain ⟨after, entered, lived⟩ := lives.enqueue placement plain ready .queue
    exact ⟨after, .enter entered, lived⟩
  · obtain ⟨after, entered, lived⟩ := lives.enqueue placement plain ready .schedule
    exact ⟨after, .enter entered, lived⟩

theorem Lives.rewrite (lives : Lives given store state) (envelope : JobEnvelope)
    {old : JobEnvelope}
    (found : store.jobs.get envelope.id = some (.json old)) (own : envelope.queue = old.queue) :
    Lives given { store with jobs := store.jobs.set envelope.id (some (toText envelope)) }
      state := by
  refine ⟨fun id => ?_, lives.dead⟩
  have inside := lives.placed id
  by_cases same : id = envelope.id
  · subst same
    cases placed : state.place envelope.id with
    | absent =>
        rw [placed] at inside
        rw [show store.jobs.get envelope.id = none from inside] at found
        cases found
    | present queue spot =>
        rw [placed] at inside
        obtain ⟨⟨stored, again, rfl⟩, spotted⟩ := inside
        rw [found] at again
        cases again
        refine ⟨⟨normalized envelope, SparseMap.get_set_self _ _ _, own⟩, ?_⟩
        cases spot with
        | waiting => exact spotted
        | delayed name due => cases name <;> exact spotted
        | held processId => exact spotted
  · have stays : Undisturbed id store (serve (.hset envelope.id (toText envelope)) store).2 :=
      Undisturbed.serve _ (Ne.symm same)
    exact stays.keeps inside

def StepsLife (storage : StorageInternal) (world : World) (state : LifeState) (action : Action) :
    Prop :=
  ∃ after, LifeMove (lifeEvent storage world action) state after ∧
    Lives storage.given (perform storage world action).store after

section Actions

variable {id : JobId} (sound : Sound storage.given world)
  (lives : Lives storage.given world.store state)

include sound lives

theorem stepsLife_enqueueIn {now stamped checked : Int} {delay : Nat}
    (permitted : Offered storage.given world envelope ∧ unattended storage.given world envelope) :
    StepsLife storage world state (.enqueueIn now stamped checked envelope delay) := by
  obtain ⟨issued, ready⟩ := sound.enqueueWith permitted
  change ∃ after, LifeMove (if delay = 0 then _ else _) state after ∧
    Lives storage.given (runAlone (if delay = 0 then _ else _) world.store).2 after
  split
  · obtain ⟨after, entered, lived⟩ :=
      lives.enqueue issued.placement issued.ledger.plain ready .queue
    exact ⟨after, .enter entered, lived⟩
  · cases scheduleTime now delay with
    | none => exact ⟨state, .quiet state, lives⟩
    | some time =>
        have later : Ready storage.given (world.issue envelope).issued
            (world.issue envelope).store.dead (world.issue envelope).store
            (envelope.withScheduledAt time stamped) :=
          ⟨ready.issued, ready.single, ready.idle⟩
        exact lives.enqueueAt issued.placement issued.ledger.plain later checked

theorem stepsLife_load (member : id ∈ world.store.lists.get storage.currentProcessingQueue) :
    StepsLife storage world state (.load id) := by
  obtain ⟨stored, found, _⟩ := sound.placement.stored_of_mem member
  have ended : runAlone (storage.loadPendingJob id) world.store =
      (some (.ok (some stored)), world.store) := by
    unfold StorageInternal.loadPendingJob
    rw [runAlone_bind, runAlone_attempt, StorageInternal.runAlone_getJob, lookup_of_json found]
    rfl
  refine ⟨state, .quiet state, ?_⟩
  simp only [perform, World.apply, ended]
  exact lives

theorem stepsLife_setStartedAt (shouldResume : Bool) (now : Int)
    (loaded : (world.memory storage.processId id).isSome = true) :
    StepsLife storage world state (.setStartedAt id shouldResume now) := by
  obtain ⟨envelope, found, held⟩ := sound.memory_held loaded
  obtain ⟨stored, text, own⟩ := held.holding.stored
  refine ⟨state, .quiet state, ?_⟩
  simp only [perform, found]
  have prepare : (prepared shouldResume envelope).id = envelope.id ∧
      (prepared shouldResume envelope).queue = envelope.queue := by
    unfold prepared
    split <;> exact ⟨rfl, rfl⟩
  rw [← held.own, ← prepare.1] at text
  exact lives.rewrite ((prepared shouldResume envelope).withStartedAt now) text
    (prepare.2.trans own.symm)

theorem stepsLife_updateState (newState : Json)
    (loaded : (world.memory storage.processId id).isSome = true) :
    StepsLife storage world state (.updateState id newState) := by
  obtain ⟨envelope, _, held⟩ := sound.memory_held loaded
  obtain ⟨stored, text, _⟩ := held.holding.stored
  have own := sound.placement.known_of_stored text
  refine ⟨state, .quiet state, ?_⟩
  simp only [perform, World.apply]
  rw [StorageInternal.runAlone_updateState text]
  rw [← own.1] at text
  exact lives.rewrite (stored.withState (some newState)) text rfl

theorem stepsLife_finishWithSuccess
    (loaded : (world.memory storage.processId id).isSome = true) :
    StepsLife storage world state (.finishWithSuccess id) := by
  obtain ⟨envelope, found, held⟩ := sound.memory_held loaded
  unfold StepsLife
  simp only [perform, found, lifeEvent]
  have place := held.place_eq sound lives
  rw [← held.own] at place
  exact ⟨_, .finish place, lives.finishWithSuccess envelope⟩

theorem stepsLife_handleErr {now : Int} {message : String} {delay maxRetries : Nat}
    (loaded : (world.memory storage.processId id).isSome = true) :
    StepsLife storage world state (.handleErr id now message delay maxRetries) := by
  obtain ⟨envelope, found, held⟩ := sound.memory_held loaded
  unfold StepsLife
  simp only [perform, found, lifeEvent]
  have place := held.place_eq sound lives
  rw [← held.own] at place
  by_cases retriesLeft : envelope.metadata.retries < maxRetries
  · obtain ⟨stored, text, own⟩ := held.holding.stored
    have sameId := (sound.placement.known_of_stored text).1
    rw [if_pos retriesLeft]
    rw [← held.own] at text sameId
    rw [← own] at place
    exact ⟨_, .retry place, lives.retry text sameId now message delay maxRetries retriesLeft⟩
  · rw [if_neg retriesLeft]
    refine ⟨_, @LifeMove.bury envelope.grave _ _ place, ?_⟩
    change Lives _ (runAlone _ world.store).2 _
    rw [storage.runAlone_handleErr_kill now message envelope delay maxRetries world.store
      retriesLeft]
    exact lives.kill (fun text member => (sound.buried.decodes text member).imp
      fun _ both => both.1) envelope message

end Actions

theorem perform_lives {action : Action} (sound : Sound storage.given world)
    (permitted : Permitted storage.given (unattended storage.given) (unattended storage.given)
      storage world action)
    (lives : Lives storage.given world.store state) :
    ∃ after, LifeMove (lifeEvent storage world action) state after ∧
      Lives storage.given (perform storage world action).store after := by
  have plain : ∀ identity, Known world.issued world.store.dead identity →
      Plain storage.given identity.queue := fun _ recognised =>
    sound.ledger.plain _ recognised.1
  cases action with
  | start => exact ⟨state, .quiet state, lives⟩
  | stop => exact ⟨state, .quiet state, lives⟩
  | ping now =>
      refine lives.quiet (fun id => Undisturbed.of_same rfl rfl fun name => ?_) rfl
      cases name <;> rfl
  | enqueue envelope =>
      obtain ⟨issued, ready⟩ := sound.enqueueWith permitted
      obtain ⟨after, entered, lived⟩ :=
        lives.enqueue issued.placement issued.ledger.plain ready .queue
      exact ⟨after, .enter entered, lived⟩
  | enqueueAt now envelope =>
      obtain ⟨issued, ready⟩ := sound.enqueueWith permitted
      exact lives.enqueueAt issued.placement issued.ledger.plain ready now
  | enqueueIn now stamped checked envelope delay =>
      exact stepsLife_enqueueIn sound lives permitted
  | dequeue queue => exact lives.dequeue sound.placement plain permitted.2
  | load id => exact stepsLife_load sound lives permitted.2
  | setStartedAt id shouldResume now =>
      exact stepsLife_setStartedAt sound lives shouldResume now permitted
  | updateState id newState => exact stepsLife_updateState sound lives newState permitted
  | finishWithSuccess id => exact stepsLife_finishWithSuccess sound lives permitted
  | handleErr id now message delay maxRetries => exact stepsLife_handleErr sound lives permitted
  | enqueueScheduled now name =>
      refine ⟨_, .promote state, ?_⟩
      refine lives.promote sound.placement plain (RankedSet.within_nodup _ 0 now) ?_
      intro id
      exact RankedSet.mem_within _ _ _ _
  | retryAllNow =>
      refine ⟨_, .promote state, ?_⟩
      refine lives.promote sound.placement plain (RankedSet.members_nodup _) ?_
      intro id
      refine (RankedSet.mem_members _ _).trans ?_
      exact exists_congr fun score => (and_iff_left trivial).symm
  | wipeQueue queue => exact ⟨_, .wipe state, lives.wipeQueue sound.placement plain permitted⟩
  | reviveAllDead uuid => exact lives.reviveAllDead sound uuid permitted
  | resurrect bound now threshold =>
      exact lives.resurrect sound.placement plain bound now threshold

theorem initial_lives (given : String) : Lives given World.initial.store .initial :=
  ⟨fun _ => rfl, rfl⟩

theorem runActions_lives {actions : List (StorageInternal × Action)} (sound : Sound given world)
    (permitted : PermittedRun given (unattended given) (unattended given) world actions)
    (lives : Lives given world.store state) :
    ∃ after, LifeRun state (lifeEvents world actions) after ∧
      Lives given (runActions world actions).store after := by
  induction actions generalizing world state with
  | nil => exact ⟨state, .nil state, lives⟩
  | cons entry rest ih =>
      obtain ⟨storage, action⟩ := entry
      obtain ⟨⟨rfl, allowed⟩, others⟩ := permitted
      obtain ⟨middle, step, lived⟩ := perform_lives sound allowed lives
      obtain ⟨after, run, last⟩ := ih (perform_sound sound allowed) others lived
      exact ⟨after, .cons step run, last⟩

/-- In every run of any number of clients and processes each job lives the life of `LifeMove`:
it comes into its queue or into the schedule, waits, is held by the process that took it, is
finished, retried or buried by that process, returns when it is due, and is wiped or rescued; and
nothing else ever moves it. -/
theorem cluster_refines_life {given : String} {actions : List (StorageInternal × Action)}
    (permitted : PermittedRun given (unattended given) (unattended given) World.initial actions) :
    ∃ state, LifeRun .initial (lifeEvents World.initial actions) state ∧
      Lives given (runActions World.initial actions).store state :=
  runActions_lives (initial_sound given) permitted (initial_lives given)

theorem PermittedRun.mono {strict loose narrow wide : World → JobEnvelope → Prop}
    {actions : List (StorageInternal × Action)}
    (weaker : ∀ world envelope, strict world envelope → loose world envelope)
    (wider : ∀ world envelope, narrow world envelope → wide world envelope)
    (permitted : PermittedRun given strict narrow world actions) :
    PermittedRun given loose wide world actions := by
  induction actions generalizing world with
  | nil => trivial
  | cons entry rest ih =>
      refine ⟨⟨permitted.1.1, permitted.1.2.mono (weaker world) ?_⟩, ih permitted.2⟩
      exact fun envelope _ => wider world envelope

def finishedActions : List (StorageInternal × Action) :=
  [(workerNode 1, .start), (workerNode 2, .enqueue (report .null .skip)),
    (workerNode 1, .dequeue "low"), (workerNode 1, .load "report/7"),
    (workerNode 1, .finishWithSuccess "report/7"), (workerNode 2, .enqueue (report .null .skip))]

theorem finishedActions_permitted :
    PermittedRun "" (unattended "") (unattended "") World.initial finishedActions := by
  refine PermittedRun.mono (unattended_of_neverReplacing "") (unattended_of_neverReplacing "") ?_
  simp only [PermittedRun, Permitted, finishedActions, neverReplacing]
  decide

theorem cluster_refines_life_again :
    ∃ state, LifeRun .initial (lifeEvents World.initial finishedActions) state ∧
      Lives "" (runActions World.initial finishedActions).store state :=
  cluster_refines_life finishedActions_permitted

/-! How often a job is finished. -/

namespace Action

def enqueues (id : JobId) : Action → Bool
  | .enqueue envelope => envelope.id == id
  | .enqueueAt _ envelope => envelope.id == id
  | .enqueueIn _ _ _ envelope _ => envelope.id == id
  | _ => false

def finishes (id : JobId) : Action → Bool
  | .finishWithSuccess other => other == id
  | _ => false

end Action

theorem entries_enterAtEvent (now : Int) (envelope : JobEnvelope) (id : JobId) :
    (enterAtEvent now envelope).entries id = if envelope.id = id then 1 else 0 := rfl

theorem entries_lifeEvent (storage : StorageInternal) (world : World) (action : Action)
    (id : JobId) :
    (lifeEvent storage world action).entries id ≤ if action.enqueues id then 1 else 0 := by
  cases action with
  | enqueue envelope => simp [lifeEvent, enterEvent, LifeEvent.entries, Action.enqueues]
  | enqueueAt now envelope => simp [lifeEvent, entries_enterAtEvent, Action.enqueues]
  | enqueueIn now stamped checked envelope delay =>
      simp only [lifeEvent]
      split
      · simp [enterEvent, LifeEvent.entries, Action.enqueues]
      · split
        · exact Nat.zero_le _
        · rw [entries_enterAtEvent]
          by_cases same : envelope.id = id <;>
            simp [Action.enqueues, JobEnvelope.withScheduledAt, same]
  | finishWithSuccess other =>
      simp only [lifeEvent]
      split <;> exact Nat.zero_le _
  | handleErr other now message delay maxRetries =>
      simp only [lifeEvent]
      split
      · exact Nat.zero_le _
      · split <;> exact Nat.zero_le _
  | _ => exact Nat.zero_le _

theorem completions_lifeEvent {action : Action} (sound : Sound storage.given world)
    (permitted : Permitted storage.given (unattended storage.given) (unattended storage.given)
      storage world action)
    (id : JobId) :
    (if action.finishes id then 1 else 0) ≤ (lifeEvent storage world action).completions id := by
  cases action with
  | finishWithSuccess other =>
      obtain ⟨envelope, found, held⟩ := sound.memory_held permitted
      simp [lifeEvent, found, Action.finishes, LifeEvent.completions, held.own]
  | _ => exact Nat.zero_le _

theorem countP_lifeEvents {actions : List (StorageInternal × Action)} (sound : Sound given world)
    (permitted : PermittedRun given (unattended given) (unattended given) world actions)
    (id : JobId) :
    actions.countP (fun entry => entry.2.finishes id) ≤
        ((lifeEvents world actions).map (LifeEvent.completions id)).sum ∧
      ((lifeEvents world actions).map (LifeEvent.entries id)).sum ≤
        actions.countP fun entry => entry.2.enqueues id := by
  induction actions generalizing world with
  | nil => exact ⟨Nat.le_refl 0, Nat.le_refl 0⟩
  | cons entry rest ih =>
      obtain ⟨storage, action⟩ := entry
      obtain ⟨⟨rfl, allowed⟩, others⟩ := permitted
      obtain ⟨finished, entered⟩ := ih (perform_sound sound allowed) others
      have done := completions_lifeEvent sound allowed id
      have came := entries_lifeEvent storage world action id
      rw [List.countP_cons, List.countP_cons]
      simp only [lifeEvents, List.map_cons, List.sum_cons]
      omega

theorem Lives.alive_eq (lives : Lives given store state) (id : JobId) :
    state.alive id = storedCount store id := by
  have inside := lives.placed id
  cases placed : state.place id with
  | absent =>
      rw [placed] at inside
      rw [LifeState.alive_absent placed, storedCount_of_none inside]
  | present queue spot =>
      rw [placed] at inside
      obtain ⟨⟨envelope, found, _⟩, _⟩ := inside
      rw [LifeState.alive_present placed, storedCount_of_some found]

theorem map_gravesOf (texts : List Payload) : (gravesOf texts).map Grave.id = deadIds texts := by
  unfold gravesOf deadIds
  rw [List.map_filterMap]
  congr 1
  funext text
  cases text <;> rfl

/-- Whatever clients and processes do, a job is finished, stored or dead at most as often, taken
together, as it was enqueued. -/
theorem finished_at_most_enqueued {given : String} {actions : List (StorageInternal × Action)}
    (permitted : PermittedRun given (unattended given) (unattended given) World.initial actions)
    (id : JobId) :
    actions.countP (fun entry => entry.2.finishes id) +
        storedCount (runActions World.initial actions).store id +
        (deadIds (runActions World.initial actions).store.dead).count id ≤
      actions.countP fun entry => entry.2.enqueues id := by
  obtain ⟨state, run, lives⟩ :=
    runActions_lives (initial_sound given) permitted (initial_lives given)
  obtain ⟨finished, entered⟩ := countP_lifeEvents (initial_sound given) permitted id
  have accounts := run.accounts id
  have graves : state.graves id =
      (deadIds (runActions World.initial actions).store.dead).count id := by
    unfold LifeState.graves
    rw [lives.dead, map_gravesOf]
  have none : LifeState.initial.alive id + LifeState.initial.graves id = 0 := rfl
  rw [lives.alive_eq, graves] at accounts
  omega

theorem finished_at_most_enqueued_again :
    finishedActions.countP (fun entry => entry.2.finishes "report/7") +
        storedCount (runActions World.initial finishedActions).store "report/7" +
        (deadIds (runActions World.initial finishedActions).store.dead).count "report/7" ≤
      finishedActions.countP fun entry => entry.2.enqueues "report/7" :=
  finished_at_most_enqueued finishedActions_permitted "report/7"

end Oxana
