import Oxana.LifeRefinement

/-!
Nothing that is due is out of reach: from every state a cluster reaches, one running process
that promotes, dequeues and finishes can work off all of it.
-/

namespace Oxana

/-! What waits and what is due. -/

namespace JobPlace

def isWaiting : JobPlace → Bool
  | .present _ .waiting => true
  | _ => false

def isDue (now : Int) : JobPlace → Bool
  | .present _ .waiting => true
  | .present _ (.delayed _ due) => decide (IsDue (some now) due)
  | _ => false

def cleared (place : JobPlace) : JobPlace :=
  if place.isWaiting then .absent else place

def workedOff (now : Int) (place : JobPlace) : JobPlace :=
  if place.isDue now then .absent else place

def promotedAll (now : Int) (place : JobPlace) : JobPlace :=
  (place.promoted .retry (some now)).promoted .schedule (some now)

theorem isWaiting_iff {place : JobPlace} :
    place.isWaiting = true ↔ ∃ queue, place = .present queue .waiting := by
  constructor
  · intro waiting
    cases place with
    | absent => cases waiting
    | present queue spot =>
        cases spot with
        | waiting => exact ⟨queue, rfl⟩
        | delayed name due => cases waiting
        | held processId => cases waiting
  · rintro ⟨queue, rfl⟩
    rfl

theorem isWaiting_promotedAll (now : Int) (place : JobPlace) :
    (place.promotedAll now).isWaiting = place.isDue now := by
  cases place with
  | absent => rfl
  | present queue spot =>
      cases spot with
      | waiting => rfl
      | held processId => rfl
      | delayed name due =>
          by_cases isDue : IsDue (some now) due
          · cases name <;> simp [promotedAll, promoted, isWaiting, JobPlace.isDue, isDue]
          · cases name <;> simp [promotedAll, promoted, isWaiting, JobPlace.isDue, isDue]

theorem cleared_promotedAll (now : Int) (place : JobPlace) :
    (place.promotedAll now).cleared = place.workedOff now := by
  unfold cleared workedOff
  rw [isWaiting_promotedAll]
  split
  · rfl
  · rename_i early
    cases place with
    | absent => rfl
    | present queue spot =>
        cases spot with
        | waiting => rfl
        | held processId => rfl
        | delayed name due =>
            have later : ¬IsDue (some now) due := fun isDue => early (decide_eq_true isDue)
            cases name <;> simp [promotedAll, promoted, later]

end JobPlace

namespace LifeState

def mapPlaces (state : LifeState) (change : JobPlace → JobPlace) : LifeState :=
  { state with place := fun id => change (state.place id) }

def waiting (state : LifeState) : Set JobId :=
  { id | (state.place id).isWaiting = true }

theorem cleared_of_none {state : LifeState} (none : state.waiting = ∅) :
    state.mapPlaces JobPlace.cleared = state := by
  have same : (fun id => (state.place id).cleared) = state.place := by
    funext id
    have idle : id ∉ state.waiting := none ▸ Set.notMem_empty id
    exact if_neg idle
  unfold mapPlaces
  rw [same]

theorem cleared_put {state : LifeState} {id : JobId} (waits : id ∈ state.waiting) :
    (state.put id .absent).mapPlaces JobPlace.cleared = state.mapPlaces JobPlace.cleared := by
  have same : (fun other => ((state.put id .absent).place other).cleared) =
      fun other => (state.place other).cleared := by
    funext other
    by_cases own : other = id
    · subst own
      rw [put_place_self]
      exact (if_pos waits).symm
    · rw [put_place_of_ne _ _ own]
  unfold mapPlaces
  rw [same]
  rfl

theorem waiting_put {state : LifeState} (id : JobId) :
    (state.put id .absent).waiting = state.waiting \ {id} := by
  ext other
  by_cases own : other = id
  · subst own
    simp [waiting, JobPlace.isWaiting]
  · simp [waiting, put_place_of_ne _ _ own, own]

end LifeState

theorem put_put (state : LifeState) (id : JobId) (first second : JobPlace) :
    (state.put id first).put id second = state.put id second := by
  unfold LifeState.put
  rw [Function.update_idem]

/-! Which steps a life can take. -/

namespace LifeMove

variable {before after : LifeState} {queue processId : String} {id : JobId}

theorem quiet_eq (step : LifeMove .quiet before after) : after = before := by
  cases step
  rfl

theorem take_cases (step : LifeMove (.take queue processId) before after) :
    (∃ id, before.place id = .present queue .waiting ∧
      after = before.put id (.present queue (.held processId))) ∨
      (∀ id, before.place id ≠ .present queue .waiting) ∧ after = before := by
  cases step with
  | found waiting => exact Or.inl ⟨_, waiting, rfl⟩
  | empty none => exact Or.inr ⟨none, rfl⟩

theorem finish_eq (step : LifeMove (.finish id processId) before after) :
    after = before.put id .absent := by
  cases step
  rfl

theorem promote_eq {name : DelayedSet} {limit : Option Int}
    (step : LifeMove (.promote name limit) before after) :
    after = before.mapPlaces (JobPlace.promoted name limit) := by
  cases step
  rfl

end LifeMove

/-! One job worked off. -/

def Action.works : Action → Bool
  | .enqueueScheduled _ _ => true
  | .dequeue _ => true
  | .load _ => true
  | .finishWithSuccess _ => true
  | _ => false

def byProcess (storage : StorageInternal) (actions : List Action) :
    List (StorageInternal × Action) :=
  actions.map fun action => (storage, action)

section Working

variable {storage : StorageInternal} {world : World} {state : LifeState}

/-- What a process can do that has the given effect on the life of the jobs. -/
structure Works (storage : StorageInternal) (world : World) (actions : List Action)
    (after : LifeState) : Prop where
  works : ∀ action ∈ actions, action.works = true
  permitted : PermittedRun storage.given (unattended storage.given) (unattended storage.given) world
    (byProcess storage actions)
  sound : Sound storage.given (runActions world (byProcess storage actions))
  lives : Lives storage.given (runActions world (byProcess storage actions)).store after
  running : (runActions world (byProcess storage actions)).running storage.processId = true

theorem Works.done (sound : Sound storage.given world)
    (lives : Lives storage.given world.store state)
    (running : world.running storage.processId = true) : Works storage world [] state where
  works := by
    intro action member
    cases member
  permitted := trivial
  sound := sound
  lives := lives
  running := running

theorem Works.cons {action : Action} {rest : List Action} {after : LifeState}
    (works : action.works = true)
    (allowed : Permitted storage.given (unattended storage.given) (unattended storage.given)
      storage world action)
    (others : Works storage (perform storage world action) rest after) :
    Works storage world (action :: rest) after where
  works := List.forall_mem_cons.mpr ⟨works, others.works⟩
  permitted := ⟨⟨rfl, allowed⟩, others.permitted⟩
  sound := others.sound
  lives := others.lives
  running := others.running

theorem running_perform (world : World) (storage : StorageInternal) {action : Action}
    (works : action.works = true) : (perform storage world action).running = world.running := by
  cases action with
  | enqueueScheduled now name => rfl
  | dequeue queue => rfl
  | load id =>
      unfold perform
      dsimp only
      split
      · rfl
      · rfl
  | finishWithSuccess id =>
      unfold perform
      dsimp only
      split
      · rfl
      · rfl
  | _ => cases works

theorem loads (sound : Sound storage.given world) {id : JobId}
    (member : id ∈ world.store.lists.get storage.currentProcessingQueue) :
    ((perform storage world (.load id)).memory storage.processId id).isSome = true := by
  obtain ⟨stored, found, _⟩ := sound.placement.stored_of_mem member
  have ended : runAlone (storage.loadPendingJob id) world.store =
      (some (.ok (some stored)), world.store) := by
    unfold StorageInternal.loadPendingJob
    rw [runAlone_bind, runAlone_attempt, StorageInternal.runAlone_getJob, lookup_of_json found]
    rfl
  simp [perform, ended, World.remember]

theorem runActions_append (world : World) (first second : List (StorageInternal × Action)) :
    runActions world (first ++ second) = runActions (runActions world first) second :=
  List.foldl_append

theorem PermittedRun.append {given : String} {allowed revivable : World → JobEnvelope → Prop}
    {first second : List (StorageInternal × Action)}
    (one : PermittedRun given allowed revivable world first)
    (two : PermittedRun given allowed revivable (runActions world first) second) :
    PermittedRun given allowed revivable world (first ++ second) := by
  induction first generalizing world with
  | nil => exact two
  | cons entry rest ih => exact ⟨one.1, ih one.2 two⟩

theorem Works.append {first second : List Action} {middle after : LifeState}
    (one : Works storage world first middle)
    (two : Works storage (runActions world (byProcess storage first)) second after) :
    Works storage world (first ++ second) after := by
  have joined : byProcess storage (first ++ second) =
      byProcess storage first ++ byProcess storage second := List.map_append
  refine ⟨List.forall_mem_append.mpr ⟨one.works, two.works⟩, ?_, ?_, ?_, ?_⟩
  · rw [joined]
    exact one.permitted.append two.permitted
  · rw [joined, runActions_append]
    exact two.sound
  · rw [joined, runActions_append]
    exact two.lives
  · rw [joined, runActions_append]
    exact two.running

theorem finishes_one (sound : Sound storage.given world)
    (lives : Lives storage.given world.store state)
    (running : world.running storage.processId = true) {waits : JobId}
    (here : waits ∈ state.waiting) :
    ∃ queue id, id ∈ state.waiting ∧
      Works storage world [.dequeue queue, .load id, .finishWithSuccess id]
        (state.put id .absent) := by
  obtain ⟨queue, place⟩ := JobPlace.isWaiting_iff.mp here
  have stored := lives.placed waits
  rw [place] at stored
  obtain ⟨⟨envelope, found, rfl⟩, _⟩ := stored
  have plain : Plain storage.given envelope.queue :=
    sound.ledger.plain _ (sound.placement.known_of_stored found).2.1
  have takes : Permitted storage.given (unattended storage.given) (unattended storage.given)
        storage world
      (.dequeue envelope.queue) := ⟨running, plain⟩
  obtain ⟨middle, step, taken⟩ := perform_lives sound takes lives
  rcases step.take_cases with ⟨id, waiting, rfl⟩ | ⟨none, _⟩
  · have first := perform_sound sound takes
    have listed := taken.placed id
    rw [LifeState.put_place_self] at listed
    have member := listed.2
    have loading : Permitted storage.given (unattended storage.given) (unattended storage.given)
        storage
        (perform storage world (.dequeue envelope.queue)) (.load id) := ⟨running, member⟩
    obtain ⟨same, quiet, loaded⟩ := perform_lives first loading taken
    cases quiet.quiet_eq
    have second := perform_sound first loading
    have finishing : Permitted storage.given (unattended storage.given) (unattended storage.given)
        storage
        (perform storage (perform storage world (.dequeue envelope.queue)) (.load id))
        (.finishWithSuccess id) := loads first member
    obtain ⟨after, ends, ended⟩ := perform_lives second finishing loaded
    obtain ⟨copy, remembered, held⟩ := second.memory_held finishing
    simp only [lifeEvent, remembered, held.own] at ends
    have gone := ends.finish_eq
    rw [put_put] at gone
    subst gone
    refine ⟨envelope.queue, id, JobPlace.isWaiting_iff.mpr ⟨_, waiting⟩, ?_⟩
    refine Works.cons rfl takes (Works.cons rfl loading (Works.cons rfl finishing ?_))
    refine Works.done (perform_sound second finishing) ended ?_
    rw [running_perform _ _ rfl, running_perform _ _ rfl, running_perform _ _ rfl]
    exact running
  · exact absurd place (none waits)

/-! All of them. -/

theorem Lives.waiting_finite {given : String} {store : Store} (lives : Lives given store state) :
    state.waiting.Finite := by
  refine Set.Finite.subset store.jobs.keys.finite_toSet ?_
  intro id waits
  obtain ⟨queue, place⟩ := JobPlace.isWaiting_iff.mp waits
  have stored := lives.placed id
  rw [place] at stored
  obtain ⟨⟨envelope, found, _⟩, _⟩ := stored
  refine (store.jobs.mem_keys id).mpr ?_
  rw [found]
  exact Option.some_ne_none _

def finishCount (actions : List Action) (id : JobId) : Nat :=
  actions.countP (Action.finishes id)

theorem works_off_waiting (sound : Sound storage.given world)
    (lives : Lives storage.given world.store state)
    (running : world.running storage.processId = true) :
    ∃ actions, Works storage world actions (state.mapPlaces JobPlace.cleared) ∧
      ∀ id, finishCount actions id = if (state.place id).isWaiting then 1 else 0 := by
  generalize counted : state.waiting.ncard = waiting
  induction waiting using Nat.strongRecOn generalizing world state with
  | ind waiting ih =>
      by_cases none : state.waiting = ∅
      · refine ⟨[], ?_, ?_⟩
        · rw [LifeState.cleared_of_none none]
          exact Works.done sound lives running
        · intro id
          have idle : id ∉ state.waiting := none ▸ Set.notMem_empty id
          exact (if_neg idle).symm
      · obtain ⟨waits, here⟩ := Set.nonempty_iff_ne_empty.mpr none
        obtain ⟨queue, id, own, first⟩ := finishes_one sound lives running here
        have fewer : (state.put id .absent).waiting.ncard < waiting := by
          rw [LifeState.waiting_put, ← counted]
          exact Set.ncard_sdiff_singleton_lt_of_mem own lives.waiting_finite
        obtain ⟨rest, second, each⟩ := ih _ fewer first.sound first.lives first.running rfl
        refine ⟨_, first.append (LifeState.cleared_put own ▸ second), ?_⟩
        intro other
        have others := each other
        unfold finishCount at others ⊢
        rw [List.countP_append, others]
        by_cases same : other = id
        · subst same
          have waited : (state.place other).isWaiting = true := own
          rw [LifeState.put_place_self, if_pos waited]
          simp [Action.finishes, JobPlace.isWaiting]
        · rw [LifeState.put_place_of_ne _ _ same]
          simp [Action.finishes, Ne.symm same]

theorem promotes_due (sound : Sound storage.given world)
    (lives : Lives storage.given world.store state)
    (running : world.running storage.processId = true) (now : Int) :
    Works storage world [.enqueueScheduled now .retry, .enqueueScheduled now .schedule]
      (state.mapPlaces (JobPlace.promotedAll now)) := by
  have retries : Permitted storage.given (unattended storage.given) (unattended storage.given)
        storage world
      (.enqueueScheduled now .retry) := trivial
  obtain ⟨middle, step, lived⟩ := perform_lives sound retries lives
  have first := perform_sound sound retries
  cases step.promote_eq
  have schedules : Permitted storage.given (unattended storage.given) (unattended storage.given)
        storage
      (perform storage world (.enqueueScheduled now .retry))
      (.enqueueScheduled now .schedule) := trivial
  obtain ⟨after, last, ended⟩ := perform_lives first schedules lived
  have second := perform_sound first schedules
  cases last.promote_eq
  exact Works.cons rfl retries (Works.cons rfl schedules (Works.done second ended running))

end Working

section Runs

variable {given : String} {actions : List (StorageInternal × Action)} {storage : StorageInternal}

/-- Whatever has happened, a running process can finish all jobs that wait or are due, each of
them once, and need not touch any other job. -/
theorem due_jobs_worked_off
    (permitted : PermittedRun given (unattended given) (unattended given) World.initial actions)
    (own : storage.given = given)
    (running : (runActions World.initial actions).running storage.processId = true) (now : Int) :
    ∃ state more,
      Lives given (runActions World.initial actions).store state ∧
      (∀ action ∈ more, action.works = true) ∧
      PermittedRun given (unattended given) (unattended given) World.initial
        (actions ++ byProcess storage more) ∧
      Lives given (runActions World.initial (actions ++ byProcess storage more)).store
        (state.mapPlaces (JobPlace.workedOff now)) ∧
      ∀ id, finishCount more id = if (state.place id).isDue now then 1 else 0 := by
  subst own
  obtain ⟨state, _, lives⟩ :=
    runActions_lives (initial_sound storage.given) permitted (initial_lives storage.given)
  have sound := reachable_sound (Reachable.runActions Relation.ReflTransGen.refl permitted)
  have first := promotes_due sound lives running now
  obtain ⟨rest, second, each⟩ := works_off_waiting first.sound first.lives first.running
  have all := first.append second
  refine ⟨state, _, lives, all.works, permitted.append all.permitted, ?_, ?_⟩
  · rw [runActions_append]
    have cleared : (state.mapPlaces (JobPlace.promotedAll now)).mapPlaces JobPlace.cleared =
        state.mapPlaces (JobPlace.workedOff now) := by
      unfold LifeState.mapPlaces
      simp only [JobPlace.cleared_promotedAll]
    rw [← cleared]
    exact all.lives
  · intro id
    have finished := each id
    unfold finishCount at finished ⊢
    rw [List.countP_append, finished]
    simp only [LifeState.mapPlaces, JobPlace.isWaiting_promotedAll]
    simp [Action.finishes]

theorem due_jobs_worked_off_waiting :
    ∃ state more,
      Lives "" (runActions World.initial finishedActions).store state ∧
      (∀ action ∈ more, action.works = true) ∧
      PermittedRun "" (unattended "") (unattended "") World.initial
        (finishedActions ++ byProcess (workerNode 1) more) ∧
      Lives "" (runActions World.initial
        (finishedActions ++ byProcess (workerNode 1) more)).store
          (state.mapPlaces (JobPlace.workedOff 0)) ∧
      ∀ id, finishCount more id = if (state.place id).isDue 0 then 1 else 0 :=
  due_jobs_worked_off finishedActions_permitted rfl rfl 0

end Runs

end Oxana
