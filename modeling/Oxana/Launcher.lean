import Oxana.StorageRuns

/-!
`launcher::run`: the background tasks and the coordinators it spawns, the wait for the first
of them, the shutdown, and the removal of the process from the store.
-/

namespace Oxana

inductive BackgroundTask
  | ping
  | retry
  | schedule
  | resurrect
  | cron
  | cleanup
  deriving DecidableEq

def BackgroundTask.beats : BackgroundTask → Bool
  | ping => true
  | resurrect => true
  | _ => false

inductive TaskEnd
  | returned (result : Except OxanaError Unit)
  | panicked

inductive TaskState
  | running
  | ended (how : TaskEnd)
  | joined (result : Except OxanaError Unit)

namespace TaskState

def isJoined : TaskState → Bool
  | joined _ => true
  | _ => false

end TaskState

inductive LauncherStage
  | selecting
  | joiningCoordinators
  | joiningBackground
  | cleaning (commands : List Command)
  | unwrapping
  | returned (result : Except OxanaError Unit)
  | aborted
  | panicked

/-- `cronLoops` are the loops that `cron_loop` has spawned and whether each still runs;
`collectors` are result collectors of failed coordinators that are not yet dropped. -/
structure LauncherRun where
  store : Store
  cancelled : Bool
  pingCancelled : Bool
  background : BackgroundTask → TaskState
  cronLoops : List Bool
  coordinators : List TaskState
  collectors : Nat
  result : Except OxanaError Unit
  stage : LauncherStage

namespace LauncherRun

def start (store : Store) (schedules queues : Nat) : LauncherRun where
  store := store
  cancelled := false
  pingCancelled := false
  background := fun _ => .running
  cronLoops := List.replicate schedules true
  coordinators := List.replicate queues .running
  collectors := 0
  result := .ok ()
  stage := .selecting

def setTask (run : LauncherRun) (task : BackgroundTask) (state : TaskState) : LauncherRun :=
  { run with background := Function.update run.background task state }

def setCoordinator (run : LauncherRun) (index : Nat) (state : TaskState) : LauncherRun :=
  { run with coordinators := run.coordinators.set index state }

def keepFirst (result joined : Except OxanaError Unit) : Except OxanaError Unit :=
  match result with
  | .ok () => joined
  | .error error => .error error

def told (run : LauncherRun) : BackgroundTask → Bool
  | .ping => run.pingCancelled
  | _ => run.cancelled

end LauncherRun

/-- One step of a task, of `run` itself or of the surroundings.  Any task may panic, and any but
`cron_loop`, which drops the results of its loops, may return an error. -/
inductive LauncherStep (storage : StorageInternal) : LauncherRun → LauncherRun → Prop
  | beat {run : LauncherRun} {task : BackgroundTask} {command : Command} (now : Int)
      (running : run.background task = .running) (beats : task.beats = true)
      (sent : command ∈ [.zaddProcess storage.processId (heartbeatMillis now),
        .hsetProcess storage.processId (storage.currentProcess now)]) :
      LauncherStep storage run { run with store := (serve command run.store).2 }
  | fail {run : LauncherRun} (task : BackgroundTask) (error : OxanaError)
      (running : run.background task = .running) (loud : task ≠ .cron) :
      LauncherStep storage run (run.setTask task (.ended (.returned (.error error))))
  | panic {run : LauncherRun} (task : BackgroundTask) (running : run.background task = .running) :
      LauncherStep storage run (run.setTask task (.ended .panicked))
  | stop {run : LauncherRun} (task : BackgroundTask) (running : run.background task = .running)
      (looping : task ≠ .cron) (told : run.told task = true) :
      LauncherStep storage run (run.setTask task (.ended (.returned (.ok ()))))
  | cronLoopEnds {run : LauncherRun} (index : Nat) :
      LauncherStep storage run { run with cronLoops := run.cronLoops.set index false }
  | cronStops {run : LauncherRun} (running : run.background .cron = .running)
      (ended : if run.cronLoops = [] then run.cancelled = true else true ∉ run.cronLoops) :
      LauncherStep storage run (run.setTask .cron (.ended (.returned (.ok ()))))
  | coordinatorStops {run : LauncherRun} {index : Nat}
      (running : run.coordinators[index]? = some .running) (cancelled : run.cancelled = true) :
      LauncherStep storage run (run.setCoordinator index (.ended (.returned (.ok ()))))
  -- The tasks of a coordinator that fails are aborted, but not awaited.
  | coordinatorFails {run : LauncherRun} {index : Nat} (how : TaskEnd)
      (running : run.coordinators[index]? = some .running) (fails : how ≠ .returned (.ok ())) :
      LauncherStep storage run
        { run.setCoordinator index (.ended how) with collectors := run.collectors + 1 }
  | collectorDropped {run : LauncherRun} :
      LauncherStep storage run { run with collectors := run.collectors - 1 }
  | cancel {run : LauncherRun} : LauncherStep storage run { run with cancelled := true }
  | selectBackground {run : LauncherRun} {task : BackgroundTask}
      {result : Except OxanaError Unit} (selecting : run.stage = .selecting)
      (ended : run.background task = .ended (.returned result)) :
      LauncherStep storage run
        { run.setTask task (.joined result) with
          result := result
          cancelled := true
          stage := .joiningCoordinators }
  | selectCoordinator {run : LauncherRun} {index : Nat} {result : Except OxanaError Unit}
      (selecting : run.stage = .selecting)
      (ended : run.coordinators[index]? = some (.ended (.returned result))) :
      LauncherStep storage run
        { run.setCoordinator index (.joined result) with
          result := result
          cancelled := true
          stage := .joiningCoordinators }
  | selectCancelled {run : LauncherRun} (selecting : run.stage = .selecting)
      (cancelled : run.cancelled = true) :
      LauncherStep storage run { run with stage := .joiningCoordinators }
  | selectSignal {run : LauncherRun} (selecting : run.stage = .selecting) :
      LauncherStep storage run { run with cancelled := true, stage := .joiningCoordinators }
  | joinCoordinator {run : LauncherRun} {index : Nat} {result : Except OxanaError Unit}
      (joining : run.stage = .joiningCoordinators)
      (ended : run.coordinators[index]? = some (.ended (.returned result))) :
      LauncherStep storage run
        { run.setCoordinator index (.joined result) with
          result := LauncherRun.keepFirst run.result result }
  | coordinatorsJoined {run : LauncherRun} (joining : run.stage = .joiningCoordinators)
      (all : ∀ state ∈ run.coordinators, state.isJoined = true) :
      LauncherStep storage run { run with pingCancelled := true, stage := .joiningBackground }
  | joinBackground {run : LauncherRun} {task : BackgroundTask} {result : Except OxanaError Unit}
      (joining : run.stage = .joiningBackground)
      (ended : run.background task = .ended (.returned result)) :
      LauncherStep storage run
        { run.setTask task (.joined result) with
          result := LauncherRun.keepFirst run.result result }
  | backgroundJoined {run : LauncherRun} (joining : run.stage = .joiningBackground)
      (all : ∀ task, (run.background task).isJoined = true) :
      LauncherStep storage run
        { run with
          stage := .cleaning [.zremProcess storage.processId, .hdelProcess storage.processId] }
  -- `task_result?` on a task that has panicked.
  | abortBackground {run : LauncherRun} {task : BackgroundTask}
      (joining : run.stage = .selecting ∨ run.stage = .joiningBackground)
      (ended : run.background task = .ended .panicked) :
      LauncherStep storage run { run with stage := .aborted }
  | abortCoordinator {run : LauncherRun} {index : Nat}
      (joining : run.stage = .selecting ∨ run.stage = .joiningCoordinators)
      (ended : run.coordinators[index]? = some (.ended .panicked)) :
      LauncherStep storage run { run with stage := .aborted }
  | clean {run : LauncherRun} {command : Command} {rest : List Command}
      (cleaning : run.stage = .cleaning (command :: rest)) :
      LauncherStep storage run
        { run with store := (serve command run.store).2, stage := .cleaning rest }
  | cleaned {run : LauncherRun} (cleaning : run.stage = .cleaning []) :
      LauncherStep storage run { run with stage := .unwrapping }
  | cleanFails {run : LauncherRun} {commands : List Command} (error : OxanaError)
      (cleaning : run.stage = .cleaning commands) :
      LauncherStep storage run { run with stage := .returned (.error error) }
  | unwrap {run : LauncherRun} (unwrapping : run.stage = .unwrapping)
      (sole : run.collectors = 0) :
      LauncherStep storage run { run with stage := .returned run.result }
  | unwrapPanics {run : LauncherRun} (unwrapping : run.stage = .unwrapping)
      (shared : 0 < run.collectors) :
      LauncherStep storage run { run with stage := .panicked }
  -- Nobody else registers this process.
  | shift {run : LauncherRun} (store : Store)
      (unlisted : storage.processId ∉ run.store.processes.members →
        storage.processId ∉ store.processes.members)
      (unknown : run.store.processesData.get storage.processId = none →
        store.processesData.get storage.processId = none) :
      LauncherStep storage run { run with store := store }

def LauncherReaches (storage : StorageInternal) : LauncherRun → LauncherRun → Prop :=
  Relation.ReflTransGen (LauncherStep storage)

/-! What a step does to the tasks. -/

inductive TaskMove : TaskState → TaskState → Prop
  | stay (state : TaskState) : TaskMove state state
  | finish (how : TaskEnd) : TaskMove .running (.ended how)
  | join (result : Except OxanaError Unit) : TaskMove (.ended (.returned result)) (.joined result)

namespace TaskState

def fails : TaskState → Bool
  | ended (.returned (.ok ())) => false
  | ended _ => true
  | joined (.error _) => true
  | _ => false

def stopped : TaskState → Bool
  | ended (.returned (.ok ())) => true
  | joined (.ok ()) => true
  | _ => false

theorem joined_move {before after : TaskState} (move : TaskMove before after)
    (joined : before.isJoined = true) : after.isJoined = true := by
  cases move with
  | stay => exact joined
  | finish how => cases joined
  | join result => rfl

theorem fails_move {before after : TaskState} (move : TaskMove before after)
    (fails : before.fails = true) : after.fails = true := by
  cases move with
  | stay => exact fails
  | finish how => cases fails
  | join result =>
      cases result with
      | ok value => cases fails
      | error error => rfl

end TaskState

theorem TaskMove.panicked {before after : TaskState} (move : TaskMove before after)
    (panicked : before = .ended .panicked) : after = .ended .panicked := by
  cases move with
  | stay => exact panicked
  | finish how => cases panicked
  | join result => cases panicked

namespace LauncherRun

variable {run : LauncherRun}

def Has (run : LauncherRun) (state : TaskState) : Prop :=
  state ∈ run.coordinators ∨ ∃ task, run.background task = state

theorem has_setTask {task : BackgroundTask} {new state : TaskState}
    (has : (run.setTask task new).Has state) : state = new ∨ run.Has state := by
  rcases has with listed | ⟨other, found⟩
  · exact .inr (.inl listed)
  · change Function.update run.background task new other = state at found
    by_cases same : other = task
    · subst same
      rw [Function.update_self] at found
      exact .inl found.symm
    · rw [Function.update_of_ne same] at found
      exact .inr (.inr ⟨other, found⟩)

theorem has_setCoordinator {index : Nat} {new state : TaskState}
    (has : (run.setCoordinator index new).Has state) : state = new ∨ run.Has state := by
  rcases has with listed | found
  · rcases List.mem_or_eq_of_mem_set listed with earlier | same
    · exact .inr (.inl earlier)
    · exact .inl same
  · exact .inr (.inr found)

theorem setTask_move {task : BackgroundTask} {new : TaskState}
    (move : TaskMove (run.background task) new) (other : BackgroundTask) :
    TaskMove (run.background other) ((run.setTask task new).background other) := by
  change TaskMove _ (Function.update run.background task new other)
  by_cases same : other = task
  · subst same
    rw [Function.update_self]
    exact move
  · rw [Function.update_of_ne same]
    exact .stay _

theorem setCoordinator_move {index : Nat} {old new : TaskState}
    (found : run.coordinators[index]? = some old) (move : TaskMove old new) :
    List.Forall₂ TaskMove run.coordinators (run.setCoordinator index new).coordinators := by
  rw [List.forall₂_iff_get]
  refine ⟨(List.length_set).symm, ?_⟩
  intro position _ inside
  change TaskMove _ ((run.coordinators.set index new).get ⟨position, inside⟩)
  simp only [List.get_eq_getElem, List.getElem_set]
  split
  · rename_i same
    subst same
    rw [(List.getElem?_eq_some_iff.mp found).2]
    exact move
  · exact .stay _

end LauncherRun

section Steps

variable {storage : StorageInternal} {run next : LauncherRun}

theorem LauncherStep.background (step : LauncherStep storage run next) (task : BackgroundTask) :
    TaskMove (run.background task) (next.background task) := by
  cases step with
  | fail other error running loud =>
      exact LauncherRun.setTask_move (by rw [running]; exact .finish _) task
  | panic other running => exact LauncherRun.setTask_move (by rw [running]; exact .finish _) task
  | stop other running looping told =>
      exact LauncherRun.setTask_move (by rw [running]; exact .finish _) task
  | cronStops running ended =>
      exact LauncherRun.setTask_move (by rw [running]; exact .finish _) task
  | selectBackground selecting ended =>
      exact LauncherRun.setTask_move (by rw [ended]; exact .join _) task
  | joinBackground joining ended =>
      exact LauncherRun.setTask_move (by rw [ended]; exact .join _) task
  | _ => exact .stay _

theorem LauncherStep.coordinators (step : LauncherStep storage run next) :
    List.Forall₂ TaskMove run.coordinators next.coordinators := by
  cases step with
  | coordinatorStops running cancelled =>
      exact LauncherRun.setCoordinator_move running (.finish _)
  | coordinatorFails how running fails =>
      exact LauncherRun.setCoordinator_move running (.finish _)
  | selectCoordinator selecting ended => exact LauncherRun.setCoordinator_move ended (.join _)
  | joinCoordinator joining ended => exact LauncherRun.setCoordinator_move ended (.join _)
  | _ => exact List.forall₂_same.mpr fun state _ => .stay state

theorem coordinators_keep {property : TaskState → Prop} {before after : List TaskState}
    (moves : List.Forall₂ TaskMove before after)
    (kept : ∀ old new, TaskMove old new → property old → property new)
    (all : ∀ state ∈ before, property state) : ∀ state ∈ after, property state := by
  induction moves with
  | nil => exact List.forall_mem_nil _
  | cons move _ ih =>
      rw [List.forall_mem_cons] at all ⊢
      exact ⟨kept _ _ move all.1, ih all.2⟩

theorem coordinators_some {property : TaskState → Prop} {before after : List TaskState}
    (moves : List.Forall₂ TaskMove before after)
    (kept : ∀ old new, TaskMove old new → property old → property new)
    (present : ∃ state ∈ before, property state) : ∃ state ∈ after, property state := by
  obtain ⟨state, listed, holds⟩ := present
  obtain ⟨index, inside, rfl⟩ := List.mem_iff_getElem.mp listed
  have bound : index < after.length := by
    rw [← moves.length_eq]
    exact inside
  exact ⟨after.get ⟨index, bound⟩, List.get_mem _ _, kept _ _ (moves.get inside bound) holds⟩

theorem coordinators_fail {before after : List TaskState}
    (moves : List.Forall₂ TaskMove before after)
    (present : ∃ state ∈ before, state.fails = true) : ∃ state ∈ after, state.fails = true :=
  coordinators_some moves (fun _ _ move => TaskState.fails_move move) present

/-! The heartbeat. -/

structure HeartbeatSound (run : LauncherRun) : Prop where
  told : run.pingCancelled = true → ∀ state ∈ run.coordinators, state.isJoined = true
  stopped : (run.background .ping).stopped = true → run.pingCancelled = true

theorem HeartbeatSound.told_step (sound : HeartbeatSound run)
    (step : LauncherStep storage run next) (told : next.pingCancelled = true) :
    ∀ state ∈ next.coordinators, state.isJoined = true := by
  have kept : run.pingCancelled = true → ∀ state ∈ next.coordinators, state.isJoined = true :=
    fun before => coordinators_keep step.coordinators
      (fun _ _ move => TaskState.joined_move move) (sound.told before)
  cases step with
  | coordinatorsJoined joining all => exact all
  | _ => exact kept told

theorem HeartbeatSound.stopped_step (sound : HeartbeatSound run)
    (step : LauncherStep storage run next) (stopped : (next.background .ping).stopped = true) :
    next.pingCancelled = true := by
  have still : ∀ {task : BackgroundTask} {new : TaskState},
      ((run.setTask task new).background .ping).stopped = true →
      (task = .ping → new.stopped = true → run.pingCancelled = true) →
      run.pingCancelled = true := by
    intro task new after own
    change (Function.update run.background task new .ping).stopped = true at after
    by_cases same : BackgroundTask.ping = task
    · subst same
      rw [Function.update_self] at after
      exact own rfl after
    · rw [Function.update_of_ne same] at after
      exact sound.stopped after
  cases step with
  | fail task error running loud => exact still stopped fun _ impossible => by cases impossible
  | panic task running => exact still stopped fun _ impossible => by cases impossible
  | stop task running looping told =>
      refine still stopped ?_
      rintro rfl _
      exact told
  | cronStops running ended => exact still stopped fun impossible => by cases impossible
  | @selectBackground task result selecting ended =>
      refine still stopped ?_
      rintro rfl joined
      refine sound.stopped ?_
      rw [ended]
      cases result with
      | ok value => rfl
      | error error => cases joined
  | @joinBackground task result joining ended =>
      refine still stopped ?_
      rintro rfl joined
      refine sound.stopped ?_
      rw [ended]
      cases result with
      | ok value => rfl
      | error error => cases joined
  | coordinatorsJoined joining all => rfl
  | _ => exact sound.stopped stopped

/-! The results. -/

def LauncherStage.past : LauncherStage → Bool
  | .cleaning _ => true
  | .unwrapping => true
  | .returned _ => true
  | .panicked => true
  | _ => false

def LauncherRun.AllJoined (run : LauncherRun) : Prop :=
  (∀ task, (run.background task).isJoined = true) ∧
    ∀ state ∈ run.coordinators, state.isJoined = true

structure ResultSound (run : LauncherRun) : Prop where
  fresh : run.stage = .selecting →
    run.result = .ok () ∧ ∀ state, run.Has state → state.isJoined = false
  spotless : run.result = .ok () →
    ∀ state, run.Has state → state.isJoined = true → state.fails = false
  told : run.stage = .joiningBackground → run.pingCancelled = true
  past : run.stage.past = true → run.AllJoined
  returned : run.stage = .returned (.ok ()) → run.result = .ok ()
  shared : 0 < run.collectors → ∃ state ∈ run.coordinators, state.fails = true
  panicked : run.stage = .panicked → ∃ state ∈ run.coordinators, state.fails = true
  aborted : run.stage = .aborted → run.Has (.ended .panicked)

namespace ResultSound

theorem fresh_step (sound : ResultSound run) (step : LauncherStep storage run next)
    (selecting : next.stage = .selecting) :
    next.result = .ok () ∧ ∀ state, next.Has state → state.isJoined = false := by
  have unjoined : ∀ {task : BackgroundTask} {how : TaskEnd}, run.stage = .selecting →
      run.result = .ok () ∧ ∀ state, (run.setTask task (.ended how)).Has state →
        state.isJoined = false := by
    intro task how before
    refine ⟨(sound.fresh before).1, ?_⟩
    intro state has
    rcases LauncherRun.has_setTask has with rfl | earlier
    · rfl
    · exact (sound.fresh before).2 state earlier
  have unjoined_coordinator : ∀ {index : Nat} {how : TaskEnd}, run.stage = .selecting →
      run.result = .ok () ∧ ∀ state, (run.setCoordinator index (.ended how)).Has state →
        state.isJoined = false := by
    intro index how before
    refine ⟨(sound.fresh before).1, ?_⟩
    intro state has
    rcases LauncherRun.has_setCoordinator has with rfl | earlier
    · rfl
    · exact (sound.fresh before).2 state earlier
  cases step with
  | fail task error running loud => exact unjoined selecting
  | panic task running => exact unjoined selecting
  | stop task running looping told => exact unjoined selecting
  | cronStops running ended => exact unjoined selecting
  | coordinatorStops running cancelled => exact unjoined_coordinator selecting
  | coordinatorFails how running fails => exact unjoined_coordinator selecting
  | joinCoordinator joining ended =>
      change run.stage = .selecting at selecting
      rw [joining] at selecting
      cases selecting
  | joinBackground joining ended =>
      change run.stage = .selecting at selecting
      rw [joining] at selecting
      cases selecting
  | beat now running beats sent => exact sound.fresh selecting
  | cronLoopEnds index => exact sound.fresh selecting
  | collectorDropped => exact sound.fresh selecting
  | cancel => exact sound.fresh selecting
  | shift store unlisted unknown => exact sound.fresh selecting
  | _ => cases selecting

theorem keepFirst_ok {result joined : Except OxanaError Unit}
    (fine : LauncherRun.keepFirst result joined = .ok ()) : result = .ok () ∧ joined = .ok () := by
  cases result with
  | ok value => exact ⟨rfl, fine⟩
  | error error => cases fine

theorem spotless_step (sound : ResultSound run) (step : LauncherStep storage run next)
    (fine : next.result = .ok ()) (state : TaskState) (has : next.Has state)
    (joined : state.isJoined = true) : state.fails = false := by
  have fresh : ∀ {result : Except OxanaError Unit}, result = .ok () → run.stage = .selecting →
      state = .joined result ∨ run.Has state → state.fails = false := by
    rintro _ rfl selecting (rfl | earlier)
    · rfl
    · rw [(sound.fresh selecting).2 state earlier] at joined
      cases joined
  have kept : ∀ {result : Except OxanaError Unit},
      LauncherRun.keepFirst run.result result = .ok () →
      state = .joined result ∨ run.Has state → state.fails = false := by
    rintro result both (rfl | earlier)
    · rw [(keepFirst_ok both).2]
      rfl
    · exact sound.spotless (keepFirst_ok both).1 state earlier joined
  have ending : ∀ {how : TaskEnd}, run.result = .ok () →
      state = .ended how ∨ run.Has state → state.fails = false := by
    rintro how before (rfl | earlier)
    · cases joined
    · exact sound.spotless before state earlier joined
  cases step with
  | fail task error running loud => exact ending fine (LauncherRun.has_setTask has)
  | panic task running => exact ending fine (LauncherRun.has_setTask has)
  | stop task running looping told => exact ending fine (LauncherRun.has_setTask has)
  | cronStops running ended => exact ending fine (LauncherRun.has_setTask has)
  | coordinatorStops running cancelled => exact ending fine (LauncherRun.has_setCoordinator has)
  | coordinatorFails how running fails =>
      exact ending fine (LauncherRun.has_setCoordinator has)
  | selectBackground selecting ended => exact fresh fine selecting (LauncherRun.has_setTask has)
  | selectCoordinator selecting ended =>
      exact fresh fine selecting (LauncherRun.has_setCoordinator has)
  | joinCoordinator joining ended => exact kept fine (LauncherRun.has_setCoordinator has)
  | joinBackground joining ended => exact kept fine (LauncherRun.has_setTask has)
  | _ => exact sound.spotless fine state has joined

theorem told_step (sound : ResultSound run) (step : LauncherStep storage run next)
    (joining : next.stage = .joiningBackground) : next.pingCancelled = true := by
  cases step with
  | coordinatorsJoined joining all => rfl
  | _ => first | exact sound.told joining | cases joining

theorem past_step (sound : ResultSound run) (heart : HeartbeatSound run)
    (step : LauncherStep storage run next) (past : next.stage.past = true) : next.AllJoined := by
  have kept : run.stage.past = true → next.AllJoined := by
    intro before
    obtain ⟨background, coordinators⟩ := sound.past before
    exact ⟨fun task => TaskState.joined_move (step.background task) (background task),
      coordinators_keep step.coordinators (fun _ _ move => TaskState.joined_move move) coordinators⟩
  cases step with
  | backgroundJoined joining all => exact ⟨all, heart.told (sound.told joining)⟩
  | clean cleaning => exact kept (by rw [cleaning]; rfl)
  | cleaned cleaning => exact kept (by rw [cleaning]; rfl)
  | cleanFails error cleaning => exact kept (by rw [cleaning]; rfl)
  | unwrap unwrapping sole => exact kept (by rw [unwrapping]; rfl)
  | unwrapPanics unwrapping shared => exact kept (by rw [unwrapping]; rfl)
  | _ => first | exact kept past | cases past

theorem returned_step (sound : ResultSound run) (step : LauncherStep storage run next)
    (returned : next.stage = .returned (.ok ())) : next.result = .ok () := by
  cases step with
  | unwrap unwrapping sole =>
      injection returned
  | joinCoordinator joining ended =>
      change run.stage = _ at returned
      rw [joining] at returned
      cases returned
  | joinBackground joining ended =>
      change run.stage = _ at returned
      rw [joining] at returned
      cases returned
  | _ => first | exact sound.returned returned | cases returned

theorem shared_step (sound : ResultSound run) (step : LauncherStep storage run next)
    (shared : 0 < next.collectors) : ∃ state ∈ next.coordinators, state.fails = true := by
  have kept : 0 < run.collectors → ∃ state ∈ next.coordinators, state.fails = true :=
    fun before => coordinators_fail step.coordinators (sound.shared before)
  cases step with
  | @coordinatorFails index how running fails =>
      have inside := (List.getElem?_eq_some_iff.mp running).1
      refine ⟨.ended how, List.mem_set inside _, ?_⟩
      rcases how with (value | error) | _
      · rfl
      · exact absurd rfl fails
      · rfl
  | collectorDropped => exact kept (Nat.lt_of_lt_of_le shared (Nat.sub_le _ _))
  | _ => exact kept shared

theorem panicked_step (sound : ResultSound run) (step : LauncherStep storage run next)
    (panicked : next.stage = .panicked) : ∃ state ∈ next.coordinators, state.fails = true := by
  have kept : run.stage = .panicked → ∃ state ∈ next.coordinators, state.fails = true :=
    fun before => coordinators_fail step.coordinators (sound.panicked before)
  cases step with
  | unwrapPanics unwrapping shared => exact sound.shared shared
  | _ => first | exact kept panicked | cases panicked

theorem aborted_step (sound : ResultSound run) (step : LauncherStep storage run next)
    (aborted : next.stage = .aborted) : next.Has (.ended .panicked) := by
  have kept : run.stage = .aborted → next.Has (.ended .panicked) := by
    intro before
    rcases sound.aborted before with listed | ⟨task, found⟩
    · obtain ⟨_, later, rfl⟩ := coordinators_some step.coordinators
        (fun _ _ move => move.panicked) ⟨_, listed, rfl⟩
      exact .inl later
    · exact .inr ⟨task, (step.background task).panicked found⟩
  cases step with
  | abortBackground joining ended => exact .inr ⟨_, ended⟩
  | abortCoordinator joining ended => exact .inl (List.mem_of_getElem? ended)
  | _ => first | exact kept aborted | cases aborted

theorem step (sound : ResultSound run) (heart : HeartbeatSound run)
    (step : LauncherStep storage run next) : ResultSound next where
  fresh := sound.fresh_step step
  spotless := sound.spotless_step step
  told := sound.told_step step
  past := sound.past_step heart step
  returned := sound.returned_step step
  shared := sound.shared_step step
  panicked := sound.panicked_step step
  aborted := sound.aborted_step step

end ResultSound

/-! The registration of the process. -/

def Unlisted (storage : StorageInternal) (store : Store) : Prop :=
  storage.processId ∉ store.processes.members

def Undescribed (storage : StorageInternal) (store : Store) : Prop :=
  store.processesData.get storage.processId = none

structure RegistrationSound (storage : StorageInternal) (run : LauncherRun) : Prop where
  cleaning : ∀ commands, run.stage = .cleaning commands →
    commands = [.zremProcess storage.processId, .hdelProcess storage.processId] ∨
      commands = [.hdelProcess storage.processId] ∧ Unlisted storage run.store ∨
        commands = [] ∧ Unlisted storage run.store ∧ Undescribed storage run.store
  removed : run.stage = .unwrapping ∨ run.stage = .panicked ∨ run.stage = .returned (.ok ()) →
    Unlisted storage run.store ∧ Undescribed storage run.store

theorem RegistrationSound.cleaning_step (sound : RegistrationSound storage run)
    (results : ResultSound run) (step : LauncherStep storage run next) (commands : List Command)
    (cleaning : next.stage = .cleaning commands) :
    commands = [.zremProcess storage.processId, .hdelProcess storage.processId] ∨
      commands = [.hdelProcess storage.processId] ∧ Unlisted storage next.store ∨
        commands = [] ∧ Unlisted storage next.store ∧ Undescribed storage next.store := by
  cases step with
  | @beat task command now running beats sent =>
      have past := (results.past (by rw [show run.stage = _ from cleaning]; rfl)).1 task
      rw [running] at past
      cases past
  | backgroundJoined joining all =>
      cases cleaning
      exact .inl rfl
  | @clean command rest before =>
      cases cleaning
      rcases sound.cleaning _ before with first | ⟨second, unlisted⟩ | ⟨impossible, _⟩
      · cases first
        refine .inr (.inl ⟨rfl, ?_⟩)
        change storage.processId ∉ (run.store.processes.erase storage.processId).members
        simp
      · cases second
        exact .inr (.inr ⟨rfl, unlisted, SparseMap.get_set_self _ _ _⟩)
      · cases impossible
  | shift store unlisted unknown =>
      rcases sound.cleaning commands cleaning with first | ⟨second, gone⟩ | ⟨last, gone, missing⟩
      · exact .inl first
      · exact .inr (.inl ⟨second, unlisted gone⟩)
      · exact .inr (.inr ⟨last, unlisted gone, unknown missing⟩)
  | _ => first | exact sound.cleaning commands cleaning | cases cleaning

theorem RegistrationSound.removed_step (sound : RegistrationSound storage run)
    (results : ResultSound run) (step : LauncherStep storage run next)
    (finished : next.stage = .unwrapping ∨ next.stage = .panicked ∨
      next.stage = .returned (.ok ())) :
    Unlisted storage next.store ∧ Undescribed storage next.store := by
  cases step with
  | @beat task command now running beats sent =>
      have past : run.stage.past = true := by
        change run.stage = _ ∨ run.stage = _ ∨ run.stage = _ at finished
        rcases finished with stage | stage | stage <;> rw [stage] <;> rfl
      have joined := (results.past past).1 task
      rw [running] at joined
      cases joined
  | cleaned before =>
      rcases sound.cleaning _ before with first | ⟨second, _⟩ | ⟨_, gone⟩
      · cases first
      · cases second
      · exact gone
  | unwrap unwrapping sole => exact sound.removed (.inl unwrapping)
  | unwrapPanics unwrapping shared => exact sound.removed (.inl unwrapping)
  | shift store unlisted unknown =>
      obtain ⟨gone, missing⟩ := sound.removed finished
      exact ⟨unlisted gone, unknown missing⟩
  | _ =>
      first
        | exact sound.removed finished
        | rcases finished with stage | stage | stage <;> cases stage

/-! Runs. -/

structure LauncherSound (storage : StorageInternal) (run : LauncherRun) : Prop where
  heart : HeartbeatSound run
  results : ResultSound run
  registration : RegistrationSound storage run

theorem LauncherSound.step (sound : LauncherSound storage run)
    (step : LauncherStep storage run next) : LauncherSound storage next where
  heart := ⟨sound.heart.told_step step, sound.heart.stopped_step step⟩
  results := sound.results.step sound.heart step
  registration := ⟨sound.registration.cleaning_step sound.results step,
    sound.registration.removed_step sound.results step⟩

theorem has_start {store : Store} {schedules queues : Nat} {state : TaskState}
    (has : (LauncherRun.start store schedules queues).Has state) : state = .running := by
  rcases has with listed | ⟨task, found⟩
  · exact List.eq_of_mem_replicate listed
  · exact found.symm

theorem launcherSound_start (storage : StorageInternal) (store : Store) (schedules queues : Nat) :
    LauncherSound storage (.start store schedules queues) where
  heart := by
    constructor
    · rintro ⟨⟩
    · rintro ⟨⟩
  results := by
    constructor
    · intro _
      refine ⟨rfl, fun state has => ?_⟩
      rw [has_start has]
      rfl
    · intro _ state has joined
      rw [has_start has] at joined
      cases joined
    · rintro ⟨⟩
    · rintro ⟨⟩
    · rintro ⟨⟩
    · intro impossible
      exact absurd impossible (Nat.lt_irrefl 0)
    · rintro ⟨⟩
    · rintro ⟨⟩
  registration := by
    constructor
    · rintro commands ⟨⟩
    · rintro (stage | stage | stage) <;> cases stage

/-- The heartbeat goes on until every coordinator has ended.  A run that ends well has joined
every task with its result, none of them an error, and has left no trace of the process; it
panics only after a coordinator has failed and is cut short only by a task that panicked. -/
theorem launcher_shuts_down (storage : StorageInternal) (store : Store) (schedules queues : Nat)
    (run : LauncherRun) (reaches : LauncherReaches storage (.start store schedules queues) run) :
    ((run.background .ping).stopped = true → ∀ state ∈ run.coordinators, state.isJoined = true) ∧
    (run.stage = .returned (.ok ()) →
      (∀ state, run.Has state → state = .joined (.ok ())) ∧
        Unlisted storage run.store ∧ Undescribed storage run.store) ∧
    (run.stage = .panicked → ∃ state ∈ run.coordinators, state.fails = true) ∧
    (run.stage = .aborted → run.Has (.ended .panicked)) := by
  have sound : LauncherSound storage run := by
    induction reaches with
    | refl => exact launcherSound_start storage store schedules queues
    | tail _ step ih => exact ih.step step
  refine ⟨?_, ?_, sound.results.panicked, sound.results.aborted⟩
  · intro stopped
    exact sound.heart.told (sound.heart.stopped stopped)
  · intro returned
    refine ⟨?_, sound.registration.removed (.inr (.inr returned))⟩
    intro state has
    have joined : state.isJoined = true := by
      obtain ⟨background, coordinators⟩ := sound.results.past (by rw [returned]; rfl)
      rcases has with listed | ⟨task, rfl⟩
      · exact coordinators state listed
      · exact background task
    have clean := sound.results.spotless (sound.results.returned returned) state has joined
    cases state with
    | joined result =>
        cases result with
        | ok value => rfl
        | error error => cases clean
    | _ => cases joined

theorem LauncherReaches.move {start : LauncherRun} (reaches : LauncherReaches storage start run)
    (step : LauncherStep storage run next) : LauncherReaches storage start next :=
  Relation.ReflTransGen.tail reaches step

theorem launcher_shuts_down_signal :
    ∃ run : LauncherRun, run.stage = .returned (.ok ()) ∧
      Unlisted (workerNode 1) run.store ∧ Undescribed (workerNode 1) run.store := by
  have start : LauncherReaches (workerNode 1) (.start Store.empty 0 1)
      (.start Store.empty 0 1) := .refl
  have listed := start.move (@LauncherStep.beat _ _ .ping _ 0 rfl rfl List.mem_cons_self)
  have signalled := listed.move (.selectSignal rfl)
  have stopped := signalled.move (@LauncherStep.coordinatorStops _ _ 0 rfl rfl)
  have joined := stopped.move (@LauncherStep.joinCoordinator _ _ 0 _ rfl rfl)
  have told := joined.move (.coordinatorsJoined rfl (by
    intro state member
    rw [List.mem_singleton.mp member]
    rfl))
  have retry := told.move (.stop .retry rfl (by decide) rfl)
  have schedule := retry.move (.stop .schedule rfl (by decide) rfl)
  have resurrect := schedule.move (.stop .resurrect rfl (by decide) rfl)
  have cleanup := resurrect.move (.stop .cleanup rfl (by decide) rfl)
  have ping := cleanup.move (.stop .ping rfl (by decide) rfl)
  have cron := ping.move (.cronStops rfl rfl)
  have first := cron.move (@LauncherStep.joinBackground _ _ .cron _ rfl rfl)
  have second := first.move (@LauncherStep.joinBackground _ _ .retry _ rfl rfl)
  have third := second.move (@LauncherStep.joinBackground _ _ .schedule _ rfl rfl)
  have fourth := third.move (@LauncherStep.joinBackground _ _ .resurrect _ rfl rfl)
  have fifth := fourth.move (@LauncherStep.joinBackground _ _ .cleanup _ rfl rfl)
  have last := fifth.move (@LauncherStep.joinBackground _ _ .ping _ rfl rfl)
  have joined := last.move (.backgroundJoined rfl (by
    intro task
    cases task <;> rfl))
  have removed := joined.move (.clean rfl)
  have forgotten := removed.move (.clean rfl)
  have cleaned := forgotten.move (.cleaned rfl)
  have returned := cleaned.move (.unwrap rfl rfl)
  exact ⟨_, rfl, ((launcher_shuts_down (workerNode 1) Store.empty 0 1 _ returned).2.1 rfl).2⟩

end Steps

end Oxana
