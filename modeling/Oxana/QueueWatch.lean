import Oxana.QueueControls
import Mathlib.Algebra.BigOperators.Fin

/-!
The queue watchers of one process, one for each registered configuration: the queues they
find, the controls and dispatchers they start, and the permits the dispatchers take.
-/

namespace Oxana

open GlobPattern (Literal)

variable {storage : StorageInternal} {config : QueueConfig}

inductive WatcherStage
  | searching
  | tracking (fresh : List String)
  | returned

structure Dispatcher where
  queueKey : String
  queueConfig : QueueConfig

/-- A queue watcher with the map of controls of its coordinator, the dispatchers it started
and the queues whose permits are held. -/
structure QueueWatcher where
  stage : WatcherStage
  tracked : List String
  controls : SparseMap String (Option QueueControl) none
  dispatchers : List Dispatcher
  permits : List String

inductive WatcherEvent
  | scan (store : Option Store)
  | track (queue : String) (first second : QueueConfigs)
  | rest (cancelled : Bool)
  | exit
  | configure (queue : String) (first second : QueueConfigs)
  | acquire (queue : String)
  | release (queue : String)

namespace QueueConfig

def allQueues (storage : StorageInternal) (config : QueueConfig) (store : Option Store) :
    List String :=
  match config.kind, store with
  | .static key, _ => [key]
  | .dynamic _ _, none => []
  | .dynamic start _, some store =>
      match (runAlone (storage.queues (start ++ "*")) store).1 with
      | some (.ok found) => found
      | _ => []

def covers (storage : StorageInternal) (config : QueueConfig) (queue : String) : Bool :=
  match config.kind with
  | .static key => queue == key
  | .dynamic start _ => storage.discovers (start ++ "*") queue

theorem found_of_covers {queue : String} {store : Store}
    (filled : store.lists.get (storage.queueKey queue) ≠ [])
    (covered : config.covers storage queue = true) :
    queue ∈ config.allQueues storage (some store) := by
  unfold covers at covered
  unfold allQueues
  split at covered
  · rename_i key kind
    rw [kind]
    simpa using covered
  · rename_i start interval kind
    obtain ⟨queues, ran, listed⟩ := runAlone_queues storage (start ++ "*") store
    rw [kind]
    dsimp only
    rw [ran]
    exact (listed queue).mpr ⟨filled, covered⟩

theorem covers_of_found {store : Option Store} {queue : String}
    (found : queue ∈ config.allQueues storage store) : config.covers storage queue = true := by
  unfold allQueues at found
  unfold covers
  split at found
  · rename_i key kind
    rw [kind]
    simpa using found
  · cases found
  · rename_i start interval store kind
    obtain ⟨queues, ran, listed⟩ := runAlone_queues storage (start ++ "*") store
    rw [ran] at found
    rw [kind]
    exact ((listed queue).mp found).2

end QueueConfig

namespace QueueWatcher

def start : QueueWatcher where
  stage := .searching
  tracked := []
  controls := .empty
  dispatchers := []
  permits := []

def getOrCreate (watcher : QueueWatcher) (queue : String) (runtime : QueueRuntimeConfig) :
    QueueControl :=
  (watcher.controls.get queue).getD (.new runtime)

def setControl (watcher : QueueWatcher) (queue : String) (control : QueueControl) :
    QueueWatcher :=
  { watcher with controls := watcher.controls.set queue (some control) }

/-- One queue of a pass: its control, its dispatcher and the entry among the tracked ones. -/
def track (config : QueueConfig) (watcher : QueueWatcher) (rest : List String) (queue : String)
    (runtime : QueueRuntimeConfig) : QueueWatcher :=
  { watcher.setControl queue ((watcher.getOrCreate queue runtime).applyConfig runtime) with
    stage := .tracking rest
    tracked := queue :: watcher.tracked
    dispatchers := ⟨queue, config⟩ :: watcher.dispatchers }

def step (storage : StorageInternal) (config : QueueConfig) (watcher : QueueWatcher) :
    WatcherEvent → Option QueueWatcher
  | .scan store =>
      match watcher.stage with
      | .searching =>
          some { watcher with
            stage := .tracking ((config.allQueues storage store).dedup.filter
              (fun queue => queue ∉ watcher.tracked)) }
      | _ => none
  | .track queue first second =>
      match watcher.stage with
      | .tracking fresh =>
          if queue ∈ fresh then
            some (watcher.track config (fresh.erase queue) queue
              (config.runtimeConfig queue first second))
          else none
      | _ => none
  | .rest cancelled =>
      match watcher.stage, config.kind with
      | .tracking [], .dynamic _ _ =>
          some { watcher with stage := if cancelled then .returned else .searching }
      | .tracking [], .static _ => some { watcher with stage := .returned }
      | _, _ => none
  | .exit => some { watcher with stage := .returned }
  | .configure queue first second =>
      match watcher.controls.get queue with
      | some control =>
          some (watcher.setControl queue
            (control.applyConfig (config.runtimeConfig queue first second)))
      | none => none
  | .acquire queue =>
      match watcher.controls.get queue with
      | some control =>
          control.acquire.map fun control =>
            { watcher.setControl queue control with permits := queue :: watcher.permits }
      | none => none
  | .release queue =>
      match watcher.controls.get queue with
      | some control =>
          if queue ∈ watcher.permits then
            some { watcher.setControl queue control.release with
              permits := watcher.permits.erase queue }
          else none
      | none => none

end QueueWatcher

def WatcherEvent.limit (config : QueueConfig) : WatcherEvent → Option (String × Nat)
  | .track queue first second | .configure queue first second =>
      some (queue, config.concurrency.effective
        (runtimeQueueConfig first second queue config.keyOrPrefix
          config.concurrency.storedRuntimeDefault))
  | _ => none

/-! One watcher. -/

def WatcherStage.fresh : WatcherStage → List String
  | .tracking fresh => fresh
  | _ => []

/-- The permits of a queue are counted by its control, whose limit is the last one put on
the queue; more than that limit may be held only below an earlier one. -/
structure Controlled (watcher : QueueWatcher) (limits : List (String × Nat)) (queue : String)
    (control : QueueControl) : Prop where
  held : watcher.permits.count queue = control.active
  last : limits.lookup queue = some control.concurrency
  bounded : ∃ limit, (queue, limit) ∈ limits ∧ control.active ≤ limit

/-- `own` are the queues that the scans of this watcher may find, `limits` those put on its
queues so far, the last one first. -/
structure WatcherSound (config : QueueConfig) (own : String → Prop)
    (limits : List (String × Nat)) (watcher : QueueWatcher) : Prop where
  tracked_own : ∀ queue ∈ watcher.tracked, own queue
  tracked_once : watcher.tracked.Nodup
  fresh_own : ∀ queue ∈ watcher.stage.fresh, own queue
  fresh_once : watcher.stage.fresh.Nodup
  fresh_new : ∀ queue ∈ watcher.stage.fresh, queue ∉ watcher.tracked
  dispatched : watcher.dispatchers = watcher.tracked.map fun queue => ⟨queue, config⟩
  has_control : ∀ queue, watcher.controls.get queue ≠ none ↔ queue ∈ watcher.tracked
  permitted : ∀ queue ∈ watcher.permits, queue ∈ watcher.tracked
  controlled : ∀ queue control, watcher.controls.get queue = some control →
    Controlled watcher limits queue control

variable {own : String → Prop} {limits : List (String × Nat)} {watcher next : QueueWatcher}

theorem watcherSound_start : WatcherSound config own [] .start where
  tracked_own := fun _ member => nomatch member
  tracked_once := List.nodup_nil
  fresh_own := fun _ member => nomatch member
  fresh_once := List.nodup_nil
  fresh_new := fun _ member => nomatch member
  dispatched := rfl
  has_control := fun queue => by simp [QueueWatcher.start]
  permitted := fun _ member => nomatch member
  controlled := fun queue control stored => by simp [QueueWatcher.start] at stored

theorem WatcherSound.restage (sound : WatcherSound config own limits watcher)
    (stage : WatcherStage) (fresh_own : ∀ queue ∈ stage.fresh, own queue)
    (fresh_once : stage.fresh.Nodup) (fresh_new : ∀ queue ∈ stage.fresh, queue ∉ watcher.tracked) :
    WatcherSound config own limits { watcher with stage := stage } :=
  { sound with
    fresh_own := fresh_own
    fresh_once := fresh_once
    fresh_new := fresh_new
    controlled := fun queue control stored =>
      let kept := sound.controlled queue control stored
      ⟨kept.held, kept.last, kept.bounded⟩ }

theorem WatcherSound.recontrol (sound : WatcherSound config own limits watcher)
    {queue : String} {old control : QueueControl} {permits : List String}
    {later : List (String × Nat)}
    (stored : watcher.controls.get queue = some old)
    (others : ∀ other, other ≠ queue → permits.count other = watcher.permits.count other)
    (held : permits.count queue = control.active)
    (older : ∀ other, other ≠ queue → later.lookup other = limits.lookup other)
    (longer : ∀ entry ∈ limits, entry ∈ later)
    (last : later.lookup queue = some control.concurrency)
    (bounded : ∃ limit, (queue, limit) ∈ later ∧ control.active ≤ limit) :
    WatcherSound config own later
      { watcher.setControl queue control with permits := permits } := by
  have tracked : queue ∈ watcher.tracked :=
    (sound.has_control queue).mp (by rw [stored]; exact Option.some_ne_none _)
  refine { sound with has_control := ?_, permitted := ?_, controlled := ?_ }
  · intro other
    change (watcher.controls.set queue (some control)).get other ≠ none ↔ _
    by_cases same : other = queue
    · subst same
      simp [QueueWatcher.setControl, tracked]
    · rw [SparseMap.get_set_of_ne _ _ same]
      exact sound.has_control other
  · intro other member
    by_cases same : other = queue
    · rw [same]
      exact tracked
    · have counted := List.count_pos_iff.mpr member
      rw [others other same] at counted
      exact sound.permitted other (List.count_pos_iff.mp counted)
  · intro other found present
    change (watcher.controls.set queue (some control)).get other = some found at present
    by_cases same : other = queue
    · subst same
      rw [SparseMap.get_set_self] at present
      cases present
      exact ⟨held, last, bounded⟩
    · rw [SparseMap.get_set_of_ne _ _ same] at present
      obtain ⟨kept, latest, limit, member, below⟩ := sound.controlled other found present
      exact ⟨(others other same).trans kept, (older other same).trans latest,
        limit, longer _ member, below⟩

theorem lookup_cons_of_ne {queue other : String} (limit : Nat) (limits : List (String × Nat))
    (different : other ≠ queue) : ((queue, limit) :: limits).lookup other = limits.lookup other := by
  rw [List.lookup_cons, beq_false_of_ne different]

theorem WatcherSound.track (sound : WatcherSound config own limits watcher)
    {fresh : List String} {queue : String} (stage : watcher.stage = .tracking fresh)
    (member : queue ∈ fresh) (runtime : QueueRuntimeConfig) {limit : Nat}
    (effective : runtime.concurrency = some limit) :
    WatcherSound config own ((queue, limit) :: limits)
      (watcher.track config (fresh.erase queue) queue runtime) := by
  have pending : watcher.stage.fresh = fresh := by rw [stage]; rfl
  have once : fresh.Nodup := pending ▸ sound.fresh_once
  have new : queue ∉ watcher.tracked := sound.fresh_new queue (by rw [pending]; exact member)
  have absent : watcher.controls.get queue = none := by
    by_contra present
    exact new ((sound.has_control queue).mp present)
  have created : (watcher.getOrCreate queue runtime).applyConfig runtime =
      ⟨limit, 0, runtime.state⟩ := by
    simp [QueueWatcher.getOrCreate, absent, QueueControl.new, QueueControl.applyConfig, effective]
  unfold QueueWatcher.track
  rw [created]
  constructor
  · intro other tracked
    rcases List.mem_cons.mp tracked with same | before
    · rw [same]
      exact sound.fresh_own queue (by rw [pending]; exact member)
    · exact sound.tracked_own other before
  · exact List.nodup_cons.mpr ⟨new, sound.tracked_once⟩
  · intro other left
    exact sound.fresh_own other (by rw [pending]; exact List.mem_of_mem_erase left)
  · exact once.erase queue
  · intro other left
    have kept := (once.mem_erase_iff).mp left
    rw [List.mem_cons, not_or]
    exact ⟨kept.1, sound.fresh_new other (by rw [pending]; exact kept.2)⟩
  · change _ :: watcher.dispatchers = _
    rw [sound.dispatched]
    rfl
  · intro other
    change (watcher.controls.set queue _).get other ≠ none ↔ other ∈ queue :: watcher.tracked
    by_cases same : other = queue
    · simp [same]
    · rw [SparseMap.get_set_of_ne _ _ same, List.mem_cons, sound.has_control other]
      exact ⟨Or.inr, fun tracked => tracked.resolve_left same⟩
  · intro other held
    exact List.mem_cons_of_mem _ (sound.permitted other held)
  · intro other control present
    change (watcher.controls.set queue _).get other = some control at present
    by_cases same : other = queue
    · subst same
      rw [SparseMap.get_set_self] at present
      cases present
      have none_held : watcher.permits.count other = 0 := by
        rw [List.count_eq_zero]
        exact fun held => new (sound.permitted other held)
      exact ⟨none_held, List.lookup_cons_self, limit, List.mem_cons_self, Nat.zero_le _⟩
    · rw [SparseMap.get_set_of_ne _ _ same] at present
      obtain ⟨kept, latest, earlier, listed, below⟩ := sound.controlled other control present
      exact ⟨kept, (lookup_cons_of_ne _ _ same).trans latest, earlier,
        List.mem_cons_of_mem _ listed, below⟩

theorem WatcherSound.configure (sound : WatcherSound config own limits watcher)
    {queue : String} {control : QueueControl} (stored : watcher.controls.get queue = some control)
    (runtime : QueueRuntimeConfig) {limit : Nat} (effective : runtime.concurrency = some limit) :
    WatcherSound config own ((queue, limit) :: limits)
      (watcher.setControl queue (control.applyConfig runtime)) := by
  obtain ⟨held, _, earlier, listed, below⟩ := sound.controlled queue control stored
  refine sound.recontrol stored (fun _ _ => rfl) held
    (fun other different => lookup_cons_of_ne _ _ different)
    (fun entry member => List.mem_cons_of_mem _ member) ?_
    ⟨earlier, List.mem_cons_of_mem _ listed, below⟩
  rw [List.lookup_cons_self, QueueControl.applyConfig, effective]
  rfl

theorem WatcherSound.acquire (sound : WatcherSound config own limits watcher)
    {queue : String} {control granted : QueueControl}
    (stored : watcher.controls.get queue = some control)
    (free : control.acquire = some granted) :
    WatcherSound config own limits
      { watcher.setControl queue granted with permits := queue :: watcher.permits } := by
  obtain ⟨held, last, _⟩ := sound.controlled queue control stored
  obtain ⟨room, rfl⟩ := QueueControl.acquire_eq_some free
  refine sound.recontrol stored ?_ ?_ (fun _ _ => rfl) (fun _ member => member) last
    ⟨control.concurrency, List.mem_of_lookup_eq_some last, room⟩
  · intro other different
    exact List.count_cons_of_ne (Ne.symm different)
  · rw [List.count_cons_self, held]

theorem WatcherSound.release (sound : WatcherSound config own limits watcher)
    {queue : String} {control : QueueControl} (stored : watcher.controls.get queue = some control) :
    WatcherSound config own limits
      { watcher.setControl queue control.release with
        permits := watcher.permits.erase queue } := by
  obtain ⟨held, last, limit, listed, below⟩ := sound.controlled queue control stored
  refine sound.recontrol stored ?_ ?_ (fun _ _ => rfl) (fun _ member => member) last
    ⟨limit, listed, (Nat.sub_le _ _).trans below⟩
  · intro other different
    exact List.count_erase_of_ne different
  · rw [List.count_erase_self, held]
    rfl

theorem WatcherSound.step (sound : WatcherSound config own limits watcher) {event : WatcherEvent}
    (scans : ∀ store, event = .scan store →
      ∀ queue ∈ config.allQueues storage store, own queue)
    (stepped : watcher.step storage config event = some next) :
    WatcherSound config own ((event.limit config).toList ++ limits) next := by
  cases event with
  | scan store =>
      simp only [QueueWatcher.step] at stepped
      split at stepped
      · cases stepped
        have found : ∀ queue, queue ∈ (config.allQueues storage store).dedup.filter
            (fun queue => queue ∉ watcher.tracked) →
              queue ∈ config.allQueues storage store ∧ queue ∉ watcher.tracked := by
          intro queue member
          simpa using List.mem_filter.mp member
        exact sound.restage _ (fun queue member => scans store rfl queue (found queue member).1)
          ((List.nodup_dedup _).filter _) (fun queue member => (found queue member).2)
      · cases stepped
  | track queue first second =>
      simp only [QueueWatcher.step] at stepped
      split at stepped
      · rename_i fresh stage
        split at stepped
        · rename_i member
          cases stepped
          exact sound.track stage member _ rfl
        · cases stepped
      · cases stepped
  | rest cancelled =>
      have bare : ∀ stage : WatcherStage, stage.fresh = [] →
          WatcherSound config own limits { watcher with stage := stage } := by
        intro stage empty
        apply sound.restage stage <;> simp [empty]
      simp only [QueueWatcher.step] at stepped
      split at stepped
      · cases stepped
        apply bare
        cases cancelled <;> rfl
      · cases stepped
        exact bare _ rfl
      · cases stepped
  | exit =>
      cases stepped
      apply sound.restage <;> simp [WatcherStage.fresh]
  | configure queue first second =>
      simp only [QueueWatcher.step] at stepped
      split at stepped
      · rename_i control stored
        cases stepped
        exact sound.configure stored _ rfl
      · cases stepped
  | acquire queue =>
      simp only [QueueWatcher.step] at stepped
      split at stepped
      · rename_i control stored
        obtain ⟨granted, free, rfl⟩ := Option.map_eq_some_iff.mp stepped
        exact sound.acquire stored free
      · cases stepped
  | release queue =>
      simp only [QueueWatcher.step] at stepped
      split at stepped
      · rename_i control stored
        split at stepped
        · cases stepped
          exact sound.release stored
        · cases stepped
      · cases stepped

/-! The watchers of a process. -/

structure WatchEntry (queues : Config) where
  watcher : Fin queues.queues.length
  event : WatcherEvent

abbrev Watchers (queues : Config) := Fin queues.queues.length → QueueWatcher

variable {queues : Config} {trace : List (WatchEntry queues)} {watchers : Watchers queues}

def watchRun (storage : StorageInternal) (queues : Config) :
    List (WatchEntry queues) → Option (Watchers queues)
  | [] => some fun _ => .start
  | entry :: earlier => do
      let watchers ← watchRun storage queues earlier
      let next ← (watchers entry.watcher).step storage (queues.queues.get entry.watcher)
        entry.event
      pure (Function.update watchers entry.watcher next)

def limitsOf (trace : List (WatchEntry queues)) (watcher : Fin queues.queues.length) :
    List (String × Nat) :=
  trace.flatMap fun entry =>
    if entry.watcher = watcher then
      (entry.event.limit (queues.queues.get entry.watcher)).toList
    else []

/-- No queue is covered by two registered configurations. -/
def Config.Apart (storage : StorageInternal) (queues : Config) : Prop :=
  ∀ left right, left ≠ right → ∀ queue, (queues.queues.get left).covers storage queue = true →
    (queues.queues.get right).covers storage queue = false

theorem Config.Apart.unique (apart : queues.Apart storage)
    {left right : Fin queues.queues.length} {queue : String}
    (first : (queues.queues.get left).covers storage queue = true)
    (second : (queues.queues.get right).covers storage queue = true) : left = right := by
  by_contra different
  rw [apart left right different queue first] at second
  cases second

def Covered (storage : StorageInternal) (queues : Config) (watcher : Fin queues.queues.length)
    (queue : String) : Prop :=
  (queues.queues.get watcher).covers storage queue = true

theorem watchRun_cons {entry : WatchEntry queues}
    (ran : watchRun storage queues (entry :: trace) = some watchers) :
    ∃ before next, watchRun storage queues trace = some before ∧
      (before entry.watcher).step storage (queues.queues.get entry.watcher) entry.event =
        some next ∧ watchers = Function.update before entry.watcher next := by
  simp only [watchRun, Option.bind_eq_bind, Option.bind_eq_some_iff, Option.pure_def,
    Option.some.injEq] at ran
  obtain ⟨before, ranBefore, next, stepped, rfl⟩ := ran
  exact ⟨before, next, ranBefore, stepped, rfl⟩

theorem watchRun_step {watcher : Fin queues.queues.length} {event : WatcherEvent}
    {next : QueueWatcher} (ran : watchRun storage queues trace = some watchers)
    (stepped : (watchers watcher).step storage (queues.queues.get watcher) event = some next) :
    watchRun storage queues (⟨watcher, event⟩ :: trace) =
      some (Function.update watchers watcher next) := by
  rw [watchRun, ran]
  exact congrArg (Option.bind · fun next => some (Function.update watchers watcher next)) stepped

theorem watchRun_sound (ran : watchRun storage queues trace = some watchers)
    (watcher : Fin queues.queues.length) :
    WatcherSound (queues.queues.get watcher) (Covered storage queues watcher)
      (limitsOf trace watcher) (watchers watcher) := by
  induction trace generalizing watchers with
  | nil =>
      cases ran
      exact watcherSound_start
  | cons entry earlier ih =>
      obtain ⟨before, next, ranBefore, stepped, rfl⟩ := watchRun_cons ran
      have sound := ih ranBefore
      by_cases same : watcher = entry.watcher
      · subst same
        rw [Function.update_self]
        have limits : limitsOf (entry :: earlier) entry.watcher =
            (entry.event.limit (queues.queues.get entry.watcher)).toList ++
              limitsOf earlier entry.watcher := by
          simp [limitsOf]
        rw [limits]
        exact sound.step (fun _ _ _ found => QueueConfig.covers_of_found found) stepped
      · rw [Function.update_of_ne same]
        have limits : limitsOf (entry :: earlier) watcher = limitsOf earlier watcher := by
          simp [limitsOf, Ne.symm same]
        rw [limits]
        exact sound

/-! Runs that lower no limit below the permits held. -/

def KeepsPermits (storage : StorageInternal) : List (WatchEntry queues) → Prop
  | [] => True
  | entry :: earlier => KeepsPermits storage earlier ∧
      ∀ watchers, watchRun storage queues earlier = some watchers → ∀ queue limit,
        entry.event.limit (queues.queues.get entry.watcher) = some (queue, limit) →
          (watchers entry.watcher).permits.count queue ≤ limit

theorem within_step {event : WatcherEvent}
    (sound : WatcherSound config own limits watcher)
    (stepped : watcher.step storage config event = some next)
    (kept : ∀ queue limit, event.limit config = some (queue, limit) →
      watcher.permits.count queue ≤ limit)
    (before : ∀ queue control, watcher.controls.get queue = some control →
      control.active ≤ control.concurrency) {queue : String} {control : QueueControl}
    (stored : next.controls.get queue = some control) : control.active ≤ control.concurrency := by
  -- What a step stores for one queue, and what it leaves for the others.
  have replaced : ∀ (target : String) (changed : QueueControl),
      (watcher.controls.set target (some changed)).get queue = some control →
        changed.active ≤ changed.concurrency → control.active ≤ control.concurrency := by
    intro target changed found within
    rw [SparseMap.get_set] at found
    split at found
    · cases found
      exact within
    · exact before queue control found
  cases event with
  | scan store =>
      simp only [QueueWatcher.step] at stepped
      split at stepped
      · cases stepped
        exact before queue control stored
      · cases stepped
  | track target first second =>
      simp only [QueueWatcher.step] at stepped
      split at stepped
      · rename_i fresh stage
        split at stepped
        · rename_i member
          cases stepped
          have new : target ∉ watcher.tracked :=
            sound.fresh_new target (by rw [stage]; exact member)
          have absent : watcher.controls.get target = none := by
            by_contra present
            exact new ((sound.has_control target).mp present)
          refine replaced target _ stored ?_
          simp [QueueWatcher.getOrCreate, absent, QueueControl.new, QueueControl.applyConfig]
        · cases stepped
      · cases stepped
  | rest cancelled =>
      simp only [QueueWatcher.step] at stepped
      split at stepped
      · cases stepped
        exact before queue control stored
      · cases stepped
        exact before queue control stored
      · cases stepped
  | exit =>
      cases stepped
      exact before queue control stored
  | configure target first second =>
      simp only [QueueWatcher.step] at stepped
      split at stepped
      · rename_i old found
        cases stepped
        refine replaced target _ stored ?_
        have room := kept target _ rfl
        rw [(sound.controlled target old found).held] at room
        exact room
      · cases stepped
  | acquire target =>
      simp only [QueueWatcher.step] at stepped
      split at stepped
      · rename_i old found
        obtain ⟨granted, free, rfl⟩ := Option.map_eq_some_iff.mp stepped
        obtain ⟨room, rfl⟩ := QueueControl.acquire_eq_some free
        exact replaced target _ stored room
      · cases stepped
  | release target =>
      simp only [QueueWatcher.step] at stepped
      split at stepped
      · rename_i old found
        split at stepped
        · cases stepped
          exact replaced target _ stored ((Nat.sub_le _ _).trans (before target old found))
        · cases stepped
      · cases stepped

theorem within_run (ran : watchRun storage queues trace = some watchers)
    (kept : KeepsPermits storage trace) (watcher : Fin queues.queues.length) {queue : String}
    {control : QueueControl} (stored : (watchers watcher).controls.get queue = some control) :
    control.active ≤ control.concurrency := by
  induction trace generalizing watchers watcher queue control with
  | nil =>
      cases ran
      cases stored
  | cons entry earlier ih =>
      obtain ⟨before, next, ranBefore, stepped, rfl⟩ := watchRun_cons ran
      by_cases same : watcher = entry.watcher
      · subst same
        rw [Function.update_self] at stored
        exact within_step (watchRun_sound ranBefore entry.watcher) stepped
          (kept.2 before ranBefore)
          (fun queue control found => ih ranBefore kept.1 entry.watcher found) stored
      · rw [Function.update_of_ne same] at stored
        exact ih ranBefore kept.1 watcher stored

/-! Isolation. -/

def heldPermits (watchers : Watchers queues) (queue : String) : Nat :=
  ∑ watcher, (watchers watcher).permits.count queue

def dispatcherCount (watchers : Watchers queues) (queue : String) : Nat :=
  ∑ watcher, (watchers watcher).dispatchers.countP fun dispatcher => dispatcher.queueKey = queue

def controlCount (watchers : Watchers queues) (queue : String) : Nat :=
  ∑ watcher, if (watchers watcher).controls.get queue = none then 0 else 1

/-- The permits of a queue count against the control of its own configuration, and more of
them than the last limit put on the queue are held only below an earlier one. -/
structure PermitsBounded (trace : List (WatchEntry queues)) (watchers : Watchers queues)
    (watcher : Fin queues.queues.length) (queue : String) (control : QueueControl) : Prop where
  counted : heldPermits watchers queue = control.active
  latest : (limitsOf trace watcher).lookup queue = some control.concurrency
  bounded : ∃ limit, (queue, limit) ∈ limitsOf trace watcher ∧ heldPermits watchers queue ≤ limit
  fixed : ∀ limit, (queues.queues.get watcher).concurrency = .fixed limit →
    control.concurrency = limit ∧ heldPermits watchers queue ≤ limit
  granted : ∀ next, control.acquire = some next →
    heldPermits watchers queue < control.concurrency

structure Isolated (storage : StorageInternal) (trace : List (WatchEntry queues))
    (watchers : Watchers queues) : Prop where
  disjoint : ∀ left right, left ≠ right →
    (watchers left).tracked.Disjoint (watchers right).tracked
  one_dispatcher : ∀ queue, dispatcherCount watchers queue ≤ 1
  one_control : ∀ queue, controlCount watchers queue ≤ 1
  permits : ∀ watcher queue control, (watchers watcher).controls.get queue = some control →
    PermitsBounded trace watchers watcher queue control
  own_config : ∀ watcher, ∀ dispatcher ∈ (watchers watcher).dispatchers,
    dispatcher.queueConfig = queues.queues.get watcher ∧
      dispatcher.queueConfig.covers storage dispatcher.queueKey = true

theorem sum_le_one {count : Fin queues.queues.length → Nat} (small : ∀ watcher, count watcher ≤ 1)
    (unique : ∀ left right, count left ≠ 0 → count right ≠ 0 → left = right) :
    ∑ watcher, count watcher ≤ 1 := by
  by_cases any : ∃ watcher, count watcher ≠ 0
  · obtain ⟨watcher, filled⟩ := any
    have alone : ∑ other, count other = count watcher := by
      apply Finset.sum_eq_single watcher
      · intro other _ different
        by_contra present
        exact different (unique other watcher present filled)
      · intro missing
        exact absurd (Finset.mem_univ _) missing
    rw [alone]
    exact small watcher
  · push Not at any
    simp [any]

theorem limit_of_fixed {watcher : Fin queues.queues.length} {queue : String} {limit fixed : Nat}
    (kind : (queues.queues.get watcher).concurrency = .fixed fixed)
    (listed : (queue, limit) ∈ limitsOf trace watcher) : limit = fixed := by
  obtain ⟨entry, _, applied⟩ := List.mem_flatMap.mp listed
  split at applied
  · rename_i same
    subst same
    rw [Option.mem_toList] at applied
    unfold WatcherEvent.limit at applied
    split at applied
    · rw [kind] at applied
      simpa [QueueConcurrency.effective, eq_comm] using (Prod.mk.inj (Option.some.inj applied)).2
    · rw [kind] at applied
      simpa [QueueConcurrency.effective, eq_comm] using (Prod.mk.inj (Option.some.inj applied)).2
    · cases applied
  · cases applied

theorem permitsBounded_of_sound (apart : queues.Apart storage)
    (sound : ∀ watcher, WatcherSound (queues.queues.get watcher) (Covered storage queues watcher)
      (limitsOf trace watcher) (watchers watcher))
    {watcher : Fin queues.queues.length} {queue : String} {control : QueueControl}
    (stored : (watchers watcher).controls.get queue = some control) :
    PermitsBounded trace watchers watcher queue control := by
  have tracked : queue ∈ (watchers watcher).tracked :=
    ((sound watcher).has_control queue).mp (by rw [stored]; exact Option.some_ne_none _)
  obtain ⟨held, last, limit, listed, below⟩ := (sound watcher).controlled queue control stored
  -- Only the watcher that tracks the queue has permits of it.
  have counted : heldPermits watchers queue = control.active := by
    rw [← held]
    apply Finset.sum_eq_single watcher
    · intro other _ different
      rw [List.count_eq_zero]
      intro present
      exact different (apart.unique
        ((sound other).tracked_own queue ((sound other).permitted queue present))
        ((sound watcher).tracked_own queue tracked))
    · intro missing
      exact absurd (Finset.mem_univ _) missing
  refine ⟨counted, last, ⟨limit, listed, counted.trans_le below⟩, ?_, ?_⟩
  · intro fixed kind
    rw [limit_of_fixed kind listed] at below
    exact ⟨limit_of_fixed kind (List.mem_of_lookup_eq_some last), counted.trans_le below⟩
  · intro next free
    rw [counted]
    exact (QueueControl.acquire_eq_some free).1

theorem isolated_of_apart (apart : queues.Apart storage)
    (ran : watchRun storage queues trace = some watchers) : Isolated storage trace watchers := by
  have sound := watchRun_sound ran
  have unique : ∀ left right queue, queue ∈ (watchers left).tracked →
      queue ∈ (watchers right).tracked → left = right := by
    intro left right queue first second
    exact apart.unique ((sound left).tracked_own queue first) ((sound right).tracked_own queue second)
  have dispatched : ∀ watcher queue,
      (watchers watcher).dispatchers.countP (fun dispatcher => dispatcher.queueKey = queue) =
        (watchers watcher).tracked.count queue := by
    intro watcher queue
    rw [(sound watcher).dispatched, List.countP_map, List.count_eq_countP]
    rfl
  constructor
  · intro left right different queue first second
    exact different (unique left right queue first second)
  · intro queue
    apply sum_le_one
    · intro watcher
      rw [dispatched]
      exact List.nodup_iff_count_le_one.mp (sound watcher).tracked_once queue
    · intro left right first second
      rw [dispatched] at first second
      exact unique left right queue (List.count_pos_iff.mp (Nat.pos_of_ne_zero first))
        (List.count_pos_iff.mp (Nat.pos_of_ne_zero second))
  · intro queue
    apply sum_le_one
    · intro watcher
      split <;> omega
    · intro left right first second
      have present : ∀ watcher, (if (watchers watcher).controls.get queue = none then 0 else 1) ≠ 0 →
          queue ∈ (watchers watcher).tracked := by
        intro watcher counted
        apply ((sound watcher).has_control queue).mp
        intro absent
        rw [if_pos absent] at counted
        exact counted rfl
      exact unique left right queue (present left first) (present right second)
  · intro watcher queue control stored
    exact permitsBounded_of_sound apart sound stored
  · intro watcher dispatcher member
    rw [(sound watcher).dispatched] at member
    obtain ⟨queue, tracked, rfl⟩ := List.mem_map.mp member
    exact ⟨rfl, (sound watcher).tracked_own queue tracked⟩

theorem tracks_found (ran : watchRun storage queues trace = some watchers)
    {watcher : Fin queues.queues.length} (fresh : watchers watcher = .start) {store : Store}
    {queue : String} (found : queue ∈ (queues.queues.get watcher).allQueues storage (some store)) :
    ∃ next, watchRun storage queues (⟨watcher, .track queue (fun _ => none) fun _ => none⟩ ::
        ⟨watcher, .scan (some store)⟩ :: trace) = some next ∧
      queue ∈ (next watcher).tracked ∧ ∀ other, other ≠ watcher → next other = watchers other := by
  let listed := ((queues.queues.get watcher).allQueues storage (some store)).dedup.filter
    fun queue => queue ∉ (watchers watcher).tracked
  have member : queue ∈ listed := by
    refine List.mem_filter.mpr ⟨List.mem_dedup.mpr found, ?_⟩
    rw [fresh]
    rfl
  let searched : QueueWatcher := { watchers watcher with stage := .tracking listed }
  have scans : (watchers watcher).step storage (queues.queues.get watcher) (.scan (some store)) =
      some searched := by
    have stage : (watchers watcher).stage = .searching := by rw [fresh]; rfl
    simp only [QueueWatcher.step, stage, searched, listed]
  have tracks : (Function.update watchers watcher searched watcher).step storage
      (queues.queues.get watcher) (.track queue (fun _ => none) fun _ => none) =
        some (searched.track (queues.queues.get watcher) (listed.erase queue) queue
          ((queues.queues.get watcher).runtimeConfig queue (fun _ => none) fun _ => none)) := by
    rw [Function.update_self]
    exact if_pos member
  refine ⟨_, watchRun_step (watchRun_step ran scans) tracks, ?_, ?_⟩
  · rw [Function.update_self]
    exact List.mem_cons_self
  · intro other different
    rw [Function.update_of_ne different]
    exact Function.update_of_ne different _ _

theorem apart_of_isolated (isolated : ∀ (trace : List (WatchEntry queues)) watchers,
    watchRun storage queues trace = some watchers → Isolated storage trace watchers) :
    queues.Apart storage := by
  intro left right different queue first
  by_contra second
  have covered : (queues.queues.get right).covers storage queue = true := by simpa using second
  -- One job in the list of the queue: both watchers find it.
  let store := Store.empty.withList (storage.queueKey queue) ["job"]
  have filled : store.lists.get (storage.queueKey queue) ≠ [] := by
    have job : store.lists.get (storage.queueKey queue) = ["job"] := SparseMap.get_set_self _ _ _
    rw [job]
    exact List.cons_ne_nil _ _
  obtain ⟨middle, ranFirst, tracked, same⟩ := @tracks_found storage queues [] _ rfl left rfl store
    queue (QueueConfig.found_of_covers filled first)
  obtain ⟨last, ran, also, kept⟩ := tracks_found ranFirst (same right (Ne.symm different))
    (QueueConfig.found_of_covers filled covered)
  have disjoint := (isolated _ last ran).disjoint left right different
  rw [kept left different] at disjoint
  exact disjoint tracked also

/-! Names that are apart. -/

/-- The namespace and the prefixes have no letter with a meaning in a pattern, and no prefix
starts with the namespace. -/
structure Config.Plain (storage : StorageInternal) (queues : Config) : Prop where
  names : Literal storage.keys.namespaceName
  prefixes : ∀ watcher start interval,
    (queues.queues.get watcher).kind = .dynamic start interval →
      Literal start ∧ startsWith start storage.keys.namespaceName = false

structure Config.NamesApart (queues : Config) : Prop where
  keys : ∀ left right key start interval, (queues.queues.get left).kind = .static key →
    (queues.queues.get right).kind = .dynamic start interval → startsWith key start = false
  prefixes : ∀ left right, left ≠ right → ∀ first second interval other,
    (queues.queues.get left).kind = .dynamic first interval →
      (queues.queues.get right).kind = .dynamic second other → startsWith first second = false

theorem covers_dynamic (plain : queues.Plain storage) {watcher : Fin queues.queues.length}
    {start queue : String} {interval : Nat}
    (kind : (queues.queues.get watcher).kind = .dynamic start interval) :
    (queues.queues.get watcher).covers storage queue = true ↔ startsWith queue start = true := by
  obtain ⟨literal, outside⟩ := plain.prefixes watcher start interval kind
  unfold QueueConfig.covers
  rw [kind]
  exact discovers_iff_starts plain.names literal outside

theorem covers_static {watcher : Fin queues.queues.length} {key queue : String}
    (kind : (queues.queues.get watcher).kind = .static key) :
    (queues.queues.get watcher).covers storage queue = true ↔ queue = key := by
  unfold QueueConfig.covers
  rw [kind]
  exact beq_iff_eq

theorem startsWith_self (text : String) : startsWith text text = true :=
  startsWith_iff.mpr ⟨"", String.append_empty.symm⟩

theorem names_of_apart (plain : queues.Plain storage) (apart : queues.Apart storage) :
    queues.NamesApart := by
  constructor
  · intro left right key start interval first second
    by_contra starts
    have same := apart.unique ((covers_static first).mpr rfl)
      ((covers_dynamic plain second).mpr (by simpa using starts))
    rw [same, second] at first
    cases first
  · intro left right different first second interval other firstKind secondKind
    by_contra starts
    exact different (apart.unique ((covers_dynamic plain firstKind).mpr (startsWith_self first))
      ((covers_dynamic plain secondKind).mpr (by simpa using starts)))

theorem apart_of_names (plain : queues.Plain storage) (names : queues.NamesApart) :
    queues.Apart storage := by
  intro left right different queue first
  by_contra covered
  have second : (queues.queues.get right).covers storage queue = true := by simpa using covered
  cases firstKind : (queues.queues.get left).kind with
  | static key =>
      have named := (covers_static firstKind).mp first
      cases secondKind : (queues.queues.get right).kind with
      | static other =>
          have renamed := (covers_static secondKind).mp second
          rw [← named] at firstKind
          rw [← renamed] at secondKind
          exact different (queues.static_unique firstKind secondKind)
      | dynamic start interval =>
          have starts := (covers_dynamic plain secondKind).mp second
          rw [named, names.keys left right key start interval firstKind secondKind] at starts
          cases starts
  | dynamic start interval =>
      have starts := (covers_dynamic plain firstKind).mp first
      cases secondKind : (queues.queues.get right).kind with
      | static key =>
          rw [(covers_static secondKind).mp second,
            names.keys right left key start interval secondKind firstKind] at starts
          cases starts
      | dynamic other pause =>
          have begins := (covers_dynamic plain secondKind).mp second
          obtain ⟨rest, rfl⟩ := startsWith_iff.mp starts
          -- Two beginnings of one name: one of them starts with the other.
          rcases startsWith_or begins with inside | around
          · rw [names.prefixes left right different _ _ _ _ firstKind secondKind] at inside
            cases inside
          · rw [names.prefixes right left (Ne.symm different) _ _ _ _ secondKind firstKind] at around
            cases around

/-- The queues are isolated in every run exactly if no queue is covered by two configurations,
which for plain names is a condition on the names; the permits held then stay within every
limit that was not put on the queue below them. -/
theorem queues_isolated (storage : StorageInternal) (queues : Config) :
    ((∀ (trace : List (WatchEntry queues)) watchers,
        watchRun storage queues trace = some watchers → Isolated storage trace watchers) ↔
      queues.Apart storage) ∧
    (queues.Plain storage → (queues.Apart storage ↔ queues.NamesApart)) ∧
    (queues.Apart storage → ∀ (trace : List (WatchEntry queues)) watchers,
      watchRun storage queues trace = some watchers → KeepsPermits storage trace →
        ∀ watcher queue control, (watchers watcher).controls.get queue = some control →
          heldPermits watchers queue ≤ control.concurrency) := by
  refine ⟨⟨apart_of_isolated, fun apart _ _ ran => isolated_of_apart apart ran⟩, ?_, ?_⟩
  · exact fun plain => ⟨names_of_apart plain, apart_of_names plain⟩
  · intro apart trace watchers ran kept watcher queue control stored
    have permits := (isolated_of_apart apart ran).permits watcher queue control stored
    rw [permits.counted]
    exact within_run ran kept watcher stored

/-! Runs of two watchers. -/

def lowAnd (key : String) (concurrency : QueueConcurrency) : Config :=
  (Config.new.registerQueueWith ⟨.static key, .fixed 1, none⟩).registerDefaultQueue
    ⟨.dynamic "low" 500, concurrency, some ⟨1000, 5⟩⟩

def jobIn (queue : String) : Store :=
  Store.empty.withList ((workerNode 1).namespaceQueue queue) ["job"]

def unset : QueueConfigs := fun _ => none

def loweredTo (limit : Nat) : QueueConfigs := fun _ => some ⟨some limit, .active⟩

def lowFirst (key : String) (concurrency : QueueConcurrency) :
    Fin (lowAnd key concurrency).queues.length :=
  ⟨0, Nat.succ_pos _⟩

def keySecond (key : String) (concurrency : QueueConcurrency) :
    Fin (lowAnd key concurrency).queues.length :=
  ⟨1, Nat.lt_succ_self 1⟩

def lowTrace (key queue : String) (concurrency : QueueConcurrency) :
    List (WatchEntry (lowAnd key concurrency)) :=
  [⟨lowFirst key concurrency, .acquire queue⟩,
    ⟨lowFirst key concurrency, .track queue unset unset⟩,
    ⟨lowFirst key concurrency, .scan (some (jobIn queue))⟩]

theorem lowHigh_plain : (lowAnd "high" (.fixed 1)).Plain (workerNode 1) where
  names := ⟨by decide +kernel, by decide +kernel, by decide +kernel, by decide +kernel⟩
  prefixes := by
    rintro ⟨index, bound⟩ start interval kind
    match index, bound, kind with
    | 0, _, kind =>
        cases kind
        exact ⟨⟨by decide, by decide, by decide, by decide⟩, by decide +kernel⟩
    | 1, _, kind => cases kind

theorem lowHigh_names : (lowAnd "high" (.fixed 1)).NamesApart where
  keys := by
    rintro ⟨left, leftBound⟩ ⟨right, rightBound⟩ key start interval first second
    match left, leftBound, right, rightBound, first, second with
    | 0, _, _, _, first, _ => cases first
    | 1, _, 0, _, first, second =>
        cases first
        cases second
        decide +kernel
    | 1, _, 1, _, _, second => cases second
  prefixes := by
    rintro ⟨left, leftBound⟩ ⟨right, rightBound⟩ different first second interval other one two
    match left, leftBound, right, rightBound, one, two with
    | 0, _, 0, _, _, _ => exact absurd rfl different
    | 0, _, 1, _, _, two => cases two
    | 1, _, _, _, one, _ => cases one

theorem queues_isolated_low :
    ∃ watchers, watchRun (workerNode 1) (lowAnd "high" (.fixed 1))
        (lowTrace "high" "low#1" (.fixed 1)) = some watchers ∧
      heldPermits watchers "low#1" = 1 ∧
      Isolated (workerNode 1) (lowTrace "high" "low#1" (.fixed 1)) watchers := by
  obtain ⟨exactly, names, _⟩ := queues_isolated (workerNode 1) (lowAnd "high" (.fixed 1))
  have apart := (names lowHigh_plain).mpr lowHigh_names
  exact ⟨_, rfl, by decide +kernel, exactly.mpr apart _ _ rfl⟩

/-- Another queue of the prefix is registered by its own key: both watchers track it, and
two dispatchers with different throttles hold two permits where each allows one.  And a
queue keeps the permits it has when its limit is lowered. -/
theorem low_queues_shared :
    (∃ watchers, watchRun (workerNode 1) (lowAnd "low-a" (.fixed 1))
        ([⟨keySecond "low-a" (.fixed 1), .acquire "low-a"⟩,
          ⟨keySecond "low-a" (.fixed 1), .track "low-a" unset unset⟩,
          ⟨keySecond "low-a" (.fixed 1), .scan (some (jobIn "low-a"))⟩] ++
            lowTrace "low-a" "low-a" (.fixed 1)) = some watchers ∧
      "low-a" ∈ (watchers (lowFirst "low-a" (.fixed 1))).tracked ∧
      "low-a" ∈ (watchers (keySecond "low-a" (.fixed 1))).tracked ∧
      dispatcherCount watchers "low-a" = 2 ∧ controlCount watchers "low-a" = 2 ∧
      heldPermits watchers "low-a" = 2) ∧
    ∃ watchers, watchRun (workerNode 1) (lowAnd "high" (.dynamic 2))
        ([⟨lowFirst "high" (.dynamic 2), .configure "low#1" (loweredTo 1) (loweredTo 1)⟩,
          ⟨lowFirst "high" (.dynamic 2), .acquire "low#1"⟩] ++
            lowTrace "high" "low#1" (.dynamic 2)) = some watchers ∧
      heldPermits watchers "low#1" = 2 ∧
      ((watchers (lowFirst "high" (.dynamic 2))).controls.get "low#1").map
        QueueControl.concurrency = some 1 := by
  refine ⟨⟨_, rfl, ?_, ?_, ?_, ?_, ?_⟩, ⟨_, rfl, ?_, ?_⟩⟩ <;> decide +kernel

end Oxana
