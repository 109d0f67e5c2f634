import Oxana.ClusterRevival

/-!
What holds in every state a cluster reaches: each stored job is in one place, and as
long as no replacement meets a job that is being worked on, no job is in two.
-/

namespace Oxana

variable {given : String} {world next : World} {storage : StorageInternal} {action : Action}

def unattended (given : String) (world : World) (envelope : JobEnvelope) : Prop :=
  Unattended given world.store envelope

def neverReplacing (_ : World) (envelope : JobEnvelope) : Prop := ¬envelope.replaces

def anyRevival (_ : World) (_ : JobEnvelope) : Prop := True

theorem unattended_of_neverReplacing (given : String) (world : World) (envelope : JobEnvelope)
    (skips : neverReplacing world envelope) : unattended given world envelope :=
  fun replaces => absurd replaces skips

theorem Sound.memory_held {id : JobId} (sound : Sound given world) {processId : String}
    (loaded : (world.memory processId id).isSome = true) :
    ∃ envelope, world.memory processId id = some envelope ∧
      Held given world processId id envelope := by
  obtain ⟨envelope, found⟩ := Option.isSome_iff_exists.mp loaded
  exact ⟨envelope, found, sound.held processId id envelope found⟩

theorem Sound.enqueueWith (sound : Sound storage.given world) {envelope : JobEnvelope}
    (permitted : Offered storage.given world envelope ∧ unattended storage.given world envelope) :
    Sound storage.given (world.issue envelope) ∧
      Ready storage.given (world.issue envelope).issued (world.issue envelope).store.dead
        (world.issue envelope).store envelope :=
  ⟨sound.issue permitted.1, sound.ready permitted.1 permitted.2⟩

theorem perform_sound (sound : Sound storage.given world)
    (permitted : Permitted storage.given (unattended storage.given) (unattended storage.given)
      storage world action) :
    Sound storage.given (perform storage world action) := by
  cases action with
  | start => exact sound.start _
  | stop => exact sound.stop _
  | ping now => exact sound.ping storage now
  | enqueue envelope =>
      obtain ⟨issued, ready⟩ := sound.enqueueWith permitted
      exact issued.apply_enqueue ready .queue
  | enqueueAt now envelope =>
      obtain ⟨issued, ready⟩ := sound.enqueueWith permitted
      exact issued.enqueueAt ready now
  | enqueueIn now stamped checked envelope delay =>
      obtain ⟨issued, ready⟩ := sound.enqueueWith permitted
      exact issued.enqueueIn ready now stamped checked delay
  | dequeue queue => exact sound.dequeue permitted.2
  | load id => exact sound.load permitted.1 permitted.2
  | setStartedAt id shouldResume now =>
      obtain ⟨envelope, found, held⟩ := sound.memory_held permitted
      simp only [perform, found]
      apply sound.setStartedAt
      unfold prepared
      split
      · exact held
      · exact ⟨held.running, held.own, held.issued, held.holding⟩
  | updateState id state =>
      obtain ⟨envelope, _, held⟩ := sound.memory_held permitted
      exact sound.updateState held state
  | finishWithSuccess id =>
      obtain ⟨envelope, found, held⟩ := sound.memory_held permitted
      simp only [perform, found]
      exact sound.finishWithSuccess held
  | handleErr id now message delay maxRetries =>
      obtain ⟨envelope, found, held⟩ := sound.memory_held permitted
      simp only [perform, found]
      by_cases retriesLeft : envelope.metadata.retries < maxRetries
      · exact sound.handleErr_retry held now message delay maxRetries retriesLeft
      · exact sound.handleErr_kill held now message delay maxRetries retriesLeft
  | enqueueScheduled now name =>
      exact sound.promote (storage.enqueueScheduled_sends now name)
        (sound.placement.enqueueScheduled now name)
  | retryAllNow => exact sound.promote storage.retryAllNow_sends sound.placement.retryAllNow
  | wipeQueue queue => exact sound.wipeQueue permitted
  | reviveAllDead uuid => exact sound.reviveAllDead uuid permitted
  | resurrect bound now threshold => exact sound.resurrect bound now threshold permitted

theorem step_sound (sound : Sound given world)
    (step : Step given (unattended given) (unattended given) world next) : Sound given next := by
  obtain ⟨storage, action, rfl, permitted, rfl⟩ := step
  exact perform_sound sound permitted

theorem reachable_sound (reachable : Reachable given (unattended given) (unattended given) world) :
    Sound given world := by
  induction reachable with
  | refl => exact initial_sound given
  | tail _ step sound => exact step_sound sound step

/-! Runs without replacements: what is dead was enqueued, so no revival replaces either. -/

theorem replaces_of_identity {one two : JobEnvelope} (same : one.identity = two.identity)
    (replaces : one.replaces) : two.replaces :=
  ⟨(congrArg Identity.unique same).symm.trans replaces.1,
    (congrArg Identity.onConflict same).symm.trans replaces.2⟩

structure SoundUnreplaced (given : String) (world : World) : Prop where
  sound : Sound given world
  skips : ∀ envelope : JobEnvelope, envelope.identity ∈ world.issued → ¬envelope.replaces

theorem SoundUnreplaced.dead (unreplaced : SoundUnreplaced given world) (envelope : JobEnvelope)
    (member : .json envelope ∈ world.store.dead) : ¬envelope.replaces := by
  obtain ⟨buried, same, issued⟩ := unreplaced.sound.buried.decodes _ member
  cases same
  exact unreplaced.skips envelope issued

theorem SoundUnreplaced.step (unreplaced : SoundUnreplaced given world)
    (step : Step given neverReplacing anyRevival world next) : SoundUnreplaced given next := by
  obtain ⟨storage, action, rfl, permitted, rfl⟩ := step
  constructor
  · refine perform_sound unreplaced.sound (permitted.mono ?_ ?_)
    · exact unattended_of_neverReplacing storage.given world
    · intro envelope member _ replaces
      exact absurd replaces (unreplaced.dead envelope member)
  · intro envelope issued
    rcases permitted.issued issued with earlier | ⟨offered, skips, same⟩
    · exact unreplaced.skips envelope earlier
    · exact fun replaces => skips (replaces_of_identity same.symm replaces)

theorem reachable_unreplaced (reachable : Reachable given neverReplacing anyRevival world) :
    SoundUnreplaced given world := by
  induction reachable with
  | refl =>
      refine ⟨initial_sound given, ?_⟩
      intro envelope issued
      cases issued
  | tail _ step unreplaced => exact unreplaced.step step

/-- Where a job is: stored jobs are in exactly one list or sorted set, others in none;
a job in a list is with a process or in the queue of its envelope; and what a process
works on is in its own processing list. -/
structure PlacedOnce (given : String) (world : World) : Prop where
  stored : ∀ id text, world.store.jobs.get id = some text → world.store.occurrences id = 1
  missing : ∀ id, world.store.jobs.get id = none → world.store.occurrences id = 0
  listed : ∀ key id, id ∈ world.store.lists.get key →
    (∃ processId, key = (StorageKeys.new given).processingQueue processId) ∨
      ∃ envelope, world.store.jobs.get id = some (.json envelope) ∧
        key = (StorageKeys.new given).namespaceQueue envelope.queue
  loaded : ∀ processId id envelope, world.memory processId id = some envelope →
    id ∈ world.store.lists.get ((StorageKeys.new given).processingQueue processId)

/-- Without replacements every stored job is in exactly one place, in every state reached. -/
theorem reachable_placed_once {given : String} {world : World}
    (reachable : Reachable given neverReplacing anyRevival world) : PlacedOnce given world := by
  have sound := (reachable_unreplaced reachable).sound
  refine ⟨?_, ?_, sound.placement.queued, ?_⟩
  · intro id text found
    have counted := sound.placement.placed id
    rw [storedCount_of_some found, List.count_nil] at counted
    omega
  · intro id none
    have counted := sound.placement.placed id
    rw [storedCount_of_none none, List.count_nil] at counted
    omega
  · intro processId id envelope found
    exact (sound.held processId id envelope found).holding.listed

def skippedActions : List (StorageInternal × Action) :=
  [(workerNode 1, .start), (workerNode 1, .enqueue (report .null .skip)),
    (workerNode 1, .dequeue "low"), (workerNode 1, .load "report/7"),
    (workerNode 2, .enqueue (report .null .skip)),
    (workerNode 1, .handleErr "report/7" 5 "failed" 10 3)]

theorem reachable_placed_once_after_retry :
    PlacedOnce "" (runActions World.initial skippedActions) ∧
      (runActions World.initial skippedActions).store.occurrences "report/7" = 1 := by
  have reachable : Reachable "" neverReplacing anyRevival
      (runActions World.initial skippedActions) := by
    refine Reachable.runActions Relation.ReflTransGen.refl ?_
    simp only [PermittedRun, Permitted, skippedActions, neverReplacing]
    decide
  have placed := reachable_placed_once reachable
  exact ⟨placed, placed.stored "report/7" _ rfl⟩

/-! Unique jobs. -/

def isQueueList (given key : String) : Bool := !isProcessingList given key

/-- A job is at most once with the processes, and at most once waiting. -/
def RunsOnce (given : String) (store : Store) (id : JobId) : Prop :=
  store.inLists (isProcessingList given) id ≤ 1 ∧
    store.inLists (isQueueList given) id + store.inDelayed id ≤ 1

/-- When replacements only meet jobs that no process is working on, every job is run by
at most one process and waits in at most one place. -/
theorem reachable_runs_once {given : String} {world : World}
    (reachable : Reachable given (unattended given) (unattended given) world) (id : JobId) :
    RunsOnce given world.store id := by
  have sound := reachable_sound reachable
  have counted := sound.placement.placed id
  have bound := storedCount_le_one world.store id
  have processing := inLists_le_every (isProcessingList given) world.store id
  have waiting := inLists_le_every (isQueueList given) world.store id
  unfold Store.occurrences at counted
  constructor <;> omega

def waitingActions : List (StorageInternal × Action) :=
  [(workerNode 1, .start), (workerNode 1, .enqueue (report .null .skip))]

theorem reachable_runs_once_replaced :
    RunsOnce "" (perform (workerNode 2) (runActions World.initial waitingActions)
      (.enqueue (report (.bool true) .replace))).store "report/7" := by
  have waiting : Reachable "" (unattended "") (unattended "")
      (runActions World.initial waitingActions) := by
    refine Reachable.runActions Relation.ReflTransGen.refl ?_
    refine ⟨⟨rfl, rfl⟩, ⟨rfl, by decide, ?_⟩, trivial⟩
    exact unattended_of_neverReplacing _ _ _ (by decide : ¬(report .null .skip).replaces)
  have idle : unattended "" (runActions World.initial waitingActions)
      (report (.bool true) .replace) := by
    intro _ processId
    have plain : Plain "" "low" := by decide
    have apart := StorageKeys.namespaceQueue_ne_processingQueue "" plain processId
    exact (reachable_sound waiting).placement.not_mem_of_mem apart (by decide)
  exact reachable_runs_once
    (waiting.tail ⟨workerNode 2, .enqueue (report (.bool true) .replace), rfl,
      ⟨by decide, idle⟩, rfl⟩) "report/7"

def replacedActions : List (StorageInternal × Action) :=
  [(workerNode 1, .start), (workerNode 2, .start),
    (workerNode 1, .enqueue (report .null .replace)), (workerNode 1, .dequeue "low"),
    (workerNode 1, .enqueue (report (.bool true) .replace)), (workerNode 2, .dequeue "low")]

/-- A replacement of a running job is picked up while the first instance still runs. -/
theorem replaced_job_runs_twice :
    ¬∀ world, Reachable "" (fun _ _ => True) (fun _ _ => True) world →
      ∀ id, RunsOnce "" world.store id := by
  intro once
  have reachable : Reachable "" (fun _ _ => True) (fun _ _ => True)
      (runActions World.initial replacedActions) := by
    refine Reachable.runActions Relation.ReflTransGen.refl ?_
    simp only [PermittedRun, Permitted, replacedActions]
    decide
  have bound := (once _ reachable "report/7").1
  have apart : (workerNode 1).currentProcessingQueue ≠ (workerNode 2).currentProcessingQueue := by
    decide
  have pair := (runActions World.initial replacedActions).store.lists.pair_le_total
    (listWeight_nil (isProcessingList "") "report/7") apart
  have twice : 2 ≤ (runActions World.initial replacedActions).store.inLists
      (isProcessingList "") "report/7" := le_trans (by decide) pair
  omega

end Oxana
