import Oxana.CronJobs
import Oxana.FailureTolerance

/-!
The cron loops of a process next to its other loops, which count their failures together: a
loop places the occurrences of its schedule one after the other and leaves none out, whatever
fails in between.
-/

namespace Oxana

/-! The loops of a process. -/

inductive ProcessLoop
  | retry
  | schedule
  | cleanup
  | ping
  | resurrect
  | collector
  | dispatcher (queue : String)
  | queueWatcher (base : String)
  | configWatcher (queue : String)
  | cron (jobName : String)
  deriving DecidableEq

/-- `candidate` is the occurrence that is to be enqueued with the clock reading that let it
through; `placed` are those that have been enqueued. -/
structure CronLoopState where
  index : Nat
  previous : Option Int
  candidate : Option (Int × Int)
  placed : List (Int × Int)

def ProcessLoop.State : ProcessLoop → Type
  | .resurrect => Bool
  | .cron _ => CronLoopState
  | _ => Unit

def cronDue (settings : CronSettings) (now : Int) (previous : Option Int) (next : Int) : Prop :=
  next ≤ now + settings.cronLookahead ∧ ∀ time ∈ previous, time ≤ now

section Loops

variable (settings : CronSettings) (cronJob : CronJob) (origin : Int)

def resurrecting : TrackedLoop Bool where
  calls _ := True
  moves _ _ := False
  onSuccess _ := true
  onFailure state := state
  returns cancelled _ := cancelled = true

def CronLoopState.start : CronLoopState where
  index := 0
  previous := none
  candidate := none
  placed := []

def CronLoopState.enqueued (state : CronLoopState) : CronLoopState :=
  match state.candidate with
  | none => state
  | some (next, now) =>
      { index := state.index + 1
        previous := some next
        candidate := none
        placed := state.placed ++ [(next, now)] }

def cronLooping : TrackedLoop CronLoopState where
  calls state := state.candidate.isSome
  moves state next := ∃ occurrence now, state.candidate = none ∧
    cronJob.schedule origin state.index = some occurrence ∧
    cronDue settings now state.previous occurrence ∧
    next = { state with candidate := some (occurrence, now) }
  onSuccess := CronLoopState.enqueued
  onFailure state := state
  returns cancelled state := cancelled = true ∨
    (state.candidate = none ∧ cronJob.schedule origin state.index = none)

end Loops

/-- The loops that the runtime starts; those that end for reasons of their own may end at any
time here. -/
def processLoops (settings : CronSettings) (jobs : String → CronJob) (origins : String → Int) :
    (loop : ProcessLoop) → TrackedLoop loop.State
  | .retry => polling fun cancelled => cancelled = true
  | .schedule => polling fun cancelled => cancelled = true
  | .cleanup => polling fun cancelled => cancelled = true
  | .ping => polling fun _ => True
  | .resurrect => resurrecting
  | .collector => polling fun _ => True
  | .dispatcher _ => polling fun _ => True
  | .queueWatcher _ => polling fun _ => True
  | .configWatcher _ => polling fun _ => True
  | .cron jobName => cronLooping settings (jobs jobName) (origins jobName)

def processStart : (loop : ProcessLoop) → loop.State
  | .resurrect => false
  | .cron _ => .start
  | .retry => ()
  | .schedule => ()
  | .cleanup => ()
  | .ping => ()
  | .collector => ()
  | .dispatcher _ => ()
  | .queueWatcher _ => ()
  | .configWatcher _ => ()

/-! What a cron loop has placed. -/

/-- The occurrences are the first ones of the schedule, in its order; each was let through when
it lay no further ahead than the lookahead, and when the one before it had passed. -/
structure CronPlaced (settings : CronSettings) (cronJob : CronJob) (origin : Int)
    (placed : List (Int × Int)) : Prop where
  occurrences : ∀ index, (known : index < placed.length) →
    cronJob.schedule origin index = some (placed[index]).1
  early : ∀ occurrence ∈ placed, occurrence.1 ≤ occurrence.2 + settings.cronLookahead
  spaced : placed.IsChain fun earlier later => earlier.1 ≤ later.2

section Placed

variable {settings : CronSettings} {cronJob : CronJob} {origin : Int} {placed : List (Int × Int)}

theorem CronPlaced.nil : CronPlaced settings cronJob origin [] where
  occurrences := fun _ impossible => nomatch impossible
  early := List.forall_mem_nil _
  spaced := .nil

theorem CronPlaced.append (own : CronPlaced settings cronJob origin placed) {next now : Int}
    (found : cronJob.schedule origin placed.length = some next)
    (due : cronDue settings now (placed.getLast?.map Prod.fst) next) :
    CronPlaced settings cronJob origin (placed ++ [(next, now)]) where
  occurrences := by
    intro index known
    rw [List.getElem_append]
    split
    · rename_i old
      exact own.occurrences index old
    · rename_i new
      have same : index = placed.length := by
        rw [List.length_append, List.length_singleton] at known
        omega
      simpa [same] using found
  early := by
    intro occurrence member
    rcases List.mem_append.mp member with old | new
    · exact own.early occurrence old
    · rw [List.mem_singleton.mp new]
      exact due.1
  spaced := by
    refine List.isChain_append.mpr ⟨own.spaced, .singleton _, ?_⟩
    intro earlier last later first
    obtain rfl := Option.some.inj first
    exact due.2 earlier.1 (by rw [last]; rfl)

structure CronPlacing (settings : CronSettings) (cronJob : CronJob) (origin : Int)
    (state : CronLoopState) : Prop where
  placed : CronPlaced settings cronJob origin state.placed
  index : state.index = state.placed.length
  previous : state.previous = state.placed.getLast?.map Prod.fst
  candidate : ∀ next now, state.candidate = some (next, now) →
    cronJob.schedule origin state.index = some next ∧ cronDue settings now state.previous next

theorem CronPlacing.start : CronPlacing settings cronJob origin .start where
  placed := .nil
  index := rfl
  previous := rfl
  candidate := fun _ _ impossible => nomatch impossible

theorem CronPlacing.enqueued {state : CronLoopState}
    (sound : CronPlacing settings cronJob origin state)
    (calls : state.candidate.isSome) : CronPlacing settings cronJob origin state.enqueued := by
  obtain ⟨⟨next, now⟩, candidate⟩ := Option.isSome_iff_exists.mp calls
  obtain ⟨found, due⟩ := sound.candidate next now candidate
  unfold CronLoopState.enqueued
  rw [candidate]
  rw [sound.index] at found
  rw [sound.previous] at due
  exact {
    placed := sound.placed.append found due
    index := by simp [sound.index]
    previous := by simp
    candidate := fun _ _ impossible => nomatch impossible }

theorem cronPlacing_invariant :
    LocalInvariant (cronLooping settings cronJob origin) (CronPlacing settings cronJob origin) where
  moves := by
    rintro state _ sound ⟨next, now, _, found, due, rfl⟩
    refine ⟨sound.placed, sound.index, sound.previous, ?_⟩
    intro other reading same
    obtain ⟨rfl, rfl⟩ := Prod.mk.inj (Option.some.inj same)
    exact ⟨found, due⟩
  onSuccess sound calls := sound.enqueued calls
  onFailure sound _ := sound

end Placed

theorem cronPlacing_reached {tolerance : Nat} {settings : CronSettings} {jobs : String → CronJob}
    {origins : String → Int} {run : TrackedRun ProcessLoop ProcessLoop.State}
    (reaches : TrackedReaches tolerance (processLoops settings jobs origins) processStart run)
    (jobName : String) :
    CronPlacing settings (jobs jobName) (origins jobName) (run.loops (.cron jobName)).state ∧
      (run.loops (.cron jobName)).Consistent
        (cronLooping settings (jobs jobName) (origins jobName)) run.cancelled :=
  @TrackedReaches.holds _ _ _ _ (processLoops settings jobs origins) processStart run
    (.cron jobName) (CronPlacing settings (jobs jobName) (origins jobName)) reaches
    cronPlacing_invariant CronPlacing.start

/-! The program of the loop. -/

structure CronEntry where
  occurrence : Int
  now : Int
  created : Int
  checked : Int

def cronPlan (settings : CronSettings) (cronJob : CronJob) (origin : Int) :
    List Int → Option Int → Nat → List CronEntry
  | [], _, _ => []
  | now :: clock, previous, index =>
      match cronJob.schedule origin index with
      | none => []
      | some next =>
          if now + settings.cronLookahead < next then
            cronPlan settings cronJob origin clock previous index
          else if previous.any (fun time => now < time) then
            cronPlan settings cronJob origin clock previous index
          else
            match clock with
            | created :: checked :: later =>
                { occurrence := next, now := now, created := created, checked := checked } ::
                  cronPlan settings cronJob origin later (some next) (index + 1)
            | _ => []

namespace StorageInternal

def enqueuePlan (storage : StorageInternal) (jobName : String) (cronJob : CronJob) :
    List CronEntry → Redis Unit
  | [] => pure ()
  | entry :: rest => do
      let _ ← storage.enqueueAt entry.checked
        (.newCron cronJob.queueKey (cronJobId jobName entry.occurrence) jobName entry.occurrence
          cronJob.resurrect entry.created)
      enqueuePlan storage jobName cronJob rest

end StorageInternal

section Plan

variable {settings : CronSettings} {jobs : String → CronJob} {origins : String → Int}
  {jobName : String} {tolerance : Nat} {run : TrackedRun ProcessLoop ProcessLoop.State}

theorem cronTicks_eq (storage : StorageInternal) (cronJob : CronJob) (origin : Int)
    (clock : List Int) (previous : Option Int) (index : Nat) :
    storage.cronTicks settings jobName cronJob origin clock previous index =
      storage.enqueuePlan jobName cronJob
        (cronPlan settings cronJob origin clock previous index) := by
  fun_induction cronPlan settings cronJob origin clock previous index <;>
    unfold StorageInternal.cronTicks <;> simp_all [StorageInternal.enqueuePlan]

/-- What the program enqueues a loop of the process places in a run without failures. -/
theorem cronPlan_reached (clock : List Int) (previous : Option Int) (index : Nat)
    (placed : List (Int × Int))
    (reaches : TrackedReaches tolerance (processLoops settings jobs origins) processStart run)
    (calm : run.failures = 0)
    (idle : run.loops (.cron jobName) = .running (CronLoopState.mk index previous none placed)) :
    ∃ after state,
      TrackedReaches tolerance (processLoops settings jobs origins) processStart after ∧
      after.loops (.cron jobName) = .running state ∧
      CronLoopState.placed state = placed ++
        (cronPlan settings (jobs jobName) (origins jobName) clock previous index).map
          fun entry => (entry.occurrence, entry.now) := by
  fun_induction cronPlan settings (jobs jobName) (origins jobName) clock previous index
    generalizing placed run with
  | case1 => exact ⟨run, _, reaches, idle, (List.append_nil _).symm⟩
  | case2 => exact ⟨run, _, reaches, idle, (List.append_nil _).symm⟩
  | case3 now clock previous index next found early ih => exact ih placed reaches calm idle
  | case4 now clock previous index next found near early ih => exact ih placed reaches calm idle
  | case5 now previous index next found near passed created checked later ih =>
      have due : cronDue settings now previous next := by
        refine ⟨by omega, ?_⟩
        rintro time rfl
        simpa using passed
      have looked := reaches.move (@TrackedStep.move _ _ _ tolerance
        (processLoops settings jobs origins) run (.cron jobName) _
        (CronLoopState.mk index previous (some (next, now)) placed) idle
        ⟨next, now, rfl, found, due, rfl⟩)
      have enqueued := looked.move (@TrackedStep.succeed _ _ _ tolerance
        (processLoops settings jobs origins) _ (.cron jobName) _ (run.set_self _ _) rfl calm)
      obtain ⟨after, state, reached, stopped, listed⟩ := ih (placed ++ [(next, now)]) enqueued calm
        (TrackedRun.set_self _ _ _)
      refine ⟨after, state, reached, stopped, ?_⟩
      rw [listed, List.map_cons, List.append_assoc, List.singleton_append]
  | case6 => exact ⟨run, _, reaches, idle, (List.append_nil _).symm⟩

theorem cronJobLoop_placed (storage : StorageInternal) (cronJob : CronJob) (now : Int)
    (clock : List Int) :
    ∃ plan, storage.cronJobLoop settings jobName cronJob (now :: clock) =
        storage.enqueuePlan jobName cronJob plan ∧
      CronPlaced settings cronJob (now + settings.cronInitialOffset)
        (plan.map fun entry => (entry.occurrence, entry.now)) := by
  refine ⟨cronPlan settings cronJob (now + settings.cronInitialOffset) clock none 0,
    cronTicks_eq storage cronJob _ clock none 0, ?_⟩
  obtain ⟨after, state, reached, stopped, listed⟩ := @cronPlan_reached settings (fun _ => cronJob)
    (fun _ => now + settings.cronInitialOffset) jobName 0 (.start processStart) clock none 0 []
    .start rfl rfl
  have sound := cronPlacing_reached reached jobName
  rw [stopped] at sound
  rw [List.nil_append] at listed
  rw [← listed]
  exact sound.1.placed

end Plan

/-- In every run of the loops of a process each cron loop has placed the first occurrences of its
schedule, none left out and none before its time, and it only returns because it was cancelled,
because there is none left, or because it met as many failures in a row as are not tolerated. -/
theorem cron_occurrences_placed {tolerance : Nat} {settings : CronSettings}
    {jobs : String → CronJob} {origins : String → Int}
    {run : TrackedRun ProcessLoop ProcessLoop.State}
    (reaches : TrackedReaches tolerance (processLoops settings jobs origins) processStart run)
    (jobName : String) :
    CronPlaced settings (jobs jobName) (origins jobName)
        (LoopStatus.state (σ := CronLoopState) (run.loops (.cron jobName))).placed ∧
      ∀ result state, run.loops (.cron jobName) = .returned result state →
        run.cancelled = true ∨
        (jobs jobName).schedule (origins jobName) (CronLoopState.placed state).length = none ∨
        TooMany tolerance (.cron jobName) run.past := by
  obtain ⟨sound, consistent⟩ := cronPlacing_reached reaches jobName
  refine ⟨sound.placed, ?_⟩
  intro result state ended
  rw [ended] at sound consistent
  match result with
  | .error error =>
      exact .inr (.inr ((loop_gives_up_iff reaches _).mp ⟨error, state, ended⟩))
  | .ok () =>
      obtain ⟨before, returns, cancelled⟩ := consistent
      rcases returns with told | ⟨_, none⟩
      · exact .inl (cancelled told)
      · have index : CronLoopState.index state = (CronLoopState.placed state).length := sound.index
        rw [index] at none
        exact .inr (.inl none)

def hourlyReport : CronJob where
  schedule := fun start index => some (start + 3600000000 * index)
  queueKey := "reports"
  resurrect := true

theorem cron_occurrences_placed_retried :
    ∃ run : TrackedRun ProcessLoop ProcessLoop.State,
      CronPlaced { cronInitialOffset := 0, cronLookahead := 1000000 } hourlyReport 0
          (LoopStatus.state (σ := CronLoopState) (run.loops (.cron "Report"))).placed ∧
        (LoopStatus.state (σ := CronLoopState) (run.loops (.cron "Report"))).placed = [(0, 0)] ∧
        run.past = [.failed .ping, .failed (.cron "Report"), .succeeded (.cron "Report")] := by
  have begun : TrackedReaches 5 (processLoops { cronInitialOffset := 0, cronLookahead := 1000000 }
      (fun _ => hourlyReport) (fun _ => 0)) processStart (.start processStart) := .start
  have due := begun.move (@TrackedStep.move _ _ _ _ _ _ (ProcessLoop.cron "Report") _
    (CronLoopState.mk 0 none (some (0, 0)) []) rfl
    ⟨0, 0, rfl, rfl, ⟨by decide, fun _ impossible => nomatch impossible⟩, rfl⟩)
  have first := due.move (@TrackedStep.tolerate _ _ _ _ _ _ ProcessLoop.ping () rfl trivial rfl)
  have second := first.move (@TrackedStep.tolerate _ _ _ _ _ _ (ProcessLoop.cron "Report") _
    rfl rfl rfl)
  have seen := second.move (@TrackedStep.observe _ _ _ _ _ _ (ProcessLoop.cron "Report") _
    rfl rfl (by decide))
  have settled := seen.move (@TrackedStep.settle _ _ _ _ _ _ (ProcessLoop.cron "Report") _ rfl)
  exact ⟨_, (cron_occurrences_placed settled "Report").1, rfl, rfl⟩

end Oxana
