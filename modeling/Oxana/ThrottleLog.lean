import Oxana.ThrottleCore
import Oxana.CommandPool

/-!
Runs of throttled pops: any number of dispatchers, interleaved command by command, with a
clock that moves on between any two of them.  What the pops do is recorded beside the store.
-/

namespace Oxana

open Program

variable {ι : Type}

/-- `stamps` are the scores ever added, `dequeues` the jobs dequeued and when, `costs` the
costs looked up for jobs and `records` those that were logged. -/
structure ThrottleRun (ι : Type) where
  store : ThrottleStore
  stage : ι → PopStage
  stamps : List Int
  dequeues : List (JobId × Int)
  costs : List (JobId × Option Nat)
  records : List Nat

abbrev ThrottlePool (ι : Type) :=
  Pool ThrottleCommand.Reply OxanaError (Option JobId) (ThrottleRun ι) ι

namespace ThrottleRun

variable [DecidableEq ι]

def serve (limit : Nat) (run : ThrottleRun ι) (thread : ι) (command : ThrottleCommand) :
    ThrottleRun ι where
  store := (serveThrottle command run.store).2
  stage := Function.update run.stage thread
    ((run.stage thread).after limit run.store.clock command (serveThrottle command run.store).1)
  stamps :=
    match command with
    | .zaddMultiple score members => run.stamps ++ List.replicate members score
    | _ => run.stamps
  dequeues :=
    match command with
    | .dequeue => run.dequeues ++ (run.store.queue.getLast?.map fun id =>
        (id, run.store.clock)).toList
    | _ => run.dequeues
  costs :=
    match command with
    | .hget id => run.costs ++ [(id, costOf (run.store.jobs id))]
    | _ => run.costs
  records :=
    match command with
    | .zaddMultiple _ members => run.records ++ [members]
    | _ => run.records

end ThrottleRun

def ThrottleStore.expired (store : ThrottleStore) : ThrottleStore :=
  { store with log := [], deadline := none }

def Stamp (time : Int) : Prop := 0 ≤ time ∧ time < 2 ^ 63

/-- `permits` restricts the commands that are answered and `expires` when the key expires. -/
def throttleRules [DecidableEq ι] (throttler : Throttler) (build : Build)
    (permits : ThrottlePool ι → ι → ThrottleCommand → Prop) (expires : ThrottlePool ι → Prop) :
    Rules ThrottleCommand.Reply OxanaError (Option JobId) (ThrottleRun ι) ι where
  serves := fun pool thread command reply after =>
    permits pool thread command ∧ reply = (serveThrottle command pool.state.store).1 ∧
      after = pool.state.serve throttler.limit thread command
  launches := fun pool thread program after =>
    program = throttler.popQueueMessage build ∧
      after = { pool.state with stage := Function.update pool.state.stage thread .fresh }
  shifts := fun pool after stopped =>
    stopped = (fun _ => false) ∧
      ((∃ clock, pool.state.store.clock ≤ clock ∧ clock < 2 ^ 63 ∧
        after = { pool.state with store := { pool.state.store with clock := clock } }) ∨
      (∃ deadline, pool.state.store.deadline = some deadline ∧
        deadline ≤ pool.state.store.clock ∧ expires pool ∧
        after = { pool.state with store := pool.state.store.expired }) ∨
      ∃ queue jobs, after =
        { pool.state with store := { pool.state.store with queue := queue, jobs := jobs } })

def ThrottlePool.initial (clock : Int) (queue : List JobId) (jobs : JobId → Option Payload) :
    ThrottlePool ι where
  state := {
    store := { clock := clock, log := [], deadline := none, queue := queue, jobs := jobs }
    stage := fun _ => .finished
    stamps := []
    dequeues := []
    costs := []
    records := [] }
  threads := fun _ => .done none

/-! What a pop sends. -/

def Throttler.windowLength (throttler : Throttler) : Int :=
  throttler.windowMs * 1000

structure Throttler.Sized (throttler : Throttler) : Prop where
  positive : 0 < throttler.windowLength
  fits : throttler.windowLength < 2 ^ 63

namespace Throttler

variable {throttler : Throttler} {build : Build} {now start : Int}

theorem windowMicros_eq (sized : throttler.Sized) :
    throttler.windowMicros build = some throttler.windowLength := by
  have positive := sized.positive
  have fits := sized.fits
  unfold windowLength at positive fits
  exact build.signed_of_fits (by omega) (by omega)

theorem windowStart_eq (sized : throttler.Sized) (present : Stamp now) :
    throttler.windowStart build now = some (now - throttler.windowLength) := by
  have positive := sized.positive
  have fits := sized.fits
  obtain ⟨unix, early⟩ := present
  unfold windowStart
  rw [windowMicros_eq sized, Option.bind_eq_bind, Option.bind_some]
  exact build.signed_of_fits (by omega) (by omega)

end Throttler

namespace PopStage

def untimed : PopStage → PopStage
  | .taken id _ => .taken id 0
  | .priced _ cost => .priced 0 cost
  | .stamped _ cost stamp => .stamped 0 cost stamp
  | .rechecking _ cost stamp now => .rechecking 0 cost stamp now
  | .repurged _ cost stamp => .repurged 0 cost stamp
  | .approved _ cost stamp => .approved 0 cost stamp
  | stage => stage

def allows (throttler : Throttler) : PopStage → ThrottleCommand → Prop
  | .fresh, .now => True
  | .looking now, .zrembyscore max => max = now - throttler.windowLength
  | .purged, .zrangeFirst => True
  | .purged, .zcard => True
  | .allowed, .dequeue => True
  | .taken id _, .hget member => member = id
  | .priced _ _, .now => True
  | .stamped _ _ _, .now => True
  | .rechecking _ _ _ now, .zrembyscore max => max = now - throttler.windowLength
  | .repurged _ _ _, .zrangeFirst => True
  | .repurged _ _ _, .zcard => True
  | .approved _ cost stamp, .zaddMultiple score members => score = stamp ∧ members = cost
  | .logged, .expire seconds => seconds = throttler.windowS
  | _, _ => False

theorem allows_untimed {throttler : Throttler} {stage : PopStage} {command : ThrottleCommand} :
    stage.untimed.allows throttler command ↔ stage.allows throttler command := by
  cases stage <;> cases command <;> exact Iff.rfl

theorem untimed_after {limit : Nat} {clock : Int} {stage : PopStage} {command : ThrottleCommand}
    (reply : command.Reply) :
    (stage.after limit clock command reply).untimed =
      stage.untimed.after limit 0 command reply := by
  cases stage with
  | purged =>
      cases command with
      | zcard =>
          revert reply
          rintro (count : Nat)
          change untimed (if count < limit then .allowed else .finished) =
            if count < limit then .allowed else .finished
          exact apply_ite untimed _ _ _
      | _ => rfl
  | allowed =>
      cases command with
      | dequeue => cases reply <;> rfl
      | _ => rfl
  | taken member time =>
      cases command with
      | hget id =>
          simp only [after, untimed]
          cases costOf reply <;> rfl
      | _ => rfl
  | repurged time cost stamp =>
      cases command with
      | zcard =>
          revert reply
          rintro (count : Nat)
          change untimed (if count < limit then
              (if cost = 0 then .finished else .approved time cost stamp) else .finished) =
            if count < limit then
              (if cost = 0 then .finished else .approved 0 cost stamp) else .finished
          rw [apply_ite untimed, apply_ite untimed]
          rfl
      | _ => rfl
  | _ => cases command <;> rfl

end PopStage

def popExpects : (command : ThrottleCommand) → command.Reply → Prop
  | .now, (now : Int) => Stamp now
  | _, _ => True

def popMonitor (throttler : Throttler) : Monitor ThrottleCommand.Reply PopStage where
  allows := PopStage.allows throttler
  expects := fun _ => popExpects
  records := fun stage command reply => stage.after throttler.limit 0 command reply

section Programs

variable {throttler : Throttler} {build : Build} {stage granted : PopStage}
  {fails : PopStage → Prop}

theorem complies_ask {command : ThrottleCommand} (allowed : stage.allows throttler command) :
    Complies (popMonitor throttler)
      (fun reply later => popExpects command reply ∧
        later = stage.after throttler.limit 0 command reply) fails stage
      (askThrottle command) :=
  complies_request allowed fun _ expected => ⟨expected, rfl⟩

theorem complies_windowStart (sized : throttler.Sized) {now : Int} (present : Stamp now) :
    Complies (popMonitor throttler)
      (fun start later => start = now - throttler.windowLength ∧ later = stage) fails stage
      (orPanic (throttler.windowStart build now)) := by
  rw [Throttler.windowStart_eq sized present]
  exact ⟨rfl, rfl⟩

theorem complies_answer {count : Nat} {waiting : Option (Option Int)}
    {respond : Option Int → ThrottlerState}
    (answers : ∀ micros, (respond micros).isAllowed = decide (count < throttler.limit)) :
    Complies (popMonitor throttler)
      (fun state later => later = if state.isAllowed then granted else .finished)
      (fun later => later = .finished) (if count < throttler.limit then granted else .finished)
      (do
        let micros ← orPanic (if decide (count < throttler.limit) then some none else waiting)
        pure (respond micros)) := by
  by_cases below : count < throttler.limit
  · rw [if_pos below, if_pos (decide_eq_true below)]
    change granted = if (respond none).isAllowed then granted else .finished
    rw [answers, if_pos (decide_eq_true below)]
  · rw [if_neg below, if_neg (fun holds => below (of_decide_eq_true holds))]
    cases waiting with
    | none => exact (rfl : PopStage.finished = .finished)
    | some micros =>
        change PopStage.finished = if (respond micros).isAllowed then granted else .finished
        rw [answers, if_neg (fun holds => below (of_decide_eq_true holds))]

theorem complies_state (sized : throttler.Sized) :
    Complies (popMonitor throttler)
      (fun state stage => stage = if state.isAllowed then .allowed else .finished)
      (fun stage => stage = .finished) .fresh (throttler.stateWConn build) := by
  refine complies_bind (complies_ask trivial) ?_
  rintro now _ ⟨present, rfl⟩
  refine complies_bind (complies_windowStart sized present) ?_
  rintro _ _ ⟨rfl, rfl⟩
  refine complies_bind (complies_ask rfl) ?_
  rintro _ _ ⟨_, rfl⟩
  refine complies_bind (complies_ask trivial) ?_
  rintro first _ ⟨_, rfl⟩
  refine complies_bind (complies_ask trivial) ?_
  rintro (count : Nat) _ ⟨_, rfl⟩
  exact complies_answer fun _ => rfl

theorem complies_recheck (sized : throttler.Sized) (cost : Nat) (stamp : Int) :
    Complies (popMonitor throttler)
      (fun state stage => stage = if state.isAllowed then
        (if cost = 0 then .finished else .approved 0 cost stamp) else .finished)
      (fun stage => stage = .finished) (.stamped 0 cost stamp) (throttler.stateWConn build) := by
  refine complies_bind (complies_ask trivial) ?_
  rintro now _ ⟨present, rfl⟩
  refine complies_bind (complies_windowStart sized present) ?_
  rintro _ _ ⟨rfl, rfl⟩
  refine complies_bind (complies_ask rfl) ?_
  rintro _ _ ⟨_, rfl⟩
  refine complies_bind (complies_ask trivial) ?_
  rintro first _ ⟨_, rfl⟩
  refine complies_bind (complies_ask trivial) ?_
  rintro (count : Nat) _ ⟨_, rfl⟩
  exact complies_answer fun _ => rfl

theorem complies_consume (sized : throttler.Sized) (cost : Option Nat) :
    Complies (popMonitor throttler) (fun _ stage => stage = .finished)
      (fun stage => stage = .finished)
      (.priced 0 (cost.getD 1)) (throttler.consume build cost) := by
  refine complies_bind (complies_ask trivial) ?_
  rintro stamp _ ⟨present, rfl⟩
  rw [if_neg (not_lt.mpr present.1)]
  change Complies _ _ _ _ (throttler.stateWConn build >>= _)
  refine complies_bind (complies_recheck sized (cost.getD 1) stamp) ?_
  rintro state stage rfl
  cases state.isAllowed with
  | false => exact (rfl : PopStage.finished = .finished)
  | true =>
      simp only [if_true]
      split
      · exact (rfl : PopStage.finished = .finished)
      · refine complies_bind (complies_ask ⟨rfl, rfl⟩) ?_
        rintro updated _ ⟨_, rfl⟩
        refine complies_bind (complies_ask rfl) ?_
        rintro _ _ ⟨_, rfl⟩
        exact (rfl : PopStage.finished = .finished)

theorem complies_cost (id : JobId) :
    Complies (popMonitor throttler) (fun cost stage => stage = .priced 0 (cost.getD 1))
      (fun stage => stage = .finished) (.taken id 0) (Throttler.throttleCost id) := by
  refine complies_bind (complies_ask rfl) ?_
  rintro (found : Option Payload) _ ⟨_, rfl⟩
  cases found with
  | none => exact (rfl : PopStage.priced 0 1 = .priced 0 1)
  | some text =>
      simp only [PopStage.after, costOf]
      cases decoded : fromText text with
      | error error => exact (rfl : PopStage.finished = .finished)
      | ok envelope =>
          exact (rfl : PopStage.priced 0 _ = .priced 0 (envelope.metadata.throttleCost.getD 1))

theorem complies_throttledPop (sized : throttler.Sized) :
    Complies (popMonitor throttler) (fun _ stage => stage = .finished)
      (fun stage => stage = .finished)
      .fresh (throttler.popQueueMessage build) := by
  refine complies_bind (complies_state sized) ?_
  rintro state stage rfl
  cases state.isAllowed with
  | false => exact (rfl : PopStage.finished = .finished)
  | true =>
      simp only [if_true]
      refine complies_bind (complies_ask trivial) ?_
      rintro (next : Option JobId) _ ⟨_, rfl⟩
      cases next with
      | none => exact (rfl : PopStage.finished = .finished)
      | some id =>
          refine complies_bind (complies_cost id) ?_
          rintro cost stage rfl
          refine complies_bind (complies_consume sized cost) ?_
          rintro _ stage rfl
          exact (rfl : PopStage.finished = .finished)

end Programs

theorem popExpects_serve {store : ThrottleStore} (present : Stamp store.clock)
    (command : ThrottleCommand) : popExpects command (serveThrottle command store).1 := by
  cases command with
  | now => exact present
  | _ => trivial

theorem ThrottleRun.serve_clock [DecidableEq ι] {limit : Nat} {run : ThrottleRun ι} {thread : ι}
    {command : ThrottleCommand} : (run.serve limit thread command).store.clock = run.store.clock := by
  cases command <;> rfl

theorem over_of_idle {throttler : Throttler} {stage : PopStage} {program : Throttle (Option JobId)}
    (complies : Complies (popMonitor throttler) (fun _ stage => stage = .finished)
      (fun stage => stage = .finished) stage.untimed program) (idle : Idle program) :
    stage = .finished := by
  have finished : stage.untimed = .finished := by
    cases program with
    | done value => exact complies
    | fail error => exact complies
    | halt => exact complies
    | call command next => exact False.elim idle
  cases stage <;> first | rfl | cases finished

theorem throttle_invariant [DecidableEq ι] {throttler : Throttler} {build : Build}
    {permits : ThrottlePool ι → ι → ThrottleCommand → Prop} {expires : ThrottlePool ι → Prop}
    {clock : Int} {queue : List JobId} {jobs : JobId → Option Payload} {pool : ThrottlePool ι}
    (sized : throttler.Sized) (opened : Stamp clock) (inv : ThrottleRun ι → Prop)
    (initial : inv (ThrottlePool.initial clock queue jobs : ThrottlePool ι).state)
    (serving : ∀ (current : ThrottlePool ι) thread command, inv current.state →
      (current.state.stage thread).allows throttler command → permits current thread command →
      inv (current.state.serve throttler.limit thread command))
    (launching : ∀ (run : ThrottleRun ι) thread, inv run → run.stage thread = .finished →
      inv { run with stage := Function.update run.stage thread .fresh })
    (advancing : ∀ (run : ThrottleRun ι) later, inv run → run.store.clock ≤ later →
      inv { run with store := { run.store with clock := later } })
    (expiring : ∀ (current : ThrottlePool ι) deadline, inv current.state →
      current.state.store.deadline = some deadline → deadline ≤ current.state.store.clock →
      expires current → inv { current.state with store := current.state.store.expired })
    (changing : ∀ (run : ThrottleRun ι) queue jobs, inv run →
      inv { run with store := { run.store with queue := queue, jobs := jobs } })
    (reaches : Pool.Reaches (throttleRules throttler build permits expires)
      (ThrottlePool.initial clock queue jobs) pool) :
    inv pool.state ∧ ∀ thread, Idle (pool.threads thread) → pool.state.stage thread = .finished := by
  obtain ⟨notes, ⟨holds, _, same, resting⟩, _⟩ := Pool.Reaches.pooled
    (fun _ => popMonitor throttler) (fun _ _ stage => stage = .finished)
    (fun _ stage => stage = .finished)
    (fun _ => .finished)
    (fun (current : ThrottlePool ι) notes => inv current.state ∧
      Stamp current.state.store.clock ∧
      (∀ thread, notes thread = (current.state.stage thread).untimed) ∧
      ∀ thread, Idle (current.threads thread) → current.state.stage thread = .finished)
    ⟨fun _ => .finished, ⟨initial, opened, fun _ => rfl, fun _ _ => rfl⟩, fun _ => rfl⟩
    (by
      rintro current notes thread command next reply state ⟨holds, present, same, resting⟩ comply
        sends allowed ⟨permitted, rfl, rfl⟩
      have own := comply thread
      rw [sends, same thread] at own
      have fits : (current.state.stage thread).allows throttler command := by
        rw [← PopStage.allows_untimed, ← same thread]
        exact allowed
      have expected := popExpects_serve present command
      have later := own.2 (serveThrottle command current.state.store).1 expected
      change Complies _ _ _ (PopStage.after _ 0 _ _ _) _ at later
      rw [← @PopStage.untimed_after _ current.state.store.clock] at later
      refine ⟨expected, serving current thread command holds fits permitted, ?_, ?_, ?_⟩
      · change Stamp (current.state.serve throttler.limit thread command).store.clock
        rw [ThrottleRun.serve_clock]
        exact present
      · intro other
        change _ = PopStage.untimed (Function.update current.state.stage thread _ other)
        by_cases different : other = thread
        · subst different
          rw [Function.update_self, Function.update_self, PopStage.untimed_after, ← same other]
          rfl
        · rw [Function.update_of_ne different, Function.update_of_ne different]
          exact same other
      · intro other idle
        change Function.update current.state.stage thread _ other = _
        change Idle (Function.update current.threads thread _ other) at idle
        by_cases different : other = thread
        · subst different
          rw [Function.update_self] at idle ⊢
          exact over_of_idle later idle
        · rw [Function.update_of_ne different] at idle ⊢
          exact resting other idle)
    (by
      rintro current notes thread program state ⟨holds, present, same, resting⟩ idle ⟨rfl, rfl⟩
      refine ⟨.fresh, complies_throttledPop sized,
        launching current.state thread holds (resting thread idle), present, ?_, ?_⟩
      · intro other
        change _ = PopStage.untimed (Function.update current.state.stage thread _ other)
        by_cases different : other = thread
        · subst different
          rw [Function.update_self, Function.update_self]
          rfl
        · rw [Function.update_of_ne different, Function.update_of_ne different]
          exact same other
      · intro other still
        change Function.update current.state.stage thread _ other = _
        change Idle (Function.update current.threads thread _ other) at still
        by_cases different : other = thread
        · subst different
          rw [Function.update_self] at still
          exact False.elim still
        · rw [Function.update_of_ne different] at still ⊢
          exact resting other still)
    (by
      rintro current notes state stopped ⟨holds, present, same, resting⟩ ⟨rfl, shifted⟩
      refine ⟨fun _ impossible => (nomatch impossible), ?_⟩
      rcases shifted with ⟨later, after, bounded, rfl⟩ | ⟨deadline, due, passed, allowed, rfl⟩ |
        ⟨queue, jobs, rfl⟩
      · exact ⟨advancing current.state later holds after, ⟨present.1.trans after, bounded⟩, same,
          resting⟩
      · exact ⟨expiring current deadline holds due passed allowed, present, same, resting⟩
      · exact ⟨changing current.state queue jobs holds, present, same, resting⟩)
    reaches
  exact ⟨holds, resting⟩

/-! What the log keeps. -/

/-- No pop is between its `ZADD` and its `EXPIRE`. -/
def NoneLogged (pool : ThrottlePool ι) : Prop :=
  ∀ thread, pool.state.stage thread ≠ .logged

def newer (limit : Int) (times : List Int) : Nat :=
  times.countP fun time => decide (limit < time)

section Newer

variable {limit : Int} {times more : List Int}

@[simp] theorem newer_nil : newer limit [] = 0 := rfl

@[simp] theorem newer_append : newer limit (times ++ more) = newer limit times + newer limit more :=
  List.countP_append

@[simp] theorem newer_cons {time : Int} :
    newer limit (time :: times) = newer limit times + if limit < time then 1 else 0 := by
  unfold newer
  rw [List.countP_cons]
  simp only [decide_eq_true_eq]

@[simp] theorem newer_replicate {count : Nat} {time : Int} :
    newer limit (List.replicate count time) = if limit < time then count else 0 := by
  unfold newer
  rw [List.countP_replicate]
  simp only [decide_eq_true_eq]

theorem newer_le_length : newer limit times ≤ times.length :=
  List.countP_le_length

theorem newer_eq_zero (old : ∀ time ∈ times, time ≤ limit) : newer limit times = 0 := by
  unfold newer
  rw [List.countP_eq_zero]
  intro time member
  have bound := old time member
  simp only [decide_eq_true_eq]
  omega

theorem newer_purge {max : Int} (older : max ≤ limit) :
    newer limit (times.filter fun time => !(decide (0 ≤ time ∧ time ≤ max))) =
      newer limit times := by
  unfold newer
  rw [List.countP_filter]
  refine List.countP_congr ?_
  intro time _
  simp only [Bool.and_eq_true, decide_eq_true_eq, Bool.not_eq_true', decide_eq_false_iff_not,
    not_and, not_le]
  omega

end Newer

def PopStage.Timely (clock : Int) : PopStage → Prop
  | .looking now => now ≤ clock
  | .taken _ time => time ≤ clock
  | .priced time _ => time ≤ clock
  | .stamped time _ stamp => time ≤ stamp ∧ stamp ≤ clock
  | .rechecking time _ stamp now => time ≤ stamp ∧ stamp ≤ clock ∧ now ≤ clock
  | .repurged time _ stamp => time ≤ stamp ∧ stamp ≤ clock
  | .approved time _ stamp => time ≤ stamp ∧ stamp ≤ clock
  | _ => True

theorem PopStage.Timely.later {clock after : Int} {stage : PopStage} (timely : stage.Timely clock)
    (passed : clock ≤ after) : stage.Timely after := by
  cases stage <;> simp only [PopStage.Timely] at timely ⊢ <;> omega

theorem PopStage.Timely.after {limit : Nat} {stage : PopStage} {store : ThrottleStore}
    (timely : stage.Timely store.clock) (command : ThrottleCommand) :
    (stage.after limit store.clock command (serveThrottle command store).1).Timely store.clock := by
  cases stage with
  | fresh =>
      cases command with
      | now => exact le_refl store.clock
      | _ => trivial
  | purged =>
      cases command with
      | zcard =>
          change (if store.log.length < limit then PopStage.allowed else .finished).Timely store.clock
          split <;> trivial
      | _ => trivial
  | allowed =>
      cases command with
      | dequeue =>
          cases last : store.queue.getLast? with
          | none =>
              rw [PopStage.after_dequeue_none last]
              trivial
          | some id =>
              rw [PopStage.after_dequeue_some last]
              exact le_refl store.clock
      | _ => trivial
  | taken member time =>
      cases command with
      | hget id =>
          cases priced : costOf (store.jobs id) with
          | none =>
              rw [PopStage.after_hget_none priced]
              trivial
          | some cost =>
              rw [PopStage.after_hget_some priced]
              exact timely
      | _ => exact timely
  | priced time cost =>
      cases command with
      | now => exact ⟨timely, le_refl store.clock⟩
      | _ => exact timely
  | stamped time cost stamp =>
      cases command with
      | now => exact ⟨timely.1, timely.2, le_refl store.clock⟩
      | _ => exact timely
  | rechecking time cost stamp now =>
      cases command with
      | zrembyscore max => exact ⟨timely.1, timely.2.1⟩
      | _ => exact timely
  | repurged time cost stamp =>
      cases command with
      | zcard =>
          change PopStage.Timely store.clock (if store.log.length < limit then
            (if cost = 0 then .finished else .approved time cost stamp) else .finished)
          split
          · split
            · trivial
            · exact timely
          · trivial
      | _ => exact timely
  | _ => cases command <;> first | exact timely | trivial

/-- A window is a whole number of seconds. -/
def Throttler.Whole (throttler : Throttler) : Prop :=
  throttler.windowS * 1000000 = throttler.windowLength

theorem Throttler.whole_of_multiple {throttler : Throttler} {seconds : Int}
    (multiple : throttler.windowMs = 1000 * seconds) : throttler.Whole := by
  have divided : throttler.windowS = seconds := by
    unfold windowS
    rw [multiple, Int.mul_tdiv_cancel_left seconds (by decide)]
  unfold Whole windowLength
  rw [divided, multiple]
  omega

structure LogSound (throttler : Throttler) (run : ThrottleRun ι) : Prop where
  stamped : ∀ stamp ∈ run.stamps, stamp ≤ run.store.clock
  past : ∀ score ∈ run.store.log, score ≤ run.store.clock
  kept : ∀ limit, run.store.clock - throttler.windowLength ≤ limit →
    newer limit run.stamps ≤ newer limit run.store.log
  covered : (∀ thread, run.stage thread ≠ .logged) → ∀ deadline,
    run.store.deadline = some deadline →
      ∀ score ∈ run.store.log, score + throttler.windowLength ≤ deadline
  timely : ∀ thread, (run.stage thread).Timely run.store.clock

namespace LogSound

variable {throttler : Throttler} {run : ThrottleRun ι}

theorem initial (clock : Int) (queue : List JobId) (jobs : JobId → Option Payload) :
    LogSound throttler (ThrottlePool.initial clock queue jobs : ThrottlePool ι).state where
  stamped := by rintro stamp ⟨⟩
  past := by rintro score ⟨⟩
  kept := fun _ _ => le_refl 0
  covered := by rintro _ deadline ⟨⟩
  timely := fun _ => trivial

theorem later (sound : LogSound throttler run) {clock : Int} (after : run.store.clock ≤ clock) :
    LogSound throttler { run with store := { run.store with clock := clock } } where
  stamped := fun stamp member => (sound.stamped stamp member).trans after
  past := fun score member => (sound.past score member).trans after
  kept := by
    intro limit bound
    refine sound.kept limit ?_
    change clock - throttler.windowLength ≤ limit at bound
    omega
  covered := sound.covered
  timely := fun thread => (sound.timely thread).later after

theorem expire (sound : LogSound throttler run) (settled : ∀ thread, run.stage thread ≠ .logged)
    {deadline : Int} (due : run.store.deadline = some deadline)
    (passed : deadline ≤ run.store.clock) :
    LogSound throttler { run with store := run.store.expired } where
  stamped := sound.stamped
  past := by simp [ThrottleStore.expired]
  kept := by
    intro limit bound
    have old : newer limit run.store.log = 0 := by
      refine newer_eq_zero fun score member => ?_
      have before := sound.covered settled deadline due score member
      change run.store.clock - throttler.windowLength ≤ limit at bound
      omega
    change newer limit run.stamps ≤ 0
    rw [← old]
    exact sound.kept limit bound
  covered := by simp [ThrottleStore.expired]
  timely := sound.timely

variable [DecidableEq ι]

theorem timely_serve (sound : LogSound throttler run) (thread : ι) (command : ThrottleCommand)
    (other : ι) :
    (Function.update run.stage thread ((run.stage thread).after throttler.limit run.store.clock
      command (serveThrottle command run.store).1) other).Timely run.store.clock := by
  by_cases same : other = thread
  · subst same
    rw [Function.update_self]
    exact (sound.timely other).after command
  · rw [Function.update_of_ne same]
    exact sound.timely other

theorem unlogged (sound : LogSound throttler run) {thread : ι} {place : PopStage}
    {store : ThrottleStore} (timely : place.Timely run.store.clock)
    (clock : store.clock = run.store.clock) (log : store.log = run.store.log)
    (deadline : store.deadline = run.store.deadline) (before : run.stage thread ≠ .logged)
    {dequeues : List (JobId × Int)} {costs : List (JobId × Option Nat)} :
    LogSound throttler { run with
      store := store
      stage := Function.update run.stage thread place
      dequeues := dequeues
      costs := costs } := by
  refine ⟨?_, ?_, ?_, ?_, ?_⟩
  · intro stamp member
    change stamp ≤ store.clock
    rw [clock]
    exact sound.stamped stamp member
  · intro score member
    change score ∈ store.log at member
    change score ≤ store.clock
    rw [clock]
    rw [log] at member
    exact sound.past score member
  · intro limit bound
    change store.clock - throttler.windowLength ≤ limit at bound
    change newer limit run.stamps ≤ newer limit store.log
    rw [clock] at bound
    rw [log]
    exact sound.kept limit bound
  · intro settled due expires score member
    change store.deadline = some due at expires
    change score ∈ store.log at member
    rw [deadline] at expires
    rw [log] at member
    refine sound.covered ?_ due expires score member
    intro other logged
    have different : other ≠ thread := by
      rintro rfl
      exact before logged
    refine settled other ?_
    change Function.update run.stage thread place other = .logged
    rw [Function.update_of_ne different]
    exact logged
  · intro other
    change (Function.update run.stage thread place other).Timely store.clock
    rw [clock]
    by_cases same : other = thread
    · subst same
      rw [Function.update_self]
      exact timely
    · rw [Function.update_of_ne same]
      exact sound.timely other

theorem max_of_allows {stage : PopStage} {clock max : Int} (timely : stage.Timely clock)
    (allowed : stage.allows throttler (.zrembyscore max)) :
    max ≤ clock - throttler.windowLength := by
  cases stage with
  | looking now =>
      have bound : now ≤ clock := timely
      have same : max = now - throttler.windowLength := allowed
      omega
  | rechecking time cost stamp now =>
      have bound : now ≤ clock := timely.2.2
      have same : max = now - throttler.windowLength := allowed
      omega
  | _ => exact False.elim allowed

theorem stage_of_zadd {stage : PopStage} {score : Int} {members : Nat}
    (allowed : stage.allows throttler (.zaddMultiple score members)) :
    ∃ time, stage = .approved time members score := by
  cases stage with
  | approved time cost stamp =>
      obtain ⟨rfl, rfl⟩ := allowed
      exact ⟨time, rfl⟩
  | _ => exact False.elim allowed

theorem stage_of_expire {stage : PopStage} {seconds : Int}
    (allowed : stage.allows throttler (.expire seconds)) :
    stage = .logged ∧ seconds = throttler.windowS := by
  cases stage with
  | logged => exact ⟨rfl, allowed⟩
  | _ => exact False.elim allowed

theorem ne_logged {stage : PopStage} {command : ThrottleCommand}
    (allowed : stage.allows throttler command) (other : ∀ seconds, command ≠ .expire seconds) :
    stage ≠ .logged := by
  rintro rfl
  cases command with
  | expire seconds => exact other seconds rfl
  | _ => exact allowed

theorem serve (whole : throttler.Whole) (sound : LogSound throttler run) {thread : ι}
    {command : ThrottleCommand} (allowed : (run.stage thread).allows throttler command) :
    LogSound throttler (run.serve throttler.limit thread command) := by
  have timely := @PopStage.Timely.after throttler.limit _ _ (sound.timely thread) command
  cases command with
  | now => exact sound.unlogged timely rfl rfl rfl (ne_logged allowed (by simp))
  | zrangeFirst => exact sound.unlogged timely rfl rfl rfl (ne_logged allowed (by simp))
  | zcard => exact sound.unlogged timely rfl rfl rfl (ne_logged allowed (by simp))
  | dequeue =>
      refine sound.unlogged timely ?_ ?_ ?_ (ne_logged allowed (by simp))
      · rfl
      · rfl
      · rfl
  | hget id => exact sound.unlogged timely rfl rfl rfl (ne_logged allowed (by simp))
  | zrembyscore max =>
      have old := max_of_allows (sound.timely thread) allowed
      have before := ne_logged allowed (by simp)
      refine ⟨sound.stamped, ?_, ?_, ?_, sound.timely_serve thread _⟩
      · intro score member
        exact sound.past score (List.mem_filter.mp member).1
      · intro limit bound
        have same : newer limit (run.store.log.filter fun score =>
            !(decide (0 ≤ score ∧ score ≤ max))) = newer limit run.store.log :=
          newer_purge (old.trans bound)
        change newer limit run.stamps ≤ newer limit (run.store.log.filter _)
        rw [same]
        exact sound.kept limit bound
      · intro settled deadline due score member
        refine sound.covered ?_ deadline ?_ score (List.mem_filter.mp member).1
        · intro other logged
          have different : other ≠ thread := by
            rintro rfl
            exact before logged
          exact settled other ((Function.update_of_ne different _ _).trans logged)
        · change (if _ then none else run.store.deadline) = some deadline at due
          split at due
          · cases due
          · exact due
  | zaddMultiple score members =>
      obtain ⟨time, stage⟩ := stage_of_zadd allowed
      have stamp : score ≤ run.store.clock := by
        have order := sound.timely thread
        rw [stage] at order
        exact order.2
      refine ⟨?_, ?_, ?_, ?_, sound.timely_serve thread _⟩
      · intro other member
        rcases List.mem_append.mp member with earlier | fresh
        · exact sound.stamped other earlier
        · rw [List.eq_of_mem_replicate fresh]
          exact stamp
      · intro other member
        rcases List.mem_append.mp member with earlier | fresh
        · exact sound.past other earlier
        · rw [List.eq_of_mem_replicate fresh]
          exact stamp
      · intro limit bound
        have before := sound.kept limit bound
        change newer limit (run.stamps ++ _) ≤ newer limit (run.store.log ++ _)
        rw [newer_append, newer_append]
        omega
      · intro settled
        refine absurd ?_ (settled thread)
        change Function.update run.stage thread _ thread = .logged
        rw [Function.update_self, stage]
        rfl
  | expire seconds =>
      obtain ⟨_, rfl⟩ := stage_of_expire allowed
      refine ⟨sound.stamped, sound.past, sound.kept, ?_, sound.timely_serve thread _⟩
      intro _ deadline due score member
      have bound := sound.past score member
      change (if _ then none else some (run.store.clock + throttler.windowS * 1000000)) =
        some deadline at due
      split at due
      · cases due
      · cases due
        rw [whole]
        omega

end LogSound

/-! Runs that are computed. -/

inductive ThrottleMove (ι : Type)
  | serve (thread : ι)
  | launch (thread : ι)
  | advance (clock : Int)
  | expire

namespace ThrottleMove

variable [DecidableEq ι] (throttler : Throttler) (build : Build)

def apply (pool : ThrottlePool ι) : ThrottleMove ι → ThrottlePool ι
  | .serve thread =>
      match pool.threads thread with
      | .call command next => pool.become thread
          (next (.ok (serveThrottle command pool.state.store).1))
          (pool.state.serve throttler.limit thread command)
      | _ => pool
  | .launch thread =>
      if Idle (pool.threads thread) then pool.become thread (throttler.popQueueMessage build)
        { pool.state with stage := Function.update pool.state.stage thread .fresh }
      else pool
  | .advance clock =>
      if pool.state.store.clock ≤ clock ∧ clock < 2 ^ 63 then
        { pool with state := { pool.state with store := { pool.state.store with clock := clock } } }
      else pool
  | .expire =>
      match pool.state.store.deadline with
      | some deadline =>
          if deadline ≤ pool.state.store.clock then
            { pool with state := { pool.state with store := pool.state.store.expired } }
          else pool
      | none => pool

variable {permits : ThrottlePool ι → ι → ThrottleCommand → Prop} {expires : ThrottlePool ι → Prop}

def Fits (permits : ThrottlePool ι → ι → ThrottleCommand → Prop) (expires : ThrottlePool ι → Prop)
    (pool : ThrottlePool ι) : ThrottleMove ι → Prop
  | .serve thread => NextFits (permits pool thread) (pool.threads thread)
  | .expire => expires pool
  | _ => True

def allFit (permits : ThrottlePool ι → ι → ThrottleCommand → Prop)
    (expires : ThrottlePool ι → Prop) : ThrottlePool ι → List (ThrottleMove ι) → Prop
  | _, [] => True
  | pool, move :: rest => Fits permits expires pool move ∧
      allFit permits expires (apply throttler build pool move) rest

instance Fits.decidable [∀ pool thread, DecidablePred (permits pool thread)]
    [DecidablePred expires] (pool : ThrottlePool ι) :
    (move : ThrottleMove ι) → Decidable (Fits permits expires pool move)
  | .serve thread => NextFits.decidable (pool.threads thread)
  | .launch _ => isTrue trivial
  | .advance _ => isTrue trivial
  | .expire => inferInstanceAs (Decidable (expires pool))

instance allFit.decidable [∀ pool thread, DecidablePred (permits pool thread)]
    [DecidablePred expires] :
    (pool : ThrottlePool ι) → (moves : List (ThrottleMove ι)) →
      Decidable (allFit throttler build permits expires pool moves)
  | _, [] => isTrue trivial
  | pool, move :: rest =>
      @instDecidableAnd _ _ (Fits.decidable pool move)
        (allFit.decidable (apply throttler build pool move) rest)

def play (pool : ThrottlePool ι) (moves : List (ThrottleMove ι)) : ThrottlePool ι :=
  moves.foldl (apply throttler build) pool

variable {throttler} {build} {start pool : ThrottlePool ι}

theorem reaches_apply
    (reaches : Pool.Reaches (throttleRules throttler build permits expires) start pool)
    {move : ThrottleMove ι} (fits : Fits permits expires pool move) :
    Pool.Reaches (throttleRules throttler build permits expires) start
      (apply throttler build pool move) := by
  cases move with
  | serve thread =>
      cases sends : pool.threads thread with
      | call command next =>
          simp only [Fits, sends, NextFits] at fits
          simp only [apply, sends]
          have step : Pool.Step (throttleRules throttler build permits expires) pool
              (pool.become thread (next (.ok (serveThrottle command pool.state.store).1))
                (pool.state.serve throttler.limit thread command)) :=
            .serve sends ⟨fits, rfl, rfl⟩
          exact reaches.tail step
      | _ =>
          simp only [apply, sends]
          exact reaches
  | launch thread =>
      simp only [apply]
      split
      · rename_i idle
        have step : Pool.Step (throttleRules throttler build permits expires) pool
            (pool.become thread (throttler.popQueueMessage build)
              { pool.state with stage := Function.update pool.state.stage thread .fresh }) :=
          .launch idle ⟨rfl, rfl⟩
        exact reaches.tail step
      · exact reaches
  | advance clock =>
      simp only [apply]
      split
      · rename_i bounds
        have step : Pool.Step (throttleRules throttler build permits expires) pool
            (pool.stop (fun _ => false)
              { pool.state with store := { pool.state.store with clock := clock } }) :=
          .shift ⟨rfl, Or.inl ⟨clock, bounds.1, bounds.2, rfl⟩⟩
        exact reaches.tail step
      · exact reaches
  | expire =>
      simp only [apply]
      cases due : pool.state.store.deadline with
      | none => exact reaches
      | some deadline =>
          dsimp only
          split
          · rename_i passed
            have step : Pool.Step (throttleRules throttler build permits expires) pool
                (pool.stop (fun _ => false)
                  { pool.state with store := pool.state.store.expired }) :=
              .shift ⟨rfl, Or.inr (Or.inl ⟨deadline, due, passed, fits, rfl⟩)⟩
            exact reaches.tail step
          · exact reaches

theorem reaches_play {moves : List (ThrottleMove ι)}
    (fits : allFit throttler build permits expires pool moves) :
    Pool.Reaches (throttleRules throttler build permits expires) pool
      (play throttler build pool moves) := by
  have run : ∀ start, Pool.Reaches (throttleRules throttler build permits expires) start pool →
      Pool.Reaches (throttleRules throttler build permits expires) start
        (play throttler build pool moves) := by
    intro start reaches
    induction moves generalizing pool with
    | nil => exact reaches
    | cons move rest ih => exact ih fits.2 (reaches_apply reaches fits.1)
  exact run pool .refl

end ThrottleMove

end Oxana
