import Mathlib
import Oxana.ThrottleRuns

/-!
Any number of dispatchers on one throttled queue.  A pop that has been allowed holds a place
until its job is logged; the window is kept as long as no check overlooks these places.
-/

namespace Oxana

open Program

variable {ι : Type}

namespace PopStage

def flight (stage : PopStage) : Nat :=
  if stage.inFlight then 1 else 0

def owed (limit : Int) (stage : PopStage) : Nat :=
  match stage.takenAt with
  | some time => if limit < time then 1 else 0
  | none => 0

theorem owed_le_flight (limit : Int) (stage : PopStage) : stage.owed limit ≤ stage.flight := by
  have at_most_one : ∀ {time : Int}, (if limit < time then 1 else 0) ≤ 1 := by
    intro time
    split <;> omega
  cases stage with
  | allowed => exact Nat.zero_le 1
  | taken id time => exact at_most_one
  | priced time cost => exact at_most_one
  | stamped time cost stamp => exact at_most_one
  | rechecking time cost stamp now => exact at_most_one
  | repurged time cost stamp => exact at_most_one
  | approved time cost stamp => exact at_most_one
  | _ => exact le_refl 0

end PopStage

section Sums

variable [Fintype ι]

def ThrottleRun.flights (run : ThrottleRun ι) : Nat :=
  tokens PopStage.flight run.stage

theorem owed_lt_flights {run : ThrottleRun ι} {thread : ι} (allowed : run.stage thread = .allowed)
    (limit : Int) : tokens (PopStage.owed limit) run.stage < run.flights := by
  refine Finset.sum_lt_sum (fun other _ => PopStage.owed_le_flight limit _)
    ⟨thread, Finset.mem_univ thread, ?_⟩
  rw [allowed]
  exact Nat.zero_lt_one

def ThrottleRun.dequeueTimes (run : ThrottleRun ι) : List Int :=
  run.dequeues.map Prod.snd

/-- The first check of a pop counts the places that are held. -/
def Counted (throttler : Throttler) (pool : ThrottlePool ι) (thread : ι)
    (command : ThrottleCommand) : Prop :=
  command = .zcard → pool.state.stage thread = .purged →
    pool.state.store.log.length < throttler.limit →
      pool.state.store.log.length + pool.state.flights < throttler.limit

structure Budgeted (throttler : Throttler) (run : ThrottleRun ι) : Prop where
  room : run.store.log.length + run.flights ≤ throttler.limit
  single : ∀ thread cost, (run.stage thread).pending = some cost → cost = 1
  paid : ∀ limit, newer limit run.dequeueTimes ≤
    newer limit run.stamps + tokens (PopStage.owed limit) run.stage
  window : ∀ start, throttler.inWindow start run.dequeueTimes ≤ throttler.limit

/-- The budget holds as long as all jobs had a cost of one. -/
structure Shared (throttler : Throttler) (run : ThrottleRun ι) : Prop where
  log : LogSound throttler run
  budget : (∀ cost ∈ run.costs, cost.2 = some 1) → Budgeted throttler run

end Sums

section Steps

variable [DecidableEq ι] {throttler : Throttler} {run : ThrottleRun ι} {thread : ι}

theorem pending_update {place : PopStage}
    (single : ∀ thread cost, (run.stage thread).pending = some cost → cost = 1)
    (own : ∀ cost, place.pending = some cost → cost = 1) (other : ι) (cost : Nat)
    (pending : (Function.update run.stage thread place other).pending = some cost) : cost = 1 := by
  by_cases same : other = thread
  · subst same
    rw [Function.update_self] at pending
    exact own cost pending
  · rw [Function.update_of_ne same] at pending
    exact single other cost pending

structure PopStage.Steady (stage after : PopStage) : Prop where
  flight : after.flight = stage.flight
  taken : after.takenAt = stage.takenAt
  pending : after.pending = stage.pending

theorem steady_after {limit : Nat} {store : ThrottleStore} {stage : PopStage}
    {command : ThrottleCommand} (allowed : stage.allows throttler command)
    (kind : command = .now ∨ command = .zrangeFirst ∨
      ∃ argument, command = .zrembyscore argument ∨ command = .expire argument) :
    stage.Steady (stage.after limit store.clock command (serveThrottle command store).1) := by
  rcases kind with rfl | rfl | ⟨argument, rfl | rfl⟩
  · cases stage with
    | fresh => exact ⟨rfl, rfl, rfl⟩
    | priced time cost => exact ⟨rfl, rfl, rfl⟩
    | stamped time cost stamp => exact ⟨rfl, rfl, rfl⟩
    | _ => exact False.elim allowed
  · cases stage with
    | purged => exact ⟨rfl, rfl, rfl⟩
    | repurged time cost stamp => exact ⟨rfl, rfl, rfl⟩
    | _ => exact False.elim allowed
  · cases stage with
    | looking now => exact ⟨rfl, rfl, rfl⟩
    | rechecking time cost stamp now => exact ⟨rfl, rfl, rfl⟩
    | _ => exact False.elim allowed
  · cases stage with
    | logged => exact ⟨rfl, rfl, rfl⟩
    | _ => exact False.elim allowed

variable [Fintype ι]

theorem Budgeted.move (budget : Budgeted throttler run) {place : PopStage} {store : ThrottleStore}
    {costs : List (JobId × Option Nat)} (fewer : store.log.length ≤ run.store.log.length)
    (flight : place.flight ≤ (run.stage thread).flight)
    (owed : ∀ limit, (run.stage thread).owed limit ≤ place.owed limit)
    (single : ∀ cost, place.pending = some cost → cost = 1) :
    Budgeted throttler { run with
      store := store, stage := Function.update run.stage thread place, costs := costs } := by
  refine ⟨?_, pending_update budget.single single, ?_, budget.window⟩
  · have moved := @tokens_update ι _ _ PopStage.flight run.stage _ thread place
    have room := budget.room
    change store.log.length + tokens PopStage.flight (Function.update run.stage thread place) ≤
      throttler.limit
    unfold ThrottleRun.flights at room
    omega
  · intro limit
    have moved := @tokens_update ι _ _ (PopStage.owed limit) run.stage _ thread place
    have paid := budget.paid limit
    have kept := owed limit
    change newer limit run.dequeueTimes ≤ newer limit run.stamps +
      tokens (PopStage.owed limit) (Function.update run.stage thread place)
    omega

theorem Budgeted.steady (budget : Budgeted throttler run) {place : PopStage} {store : ThrottleStore}
    (steady : (run.stage thread).Steady place)
    (fewer : store.log.length ≤ run.store.log.length) :
    Budgeted throttler { run with
      store := store, stage := Function.update run.stage thread place } := by
  refine budget.move fewer (le_of_eq steady.flight) ?_ ?_
  · intro limit
    unfold PopStage.owed
    rw [steady.taken]
  · intro cost pending
    rw [steady.pending] at pending
    exact budget.single thread cost pending

theorem Budgeted.grant (budget : Budgeted throttler run) (stage : run.stage thread = .purged)
    (free : run.store.log.length + run.flights < throttler.limit) :
    Budgeted throttler { run with stage := Function.update run.stage thread .allowed } := by
  refine ⟨?_, pending_update budget.single (by rintro cost ⟨⟩), ?_, budget.window⟩
  · have moved := @tokens_update ι _ _ PopStage.flight run.stage _ thread .allowed
    rw [stage] at moved
    change _ + 0 = _ + 1 at moved
    change run.store.log.length +
      tokens PopStage.flight (Function.update run.stage thread .allowed) ≤ throttler.limit
    unfold ThrottleRun.flights at free
    omega
  · intro limit
    have moved := @tokens_update ι _ _ (PopStage.owed limit) run.stage _ thread .allowed
    rw [stage] at moved
    change _ + 0 = _ + 0 at moved
    have paid := budget.paid limit
    change newer limit run.dequeueTimes ≤ newer limit run.stamps +
      tokens (PopStage.owed limit) (Function.update run.stage thread .allowed)
    omega

omit [DecidableEq ι] in
/-- The second check is never refused: the pop holds one of the free places. -/
theorem Budgeted.below (budget : Budgeted throttler run) (flying : (run.stage thread).flight = 1) :
    run.store.log.length < throttler.limit := by
  have room := budget.room
  have own := @le_tokens ι _ _ PopStage.flight run.stage thread
  unfold ThrottleRun.flights at room
  omega

/-- Every job dequeued in the window is logged or held by a place, and one place is free. -/
theorem Budgeted.take (log : LogSound throttler run) (budget : Budgeted throttler run)
    (stage : run.stage thread = .allowed) {store : ThrottleStore}
    (same : store.log = run.store.log) (id : JobId) :
    Budgeted throttler { run with
      store := store
      stage := Function.update run.stage thread (.taken id run.store.clock)
      dequeues := run.dequeues ++ [(id, run.store.clock)] } := by
  have times : (run.dequeues ++ [(id, run.store.clock)]).map Prod.snd =
      run.dequeueTimes ++ [run.store.clock] := List.map_append
  refine ⟨?_, pending_update budget.single (by rintro cost ⟨⟩), ?_, ?_⟩
  · have moved := @tokens_update ι _ _ PopStage.flight run.stage _ thread (.taken id run.store.clock)
    rw [stage] at moved
    change _ + 1 = _ + 1 at moved
    have room := budget.room
    change store.log.length + tokens PopStage.flight
      (Function.update run.stage thread (.taken id run.store.clock)) ≤ throttler.limit
    rw [same]
    unfold ThrottleRun.flights at room
    omega
  · intro limit
    have moved := @tokens_update ι _ _ (PopStage.owed limit) run.stage _ thread
      (.taken id run.store.clock)
    rw [stage] at moved
    change _ + 0 = _ + (if limit < run.store.clock then 1 else 0) at moved
    have paid := budget.paid limit
    change newer limit ((run.dequeues ++ [(id, run.store.clock)]).map Prod.snd) ≤
      newer limit run.stamps +
        tokens (PopStage.owed limit) (Function.update run.stage thread (.taken id run.store.clock))
    rw [times, newer_append, newer_cons, newer_nil]
    omega
  · intro start
    have before := budget.window start
    change throttler.inWindow start ((run.dequeues ++ [(id, run.store.clock)]).map Prod.snd) ≤
      throttler.limit
    rw [times, inWindow_append, ← List.replicate_one, inWindow_replicate]
    split
    · rename_i inside
      have earlier : throttler.inWindow start run.dequeueTimes ≤
          newer (start - 1) run.dequeueTimes := inWindow_le_newer (by omega)
      have paid := budget.paid (start - 1)
      have kept := log.kept (start - 1) (by omega)
      have counted : newer (start - 1) run.store.log ≤ run.store.log.length := newer_le_length
      have held := owed_lt_flights stage (start - 1)
      have room := budget.room
      omega
    · omega

theorem Budgeted.logs (log : LogSound throttler run) (budget : Budgeted throttler run)
    {time stamp : Int} {cost : Nat} (stage : run.stage thread = .approved time cost stamp)
    {store : ThrottleStore} (added : store.log = run.store.log ++ List.replicate cost stamp)
    {records : List Nat} :
    Budgeted throttler { run with
      store := store
      stage := Function.update run.stage thread .logged
      stamps := run.stamps ++ List.replicate cost stamp
      records := records } := by
  have one : cost = 1 := budget.single thread cost (by rw [stage]; rfl)
  subst one
  have order : time ≤ stamp := by
    have timely := log.timely thread
    rw [stage] at timely
    exact timely.1
  refine ⟨?_, pending_update budget.single (by rintro cost ⟨⟩), ?_, budget.window⟩
  · have moved := @tokens_update ι _ _ PopStage.flight run.stage _ thread .logged
    rw [stage] at moved
    change _ + 1 = _ + 0 at moved
    have room := budget.room
    change store.log.length + tokens PopStage.flight (Function.update run.stage thread .logged) ≤
      throttler.limit
    rw [added, List.length_append, List.length_replicate]
    unfold ThrottleRun.flights at room
    omega
  · intro limit
    have moved := @tokens_update ι _ _ (PopStage.owed limit) run.stage _ thread .logged
    rw [stage] at moved
    change _ + (if limit < time then 1 else 0) = _ + 0 at moved
    have paid := budget.paid limit
    change newer limit run.dequeueTimes ≤
      newer limit (run.stamps ++ _) +
        tokens (PopStage.owed limit) (Function.update run.stage thread .logged)
    rw [newer_append, newer_replicate]
    split <;> split at moved <;> omega

theorem Shared.count (shared : Shared throttler run)
    (allowed : (run.stage thread).allows throttler .zcard)
    (counted : run.stage thread = .purged → run.store.log.length < throttler.limit →
      run.store.log.length + run.flights < throttler.limit)
    (log : LogSound throttler (run.serve throttler.limit thread .zcard)) :
    Shared throttler (run.serve throttler.limit thread .zcard) := by
  refine ⟨log, fun ones => ?_⟩
  have budget := shared.budget ones
  unfold ThrottleRun.serve
  cases stage : run.stage thread with
  | purged =>
      have place : PopStage.after throttler.limit run.store.clock .purged .zcard
          (serveThrottle .zcard run.store).1 =
            if run.store.log.length < throttler.limit then .allowed else .finished := rfl
      rw [place]
      by_cases below : run.store.log.length < throttler.limit
      · rw [if_pos below]
        exact budget.grant stage (counted stage below)
      · rw [if_neg below]
        refine budget.move (le_refl _) ?_ ?_ ?_
        · exact Nat.zero_le _
        · intro limit
          rw [stage]
          exact le_refl 0
        · rintro cost ⟨⟩
  | repurged time cost stamp =>
      have one : cost = 1 := budget.single thread cost (by rw [stage]; rfl)
      subst one
      have below : run.store.log.length < throttler.limit := budget.below (by rw [stage]; rfl)
      have place : PopStage.after throttler.limit run.store.clock (.repurged time 1 stamp) .zcard
          (serveThrottle .zcard run.store).1 =
            if run.store.log.length < throttler.limit then
              (if 1 = 0 then .finished else .approved time 1 stamp) else .finished := rfl
      rw [place, if_pos below, if_neg Nat.one_ne_zero]
      refine budget.steady ?_ (le_refl _)
      rw [stage]
      exact ⟨rfl, rfl, rfl⟩
  | _ =>
      rw [stage] at allowed
      exact False.elim allowed

theorem Shared.dequeue (shared : Shared throttler run)
    (allowed : (run.stage thread).allows throttler .dequeue)
    (log : LogSound throttler (run.serve throttler.limit thread .dequeue)) :
    Shared throttler (run.serve throttler.limit thread .dequeue) := by
  refine ⟨log, fun ones => ?_⟩
  have budget := shared.budget ones
  unfold ThrottleRun.serve
  cases stage : run.stage thread with
  | allowed =>
      cases waiting : run.store.queue.getLast? with
      | none =>
          rw [PopStage.after_dequeue_none waiting]
          simp only [Option.map_none, Option.toList_none, List.append_nil]
          refine budget.move (le_refl _) ?_ ?_ ?_
          · exact Nat.zero_le _
          · intro limit
            rw [stage]
            exact le_refl 0
          · rintro cost ⟨⟩
      | some id =>
          rw [PopStage.after_dequeue_some waiting]
          simp only [Option.map_some, Option.toList_some]
          have same : (serveThrottle .dequeue run.store).2.log = run.store.log := rfl
          exact budget.take shared.log stage same id
  | _ =>
      rw [stage] at allowed
      exact False.elim allowed

theorem Shared.price (shared : Shared throttler run) {id : JobId}
    (allowed : (run.stage thread).allows throttler (.hget id))
    (log : LogSound throttler (run.serve throttler.limit thread (.hget id))) :
    Shared throttler (run.serve throttler.limit thread (.hget id)) := by
  refine ⟨log, fun ones => ?_⟩
  have cost : costOf (run.store.jobs id) = some 1 :=
    ones (id, _) (List.mem_append_right _ (List.mem_singleton.mpr rfl))
  have budget := shared.budget fun cost member => ones cost (List.mem_append_left _ member)
  unfold ThrottleRun.serve
  cases stage : run.stage thread with
  | taken member time =>
      rw [PopStage.after_hget_some cost]
      refine budget.move (le_refl _) ?_ ?_ ?_
      · rw [stage]
        exact le_refl 1
      · intro limit
        rw [stage]
        exact le_refl _
      · rintro cost ⟨⟩
        rfl
  | _ =>
      rw [stage] at allowed
      exact False.elim allowed

theorem Shared.serve (whole : throttler.Whole) (shared : Shared throttler run)
    {command : ThrottleCommand} (allowed : (run.stage thread).allows throttler command)
    (counted : command = .zcard → run.stage thread = .purged →
      run.store.log.length < throttler.limit →
        run.store.log.length + run.flights < throttler.limit) :
    Shared throttler (run.serve throttler.limit thread command) := by
  have log := shared.log.serve whole allowed
  cases command with
  | now =>
      refine ⟨log, fun ones => ?_⟩
      exact (shared.budget ones).steady (steady_after allowed (Or.inl rfl)) (le_refl _)
  | zrangeFirst =>
      refine ⟨log, fun ones => ?_⟩
      exact (shared.budget ones).steady (steady_after allowed (Or.inr (Or.inl rfl))) (le_refl _)
  | zrembyscore max =>
      refine ⟨log, fun ones => ?_⟩
      exact (shared.budget ones).steady
        (steady_after allowed (Or.inr (Or.inr ⟨max, Or.inl rfl⟩))) (List.length_filter_le _ _)
  | expire seconds =>
      refine ⟨log, fun ones => ?_⟩
      exact (shared.budget ones).steady
        (steady_after allowed (Or.inr (Or.inr ⟨seconds, Or.inr rfl⟩))) (le_refl _)
  | zcard => exact shared.count allowed (counted rfl) log
  | dequeue => exact shared.dequeue allowed log
  | hget id => exact shared.price allowed log
  | zaddMultiple score members =>
      refine ⟨log, fun ones => ?_⟩
      obtain ⟨time, stage⟩ := LogSound.stage_of_zadd allowed
      unfold ThrottleRun.serve
      rw [stage]
      exact (shared.budget ones).logs shared.log stage rfl

theorem Shared.launch (shared : Shared throttler run) (finished : run.stage thread = .finished) :
    Shared throttler { run with stage := Function.update run.stage thread .fresh } := by
  have timely : PopStage.Timely run.store.clock .fresh := trivial
  refine ⟨shared.log.unlogged timely rfl rfl rfl (by rw [finished]; simp), fun ones => ?_⟩
  refine (shared.budget ones).steady ?_ (le_refl _)
  rw [finished]
  exact ⟨rfl, rfl, rfl⟩

omit [DecidableEq ι] in
theorem Shared.restore (shared : Shared throttler run) {store : ThrottleStore}
    (log : LogSound throttler { run with store := store })
    (fewer : store.log.length ≤ run.store.log.length) :
    Shared throttler { run with store := store } := by
  refine ⟨log, fun ones => ?_⟩
  obtain ⟨room, single, paid, window⟩ := shared.budget ones
  refine ⟨?_, single, paid, window⟩
  change store.log.length + run.flights ≤ throttler.limit
  omega

omit [DecidableEq ι] in
theorem shared_initial (throttler : Throttler) (clock : Int) (queue : List JobId)
    (jobs : JobId → Option Payload) :
    Shared throttler (ThrottlePool.initial clock queue jobs : ThrottlePool ι).state := by
  refine ⟨LogSound.initial clock queue jobs, fun _ => ⟨?_, ?_, ?_, ?_⟩⟩
  · have idle : tokens PopStage.flight (fun _ : ι => PopStage.finished) = 0 :=
      tokens_zero fun _ => rfl
    change 0 + tokens PopStage.flight (fun _ : ι => PopStage.finished) ≤ throttler.limit
    omega
  · rintro thread cost ⟨⟩
  · intro limit
    exact Nat.zero_le _
  · intro start
    exact Nat.zero_le _

end Steps

theorem inWindow_of_nonpos {throttler : Throttler} (empty : throttler.windowLength ≤ 0)
    (start : Int) (times : List Int) : throttler.inWindow start times = 0 := by
  unfold Throttler.inWindow
  rw [List.countP_eq_zero]
  intro time _
  simp only [decide_eq_true_eq]
  omega

/-- No window has more dequeues than the limit, over all the processes. -/
theorem throttle_holds_across_processes [DecidableEq ι] [Fintype ι] (throttler : Throttler)
    (build : Build) (seconds : Int) (multiple : throttler.windowMs = 1000 * seconds)
    (fits : throttler.windowLength < 2 ^ 63) (clock : Int) (opened : Stamp clock)
    (queue : List JobId) (jobs : JobId → Option Payload) (pool : ThrottlePool ι)
    (reaches : Pool.Reaches (throttleRules throttler build (Counted throttler) NoneLogged)
      (ThrottlePool.initial clock queue jobs) pool)
    (ones : ∀ cost ∈ pool.state.costs, cost.2 = some 1) (start : Int) :
    throttler.inWindow start pool.state.dequeueTimes ≤ throttler.limit := by
  by_cases positive : 1 ≤ seconds
  · have whole := Throttler.whole_of_multiple multiple
    have sized := Throttler.sized_of_multiple positive multiple fits
    obtain ⟨shared, _⟩ := throttle_invariant sized opened (Shared throttler)
      (shared_initial throttler clock queue jobs)
      (fun current thread command shared allowed counted => shared.serve whole allowed counted)
      (fun run thread shared finished => shared.launch finished)
      (fun run later shared after => shared.restore (shared.log.later after) (le_refl _))
      (fun current deadline shared due passed settled =>
        shared.restore (shared.log.expire settled due passed) (Nat.zero_le _))
      (fun run queue jobs shared => shared.restore
        ⟨shared.log.stamped, shared.log.past, shared.log.kept, shared.log.covered,
          shared.log.timely⟩ (le_refl _))
      reaches
    exact (shared.budget ones).window start
  · have empty : throttler.windowLength ≤ 0 := by
      unfold Throttler.windowLength
      omega
    rw [inWindow_of_nonpos empty]
    exact Nat.zero_le _

instance [Fintype ι] (throttler : Throttler) (pool : ThrottlePool ι) (thread : ι) :
    DecidablePred (Counted throttler pool thread) :=
  fun _ => inferInstanceAs (Decidable (_ → _ → _ → _))

def commands (thread : Fin 2) (count : Nat) : List (ThrottleMove (Fin 2)) :=
  List.replicate count (.serve thread)

def wholePop (thread : Fin 2) : List (ThrottleMove (Fin 2)) :=
  .launch thread :: commands thread 13

def overlappingPops : List (ThrottleMove (Fin 2)) :=
  .launch 0 :: .launch 1 :: commands 0 5 ++ .advance 3 :: commands 1 13 ++ commands 0 8 ++
    .advance 999999 :: wholePop 0 ++ .advance 1000003 :: wholePop 1

theorem throttle_holds_across_processes_two :
    ∃ pool : ThrottlePool (Fin 2), pool.state.dequeues = [("a", 0), ("b", 3), ("c", 1000003)] ∧
      twoASecond.inWindow 0 pool.state.dequeueTimes = 2 ∧
      twoASecond.inWindow 0 pool.state.dequeueTimes ≤ 2 := by
  have fits : ThrottleMove.allFit twoASecond .debug (Counted twoASecond) NoneLogged
      (ThrottlePool.initial 0 ["d", "c", "b", "a"] fun _ => none) overlappingPops := by
    decide +kernel
  have bound := throttle_holds_across_processes twoASecond .debug 1 rfl (by decide +kernel) 0
    ⟨le_refl 0, by decide⟩ ["d", "c", "b", "a"] (fun _ => none) _ (ThrottleMove.reaches_play fits)
    (by decide +kernel) 0
  refine ⟨_, ?_, ?_, bound⟩
  all_goals decide +kernel

def oneASecond : Throttler where
  limit := 1
  windowMs := 1000

def racingPops : List (ThrottleMove (Fin 2)) :=
  .launch 0 :: .launch 1 :: commands 0 4 ++ commands 1 5 ++ commands 0 1

theorem throttle_exceeded_across_processes :
    ¬∀ (processes : Nat) (throttler : Throttler) (build : Build) (seconds : Int),
      throttler.windowMs = 1000 * seconds → throttler.windowLength < 2 ^ 63 →
      ∀ (clock : Int), Stamp clock →
      ∀ (queue : List JobId) (jobs : JobId → Option Payload) (pool : ThrottlePool (Fin processes)),
        Pool.Reaches (throttleRules throttler build (fun _ _ _ => True) fun _ => True)
          (ThrottlePool.initial clock queue jobs) pool →
        (∀ cost ∈ pool.state.costs, cost.2 = some 1) → ∀ start,
          throttler.inWindow start pool.state.dequeueTimes ≤ throttler.limit := by
  intro bounded
  have fits : ThrottleMove.allFit oneASecond .release (fun _ _ _ => True) (fun _ => True)
      (ThrottlePool.initial 0 ["b", "a"] fun _ => none) racingPops := by
    decide +kernel
  have bound := bounded 2 oneASecond .release 1 rfl (by decide +kernel) 0 ⟨le_refl 0, by decide⟩
    ["b", "a"] (fun _ => none) _ (ThrottleMove.reaches_play fits) (by decide +kernel) 0
  revert bound
  decide +kernel

end Oxana
