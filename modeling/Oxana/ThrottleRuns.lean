import Oxana.ThrottleLog

/-!
One dispatcher of a throttled queue.  Its check of the window counts everything logged so
far that is still in the window, and nothing is logged between the check and its own entry.
-/

namespace Oxana

open Program

variable {ι : Type}

/-- The entries with a stamp in the half-open interval of one window from `start` on. -/
def Throttler.inWindow (throttler : Throttler) (start : Int) (times : List Int) : Nat :=
  times.countP fun time => decide (start ≤ time ∧ time < start + throttler.windowLength)

theorem inWindow_append {throttler : Throttler} {start : Int} {times more : List Int} :
    throttler.inWindow start (times ++ more) =
      throttler.inWindow start times + throttler.inWindow start more :=
  List.countP_append

theorem inWindow_replicate {throttler : Throttler} {start time : Int} {count : Nat} :
    throttler.inWindow start (List.replicate count time) =
      if start ≤ time ∧ time < start + throttler.windowLength then count else 0 := by
  unfold Throttler.inWindow
  rw [List.countP_replicate]
  simp only [decide_eq_true_eq]

theorem inWindow_le_newer {throttler : Throttler} {start limit : Int} {times : List Int}
    (before : limit < start) : throttler.inWindow start times ≤ newer limit times := by
  refine List.countP_mono_left fun time _ inside => ?_
  simp only [decide_eq_true_eq] at inside ⊢
  omega

namespace PopStage

def reference (clock : Int) : PopStage → Int
  | .stamped _ _ stamp => stamp
  | .rechecking _ _ stamp _ => stamp
  | .repurged _ _ stamp => stamp
  | .approved _ _ stamp => stamp
  | _ => clock

def pending : PopStage → Option Nat
  | .priced _ cost => some cost
  | .stamped _ cost _ => some cost
  | .rechecking _ cost _ _ => some cost
  | .repurged _ cost _ => some cost
  | .approved _ cost _ => some cost
  | _ => none

def awaiting : PopStage → Option JobId
  | .taken id _ => some id
  | _ => none

end PopStage

/-- Fewer entries than the limit are in any window that ends with the entry of the pop. -/
structure Clear (throttler : Throttler) (log stamps : List Int) (reference : Int) : Prop where
  counted : log.length < throttler.limit
  recent : ∃ time, time ≤ reference ∧ ∀ limit, time - throttler.windowLength ≤ limit →
    newer limit stamps < throttler.limit

theorem Clear.mono {throttler : Throttler} {log shorter stamps : List Int} {reference later : Int}
    (clear : Clear throttler log stamps reference) (fewer : shorter.length ≤ log.length)
    (after : reference ≤ later) : Clear throttler shorter stamps later := by
  obtain ⟨counted, time, early, recent⟩ := clear
  exact ⟨by omega, time, by omega, recent⟩

/-- Every dequeued job has its cost looked up, and every cost is logged, but for the pending
one and those of nothing. -/
structure Recorded (run : ThrottleRun Unit) : Prop where
  looked : run.dequeues.map Prod.fst = run.costs.map Prod.fst ++ (run.stage ()).awaiting.toList
  logged : ∃ earlier, run.costs.map Prod.snd = earlier ++ ((run.stage ()).pending.map some).toList ∧
    run.records = (earlier.filterMap id).filter fun cost => decide (cost ≠ 0)
  total : run.stamps.length = run.records.sum

structure Paced (throttler : Throttler) (cap : Nat) (run : ThrottleRun Unit) : Prop where
  log : LogSound throttler run
  window : (∀ cost ∈ run.costs.filterMap Prod.snd, cost ≤ cap) → ∀ start,
    throttler.inWindow start run.stamps ≤ throttler.limit - 1 + cap
  clear : (run.stage ()).inFlight = true →
    Clear throttler run.store.log run.stamps ((run.stage ()).reference run.store.clock)
  recorded : Recorded run
  logging : ∀ time cost stamp, run.stage () = .approved time cost stamp → cost ≠ 0

theorem Recorded.restore {run : ThrottleRun Unit} (recorded : Recorded run)
    (store : ThrottleStore) : Recorded { run with store := store } :=
  ⟨recorded.looked, recorded.logged, recorded.total⟩

section Steps

variable {throttler : Throttler} {cap : Nat} {run : ThrottleRun Unit}

theorem Paced.move (paced : Paced throttler cap run) {place : PopStage} {store : ThrottleStore}
    {dequeues : List (JobId × Int)}
    (log : LogSound throttler { run with
      store := store, stage := Function.update run.stage () place, dequeues := dequeues })
    (clear : place.inFlight = true →
      Clear throttler store.log run.stamps (place.reference store.clock))
    (looked : dequeues.map Prod.fst = run.costs.map Prod.fst ++ place.awaiting.toList)
    (pending : place.pending = (run.stage ()).pending)
    (logging : ∀ time cost stamp, place = .approved time cost stamp → cost ≠ 0) :
    Paced throttler cap { run with
      store := store, stage := Function.update run.stage () place, dequeues := dequeues } := by
  refine ⟨log, paced.window, ?_, ?_, ?_⟩
  · intro flying
    simp only [Function.update_self] at flying ⊢
    exact clear flying
  · obtain ⟨_, ⟨earlier, costs, records⟩, total⟩ := paced.recorded
    refine ⟨?_, ⟨earlier, ?_, records⟩, total⟩
    · simp only [Function.update_self]
      exact looked
    · simp only [Function.update_self, pending]
      exact costs
  · intro time cost stamp same
    simp only [Function.update_self] at same
    exact logging time cost stamp same

theorem Paced.price (paced : Paced throttler cap run) {id : JobId} {time : Int}
    {found : Option Payload} (stage : run.stage () = .taken id time)
    (log : LogSound throttler { run with
      stage := Function.update run.stage () (match costOf found with
        | some cost => .priced time cost
        | none => .finished)
      costs := run.costs ++ [(id, costOf found)] }) :
    Paced throttler cap { run with
      stage := Function.update run.stage () (match costOf found with
        | some cost => .priced time cost
        | none => .finished)
      costs := run.costs ++ [(id, costOf found)] } := by
  obtain ⟨looked, ⟨earlier, costs, records⟩, total⟩ := paced.recorded
  rw [stage] at looked costs
  have whole : run.costs.map Prod.snd = earlier := costs.trans (List.append_nil _)
  have clear := paced.clear (by rw [stage]; rfl)
  rw [stage] at clear
  refine ⟨log, ?_, ?_, ?_, ?_⟩
  · intro small start
    refine paced.window ?_ start
    intro cost member
    refine small cost ?_
    rw [List.filterMap_append]
    exact List.mem_append_left _ member
  · intro _
    simp only [Function.update_self]
    cases costOf found with
    | none => exact clear
    | some cost => exact clear
  · refine ⟨?_, ?_, total⟩
    · simp only [Function.update_self, List.map_append, looked]
      cases costOf found <;> exact (List.append_nil _).symm
    · cases price : costOf found with
      | none =>
          refine ⟨earlier ++ [none], ?_, ?_⟩
          · simp only [Function.update_self, List.map_append, whole]
            exact (List.append_nil _).symm
          · rw [List.filterMap_append]
            exact records.trans (by simp)
      | some cost =>
          refine ⟨earlier, ?_, records⟩
          simp only [Function.update_self, List.map_append, whole]
          rfl
  · intro at_time cost stamp same
    simp only [Function.update_self] at same
    cases price : costOf found with
    | none =>
        rw [price] at same
        cases same
    | some cost =>
        rw [price] at same
        cases same

theorem Paced.dequeue (paced : Paced throttler cap run)
    (allowed : (run.stage ()).allows throttler .dequeue)
    (log : LogSound throttler (run.serve throttler.limit () .dequeue)) :
    Paced throttler cap (run.serve throttler.limit () .dequeue) := by
  unfold ThrottleRun.serve at log ⊢
  cases stage : run.stage () with
  | allowed =>
      have looked := paced.recorded.looked
      have clear := paced.clear (by rw [stage]; rfl)
      rw [stage] at log looked clear
      cases waiting : run.store.queue.getLast? with
      | none =>
          rw [PopStage.after_dequeue_none waiting] at log ⊢
          simp only [waiting] at log ⊢
          refine paced.move log (by rintro ⟨⟩) ?_ (by rw [stage]; rfl) (by rintro _ _ _ ⟨⟩)
          exact (congrArg _ (List.append_nil _)).trans looked
      | some id =>
          rw [PopStage.after_dequeue_some waiting] at log ⊢
          simp only [waiting] at log ⊢
          refine paced.move log (fun _ => clear) ?_ (by rw [stage]; rfl) (by rintro _ _ _ ⟨⟩)
          rw [List.map_append, looked]
          exact congrArg (· ++ [id]) (List.append_nil _)
  | _ =>
      rw [stage] at allowed
      exact False.elim allowed

theorem Paced.record (paced : Paced throttler cap run) {time stamp : Int} {cost : Nat}
    {store : ThrottleStore} (stage : run.stage () = .approved time cost stamp)
    (log : LogSound throttler { run with
      store := store
      stage := Function.update run.stage () .logged
      stamps := run.stamps ++ List.replicate cost stamp
      records := run.records ++ [cost] }) :
    Paced throttler cap { run with
      store := store
      stage := Function.update run.stage () .logged
      stamps := run.stamps ++ List.replicate cost stamp
      records := run.records ++ [cost] } := by
  obtain ⟨looked, ⟨earlier, costs, records⟩, total⟩ := paced.recorded
  rw [stage] at looked costs
  have clear := paced.clear (by rw [stage]; rfl)
  rw [stage] at clear
  obtain ⟨_, checked, early, recent⟩ := clear
  change checked ≤ stamp at early
  refine ⟨log, ?_, ?_, ?_, ?_⟩
  · intro small start
    have before := paced.window small start
    have bound : cost ≤ cap := by
      refine small cost ?_
      change cost ∈ run.costs.filterMap (id ∘ Prod.snd)
      rw [← List.filterMap_map, costs]
      simp [PopStage.pending]
    change throttler.inWindow start (run.stamps ++ _) ≤ _
    rw [inWindow_append, inWindow_replicate]
    split
    · rename_i inside
      -- What is in the window with the new entry was counted by the check.
      have counted := recent (start - 1) (by omega)
      have fewer : throttler.inWindow start run.stamps ≤ newer (start - 1) run.stamps :=
        inWindow_le_newer (by omega)
      omega
    · omega
  · intro flying
    simp only [Function.update_self] at flying
    cases flying
  · refine ⟨?_, ⟨run.costs.map Prod.snd, ?_, ?_⟩, ?_⟩
    · simp only [Function.update_self]
      exact looked
    · simp only [Function.update_self]
      exact (List.append_nil _).symm
    · have positive := paced.logging time cost stamp stage
      change run.records ++ [cost] = _
      rw [costs, records, List.filterMap_append, List.filter_append]
      simp [PopStage.pending, positive]
    · change (run.stamps ++ _).length = (run.records ++ [cost]).sum
      rw [List.length_append, List.length_replicate, List.sum_append, List.sum_singleton, total]
  · intro at_time other at_stamp same
    simp only [Function.update_self] at same
    cases same

theorem Paced.checked (paced : Paced throttler cap run)
    (below : run.store.log.length < throttler.limit) :
    Clear throttler run.store.log run.stamps run.store.clock := by
  refine ⟨below, run.store.clock, le_refl _, ?_⟩
  intro limit bound
  have kept := paced.log.kept limit bound
  have counted : newer limit run.store.log ≤ run.store.log.length := newer_le_length
  omega

theorem Paced.free (paced : Paced throttler cap run) {time stamp : Int}
    (stage : run.stage () = .repurged time 0 stamp)
    (log : LogSound throttler { run with stage := Function.update run.stage () .finished }) :
    Paced throttler cap { run with stage := Function.update run.stage () .finished } := by
  obtain ⟨looked, ⟨earlier, costs, records⟩, total⟩ := paced.recorded
  rw [stage] at looked costs
  refine ⟨log, paced.window, ?_, ?_, ?_⟩
  · intro flying
    simp only [Function.update_self] at flying
    cases flying
  · refine ⟨?_, ⟨run.costs.map Prod.snd, ?_, ?_⟩, total⟩
    · simp only [Function.update_self]
      exact looked
    · simp only [Function.update_self]
      exact (List.append_nil _).symm
    · change run.records = _
      rw [costs, records, List.filterMap_append, List.filter_append]
      simp [PopStage.pending]
  · intro at_time other at_stamp same
    simp only [Function.update_self] at same
    cases same

structure PopStage.Quiet (clock : Int) (stage after : PopStage) : Prop where
  awaiting : after.awaiting = stage.awaiting
  pending : after.pending = stage.pending
  flying : after.inFlight = true → stage.inFlight = true
  reference : stage.inFlight = true → after.inFlight = true →
    stage.reference clock ≤ after.reference clock
  logging : ∀ time cost stamp, after ≠ .approved time cost stamp

theorem quiet_after {limit : Nat} {store : ThrottleStore} {stage : PopStage}
    {command : ThrottleCommand} (timely : stage.Timely store.clock)
    (allowed : stage.allows throttler command)
    (kind : command = .now ∨ command = .zrangeFirst ∨
      ∃ argument, command = .zrembyscore argument ∨ command = .expire argument) :
    stage.Quiet store.clock
      (stage.after limit store.clock command (serveThrottle command store).1) := by
  rcases kind with rfl | rfl | ⟨argument, rfl | rfl⟩
  · cases stage with
    | fresh => exact ⟨rfl, rfl, by rintro ⟨⟩, by rintro ⟨⟩, by rintro _ _ _ ⟨⟩⟩
    | priced time cost =>
        exact ⟨rfl, rfl, fun _ => rfl, fun _ _ => le_refl store.clock, by rintro _ _ _ ⟨⟩⟩
    | stamped time cost stamp =>
        exact ⟨rfl, rfl, fun _ => rfl, fun _ _ => le_refl stamp, by rintro _ _ _ ⟨⟩⟩
    | _ => exact False.elim allowed
  · cases stage with
    | purged => exact ⟨rfl, rfl, by rintro ⟨⟩, by rintro ⟨⟩, by rintro _ _ _ ⟨⟩⟩
    | repurged time cost stamp =>
        exact ⟨rfl, rfl, fun _ => rfl, fun _ _ => le_refl stamp, by rintro _ _ _ ⟨⟩⟩
    | _ => exact False.elim allowed
  · cases stage with
    | looking now => exact ⟨rfl, rfl, by rintro ⟨⟩, by rintro ⟨⟩, by rintro _ _ _ ⟨⟩⟩
    | rechecking time cost stamp now =>
        exact ⟨rfl, rfl, fun _ => rfl, fun _ _ => le_refl stamp, by rintro _ _ _ ⟨⟩⟩
    | _ => exact False.elim allowed
  · cases stage with
    | logged => exact ⟨rfl, rfl, by rintro ⟨⟩, by rintro ⟨⟩, by rintro _ _ _ ⟨⟩⟩
    | _ => exact False.elim allowed

theorem Paced.quiet (paced : Paced throttler cap run) {place : PopStage} {store : ThrottleStore}
    (quiet : (run.stage ()).Quiet run.store.clock place)
    (log : LogSound throttler { run with
      store := store, stage := Function.update run.stage () place })
    (clock : store.clock = run.store.clock) (fewer : store.log.length ≤ run.store.log.length) :
    Paced throttler cap { run with
      store := store, stage := Function.update run.stage () place } := by
  refine paced.move log ?_ ?_ quiet.pending ?_
  · intro flying
    have before := quiet.flying flying
    rw [clock]
    exact (paced.clear before).mono fewer (quiet.reference before flying)
  · rw [quiet.awaiting]
    exact paced.recorded.looked
  · intro time cost stamp same
    exact absurd same (quiet.logging time cost stamp)

theorem Paced.count (paced : Paced throttler cap run)
    (allowed : (run.stage ()).allows throttler .zcard)
    (log : LogSound throttler (run.serve throttler.limit () .zcard)) :
    Paced throttler cap (run.serve throttler.limit () .zcard) := by
  unfold ThrottleRun.serve at log ⊢
  have looked := paced.recorded.looked
  cases stage : run.stage () with
  | purged =>
      rw [stage] at log looked
      have place : PopStage.after throttler.limit run.store.clock .purged .zcard
          (serveThrottle .zcard run.store).1 =
            if run.store.log.length < throttler.limit then .allowed else .finished := rfl
      rw [place] at log ⊢
      by_cases below : run.store.log.length < throttler.limit
      · rw [if_pos below] at log ⊢
        exact paced.move log (fun _ => paced.checked below) looked (by rw [stage]; rfl)
          (by rintro _ _ _ ⟨⟩)
      · rw [if_neg below] at log ⊢
        exact paced.move log (by rintro ⟨⟩) looked (by rw [stage]; rfl) (by rintro _ _ _ ⟨⟩)
  | repurged time cost stamp =>
      have clear := paced.clear (by rw [stage]; rfl)
      rw [stage] at log clear looked
      have place : PopStage.after throttler.limit run.store.clock (.repurged time cost stamp) .zcard
          (serveThrottle .zcard run.store).1 =
            if run.store.log.length < throttler.limit then
              (if cost = 0 then .finished else .approved time cost stamp) else .finished := rfl
      rw [place, if_pos clear.counted] at log ⊢
      by_cases zero : cost = 0
      · subst zero
        rw [if_pos rfl] at log ⊢
        exact paced.free stage log
      · rw [if_neg zero] at log ⊢
        refine paced.move log (fun _ => clear) looked (by rw [stage]; rfl) ?_
        rintro _ _ _ ⟨⟩
        exact zero
  | _ =>
      rw [stage] at allowed
      exact False.elim allowed

theorem Paced.serve (whole : throttler.Whole) (paced : Paced throttler cap run)
    {command : ThrottleCommand} (allowed : (run.stage ()).allows throttler command) :
    Paced throttler cap (run.serve throttler.limit () command) := by
  have log := paced.log.serve whole allowed
  have timely := paced.log.timely ()
  cases command with
  | now =>
      refine paced.quiet (quiet_after timely allowed (Or.inl rfl)) log ?_ ?_
      · rfl
      · exact le_refl _
  | dequeue => exact paced.dequeue allowed log
  | zrembyscore max =>
      refine paced.quiet (quiet_after timely allowed (Or.inr (Or.inr ⟨max, Or.inl rfl⟩))) log ?_ ?_
      · rfl
      · exact List.length_filter_le _ _
  | expire seconds =>
      refine paced.quiet
        (quiet_after timely allowed (Or.inr (Or.inr ⟨seconds, Or.inr rfl⟩))) log ?_ ?_
      · rfl
      · exact le_refl _
  | zrangeFirst =>
      refine paced.quiet (quiet_after timely allowed (Or.inr (Or.inl rfl))) log ?_ ?_
      · rfl
      · exact le_refl _
  | zcard => exact paced.count allowed log
  | hget id =>
      cases stage : run.stage () with
      | taken member time =>
          rw [stage] at allowed
          obtain rfl : id = member := allowed
          unfold ThrottleRun.serve at log ⊢
          rw [stage] at log ⊢
          exact paced.price stage log
      | _ =>
          rw [stage] at allowed
          exact False.elim allowed
  | zaddMultiple score members =>
      obtain ⟨time, stage⟩ := LogSound.stage_of_zadd allowed
      unfold ThrottleRun.serve at log ⊢
      rw [stage] at log ⊢
      exact paced.record stage log

theorem Paced.launch (paced : Paced throttler cap run) (finished : run.stage () = .finished) :
    Paced throttler cap { run with stage := Function.update run.stage () .fresh } := by
  have timely : PopStage.Timely run.store.clock .fresh := trivial
  have log : LogSound throttler { run with stage := Function.update run.stage () .fresh } :=
    paced.log.unlogged timely rfl rfl rfl (by rw [finished]; simp)
  have looked := paced.recorded.looked
  rw [finished] at looked
  refine paced.move log ?_ looked ?_ ?_
  · rintro ⟨⟩
  · rw [finished]
    rfl
  · rintro _ _ _ ⟨⟩

theorem Paced.later (paced : Paced throttler cap run) {clock : Int}
    (after : run.store.clock ≤ clock) :
    Paced throttler cap { run with store := { run.store with clock := clock } } := by
  refine ⟨paced.log.later after, paced.window, ?_, paced.recorded.restore _, paced.logging⟩
  intro flying
  refine (paced.clear flying).mono (le_refl _) ?_
  change (run.stage ()).reference run.store.clock ≤ (run.stage ()).reference clock
  cases run.stage () <;> simp only [PopStage.reference, le_refl] <;> exact after

theorem paced_initial (throttler : Throttler) (cap : Nat) (clock : Int) (queue : List JobId)
    (jobs : JobId → Option Payload) :
    Paced throttler cap (ThrottlePool.initial clock queue jobs : ThrottlePool Unit).state := by
  refine ⟨LogSound.initial clock queue jobs, ?_, ?_, ⟨rfl, ⟨[], rfl, rfl⟩, rfl⟩, ?_⟩
  · intro _ start
    exact Nat.zero_le _
  · intro flying
    cases flying
  · rintro _ _ _ ⟨⟩

end Steps

theorem Throttler.sized_of_multiple {throttler : Throttler} {seconds : Int} (positive : 1 ≤ seconds)
    (multiple : throttler.windowMs = 1000 * seconds) (fits : throttler.windowLength < 2 ^ 63) :
    throttler.Sized := by
  refine ⟨?_, fits⟩
  unfold windowLength
  omega

/-- The cost logged in any window is less than the limit plus the largest cost, and once the
pops are over every job dequeued is logged with its cost. -/
theorem throttle_window_bound (throttler : Throttler) (build : Build) (seconds : Int)
    (positive : 1 ≤ seconds) (multiple : throttler.windowMs = 1000 * seconds)
    (fits : throttler.windowLength < 2 ^ 63) (cap : Nat) (clock : Int) (opened : Stamp clock)
    (queue : List JobId) (jobs : JobId → Option Payload) (pool : ThrottlePool Unit)
    (reaches : Pool.Reaches (throttleRules throttler build (fun _ _ _ => True) NoneLogged)
      (ThrottlePool.initial clock queue jobs) pool) :
    ((∀ cost ∈ pool.state.costs.filterMap Prod.snd, cost ≤ cap) → ∀ start,
      throttler.inWindow start pool.state.stamps ≤ throttler.limit - 1 + cap) ∧
    (Idle (pool.threads ()) →
      pool.state.costs.map Prod.fst = pool.state.dequeues.map Prod.fst ∧
      pool.state.records =
        (pool.state.costs.filterMap Prod.snd).filter (fun cost => decide (cost ≠ 0)) ∧
      pool.state.stamps.length = pool.state.records.sum) := by
  have whole := Throttler.whole_of_multiple multiple
  have sized := Throttler.sized_of_multiple positive multiple fits
  obtain ⟨paced, resting⟩ := throttle_invariant sized opened (Paced throttler cap)
    (paced_initial throttler cap clock queue jobs)
    (fun current thread command paced allowed _ => paced.serve whole allowed)
    (fun run thread paced finished => paced.launch finished)
    (fun run later paced after => paced.later after)
    (by
      intro current deadline paced due passed settled
      refine ⟨paced.log.expire settled due passed, paced.window, ?_,
        paced.recorded.restore _, paced.logging⟩
      intro flying
      exact (paced.clear flying).mono (Nat.zero_le _) (le_refl _))
    (by
      intro run queue jobs paced
      exact ⟨⟨paced.log.stamped, paced.log.past, paced.log.kept, paced.log.covered,
        paced.log.timely⟩, paced.window, paced.clear, paced.recorded.restore _,
        paced.logging⟩)
    reaches
  refine ⟨paced.window, ?_⟩
  intro idle
  obtain ⟨looked, ⟨earlier, costs, records⟩, total⟩ := paced.recorded
  rw [resting () idle] at looked costs
  have same : pool.state.costs.map Prod.snd = earlier := costs.trans (List.append_nil _)
  refine ⟨(looked.trans (List.append_nil _)).symm, ?_, total⟩
  rw [records, ← same, List.filterMap_map]
  rfl

def twoASecond : Throttler where
  limit := 2
  windowMs := 1000

def popMoves : List (ThrottleMove Unit) :=
  .launch () :: List.replicate 12 (.serve ())

instance [Fintype ι] : DecidablePred (NoneLogged : ThrottlePool ι → Prop) :=
  fun pool => inferInstanceAs (Decidable (∀ thread, pool.state.stage thread ≠ .logged))

def meteredJob (id : JobId) (cost : Nat) : JobEnvelope :=
  .new "low" {
    name := "work", args := .null, uniqueId := none, onConflict := .skip,
    shouldResurrect := true, throttleCost := some cost } id 0 0

def mixedCosts (id : JobId) : Option Payload :=
  if id = "b" then some (.json (meteredJob "b" 0))
  else if id = "a" then some (.json (meteredJob "a" 2)) else none

def mixedMoves : List (ThrottleMove Unit) :=
  popMoves ++ [.advance 5] ++ popMoves ++ [.serve (), .advance 10] ++ popMoves ++
    [.serve (), .advance 15] ++ popMoves

theorem throttle_window_bound_tight :
    ∃ pool : ThrottlePool Unit, pool.state.dequeues = [("b", 0), ("c", 5), ("a", 10)] ∧
      twoASecond.inWindow 0 pool.state.stamps = 3 ∧
      twoASecond.inWindow 0 pool.state.stamps ≤ 2 - 1 + 2 ∧
      pool.state.costs.map Prod.fst = pool.state.dequeues.map Prod.fst ∧
      pool.state.records =
        (pool.state.costs.filterMap Prod.snd).filter (fun cost => decide (cost ≠ 0)) ∧
      pool.state.stamps.length = pool.state.records.sum := by
  have fits : ThrottleMove.allFit twoASecond .debug (fun _ _ _ => True) NoneLogged
      (ThrottlePool.initial 0 ["d", "a", "c", "b"] mixedCosts) mixedMoves := by
    decide +kernel
  have bound := throttle_window_bound twoASecond .debug 1 (by decide) rfl (by decide +kernel) 2 0
    ⟨le_refl 0, by decide⟩ ["d", "a", "c", "b"] mixedCosts _ (ThrottleMove.reaches_play fits)
  refine ⟨_, ?_, ?_, bound.1 ?_ 0, bound.2 ?_⟩
  all_goals decide +kernel

def losingMoves : List (ThrottleMove Unit) :=
  popMoves ++ [.serve (), .advance 999999] ++ popMoves ++ [.advance 1000001, .expire, .serve ()] ++
    popMoves ++ [.serve ()] ++ popMoves ++ [.serve ()]

theorem throttle_window_exceeded :
    ¬∀ (throttler : Throttler) (build : Build) (seconds : Int), 1 ≤ seconds →
      throttler.windowMs = 1000 * seconds → throttler.windowLength < 2 ^ 63 →
      ∀ (cap : Nat) (clock : Int), Stamp clock →
      ∀ (queue : List JobId) (jobs : JobId → Option Payload) (pool : ThrottlePool Unit),
        Pool.Reaches (throttleRules throttler build (fun _ _ _ => True) fun _ => True)
          (ThrottlePool.initial clock queue jobs) pool →
        (∀ cost ∈ pool.state.costs.filterMap Prod.snd, cost ≤ cap) → ∀ start,
          throttler.inWindow start pool.state.stamps ≤ throttler.limit - 1 + cap := by
  intro bounded
  have fits : ThrottleMove.allFit twoASecond .release (fun _ _ _ => True) (fun _ => True)
      (ThrottlePool.initial 0 ["d", "c", "b", "a"] fun _ => none) losingMoves := by
    decide +kernel
  have bound := bounded twoASecond .release 1 (by decide) rfl (by decide +kernel) 1 0
    ⟨le_refl 0, by decide⟩ ["d", "c", "b", "a"] (fun _ => none) _
    (ThrottleMove.reaches_play fits) (by decide +kernel) 999999
  revert bound
  decide +kernel

end Oxana
