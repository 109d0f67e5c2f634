import Oxana.ResultCollector

/-!
The failures that the loops of a process count together: a call that fails raises the shared
counter, a call that succeeds looks at it and sets it back if it is not zero, and any step of
another loop may come in between.  A loop gives up when its own failure reaches the tolerance.
-/

namespace Oxana

/-- A loop whose calls go through `track_redis_result`: the state it is in, what it does between
its calls, what it does with the answers, and when it returns. -/
structure TrackedLoop (σ : Type) where
  calls : σ → Prop
  moves : σ → σ → Prop
  onSuccess : σ → σ
  onFailure : σ → σ
  returns : Bool → σ → Prop

def polling (returns : Bool → Prop) : TrackedLoop Unit where
  calls _ := True
  moves _ _ := False
  onSuccess state := state
  onFailure state := state
  returns cancelled _ := returns cancelled

/-- `settling` is a success that has seen failures and has not yet set the counter back. -/
inductive LoopStatus (σ : Type)
  | running (state : σ)
  | settling (state : σ)
  | returned (result : Except OxanaError Unit) (state : σ)

def LoopStatus.state {σ : Type} : LoopStatus σ → σ
  | running state => state
  | settling state => state
  | returned _ state => state

inductive TrackedEvent (ι : Type)
  | succeeded (loop : ι)
  | failed (loop : ι)

def failuresInRow {ι : Type} (past : List (TrackedEvent ι)) : Nat :=
  past.foldl (fun count event => match event with
    | .succeeded _ => 0
    | .failed _ => count + 1) 0

section Appending

variable {ι : Type} (past : List (TrackedEvent ι)) (loop : ι)

@[simp] theorem failuresInRow_succeeded : failuresInRow (past ++ [.succeeded loop]) = 0 := by
  unfold failuresInRow
  rw [List.foldl_append]
  rfl

@[simp] theorem failuresInRow_failed :
    failuresInRow (past ++ [.failed loop]) = failuresInRow past + 1 := by
  unfold failuresInRow
  rw [List.foldl_append]
  rfl

end Appending

def TooMany {ι : Type} (tolerance : Nat) (loop : ι) (past : List (TrackedEvent ι)) : Prop :=
  ∃ front, front ++ [.failed loop] <+: past ∧
    tolerance ≤ failuresInRow (front ++ [TrackedEvent.failed loop]) % 2 ^ 32

section Prefixes

variable {ι : Type} {tolerance : Nat} {loop : ι} {past : List (TrackedEvent ι)}

theorem TooMany.append (many : TooMany tolerance loop past) (later : List (TrackedEvent ι)) :
    TooMany tolerance loop (past ++ later) := by
  obtain ⟨front, before, reached⟩ := many
  exact ⟨front, before.trans (List.prefix_append past later), reached⟩

theorem tooMany_append_singleton {event : TrackedEvent ι}
    (many : TooMany tolerance loop (past ++ [event])) :
    TooMany tolerance loop past ∨
      (event = .failed loop ∧ tolerance ≤ failuresInRow (past ++ [event]) % 2 ^ 32) := by
  obtain ⟨front, before, reached⟩ := many
  rcases List.prefix_concat_iff.mp before with same | earlier
  · obtain ⟨fronts, events⟩ := List.append_inj' same rfl
    subst fronts
    exact .inr ⟨(List.cons.inj events).1.symm, same ▸ reached⟩
  · exact .inl ⟨front, earlier, reached⟩

theorem exceeded_iff {failures : Nat} (counted : failures = failuresInRow past % 2 ^ 32)
    (loop : ι) : (recordRedisFailure failures tolerance).1 = true ↔
      tolerance ≤ failuresInRow (past ++ [.failed loop]) % 2 ^ 32 := by
  simp only [recordRedisFailure, decide_eq_true_eq, failuresInRow_failed, counted]
  omega

end Prefixes

structure TrackedRun (ι : Type) (State : ι → Type) where
  failures : Nat
  cancelled : Bool
  loops : (loop : ι) → LoopStatus (State loop)
  past : List (TrackedEvent ι)

section Steps

variable {ι : Type} [DecidableEq ι] {State : ι → Type} {σ : Type}

def TrackedRun.start (initial : (loop : ι) → State loop) : TrackedRun ι State where
  failures := 0
  cancelled := false
  loops := fun loop => .running (initial loop)
  past := []

def TrackedRun.set (run : TrackedRun ι State) (loop : ι) (status : LoopStatus (State loop)) :
    TrackedRun ι State :=
  { run with loops := Function.update run.loops loop status }

/-- The atomic steps on the shared counter, and the steps of a loop on its own. -/
inductive TrackedStep (tolerance : Nat) (loops : (loop : ι) → TrackedLoop (State loop)) :
    TrackedRun ι State → TrackedRun ι State → Prop
  | move {run : TrackedRun ι State} {loop : ι} {state next : State loop}
      (running : run.loops loop = .running state) (moves : (loops loop).moves state next) :
      TrackedStep tolerance loops run (run.set loop (.running next))
  | succeed {run : TrackedRun ι State} {loop : ι} {state : State loop}
      (running : run.loops loop = .running state) (calls : (loops loop).calls state)
      (none : run.failures = 0) :
      TrackedStep tolerance loops run
        { run.set loop (.running ((loops loop).onSuccess state)) with
          past := run.past ++ [.succeeded loop] }
  | observe {run : TrackedRun ι State} {loop : ι} {state : State loop}
      (running : run.loops loop = .running state) (calls : (loops loop).calls state)
      (some : run.failures ≠ 0) :
      TrackedStep tolerance loops run (run.set loop (.settling state))
  | settle {run : TrackedRun ι State} {loop : ι} {state : State loop}
      (settling : run.loops loop = .settling state) :
      TrackedStep tolerance loops run
        { run.set loop (.running ((loops loop).onSuccess state)) with
          failures := recordRedisSuccess run.failures
          past := run.past ++ [.succeeded loop] }
  | tolerate {run : TrackedRun ι State} {loop : ι} {state : State loop}
      (running : run.loops loop = .running state) (calls : (loops loop).calls state)
      (tolerated : (recordRedisFailure run.failures tolerance).1 = false) :
      TrackedStep tolerance loops run
        { run.set loop (.running ((loops loop).onFailure state)) with
          failures := (recordRedisFailure run.failures tolerance).2
          past := run.past ++ [.failed loop] }
  | giveUp {run : TrackedRun ι State} {loop : ι} {state : State loop} (error : OxanaError)
      (running : run.loops loop = .running state) (calls : (loops loop).calls state)
      (exceeded : (recordRedisFailure run.failures tolerance).1 = true) :
      TrackedStep tolerance loops run
        { run.set loop (.returned (.error error) state) with
          failures := (recordRedisFailure run.failures tolerance).2
          past := run.past ++ [.failed loop] }
  | finish {run : TrackedRun ι State} {loop : ι} {state : State loop}
      (running : run.loops loop = .running state)
      (returns : (loops loop).returns run.cancelled state) :
      TrackedStep tolerance loops run (run.set loop (.returned (.ok ()) state))
  | cancel {run : TrackedRun ι State} :
      TrackedStep tolerance loops run { run with cancelled := true }

inductive TrackedReaches (tolerance : Nat) (loops : (loop : ι) → TrackedLoop (State loop))
    (initial : (loop : ι) → State loop) : TrackedRun ι State → Prop
  | start : TrackedReaches tolerance loops initial (.start initial)
  | move {run next : TrackedRun ι State} : TrackedReaches tolerance loops initial run →
      TrackedStep tolerance loops run next → TrackedReaches tolerance loops initial next

variable {tolerance : Nat} {loops : (loop : ι) → TrackedLoop (State loop)}
  {initial : (loop : ι) → State loop} {run next : TrackedRun ι State}

theorem TrackedRun.set_self (run : TrackedRun ι State) (loop : ι)
    (status : LoopStatus (State loop)) : (run.set loop status).loops loop = status := by
  change Function.update run.loops loop status loop = status
  rw [Function.update_self]

theorem TrackedRun.set_of_ne (run : TrackedRun ι State) {loop other : ι} (apart : other ≠ loop)
    (status : LoopStatus (State loop)) : (run.set loop status).loops other = run.loops other := by
  change Function.update run.loops loop status other = run.loops other
  rw [Function.update_of_ne apart]

/-! The counter. -/

theorem TrackedStep.counted (step : TrackedStep tolerance loops run next)
    (counted : run.failures = failuresInRow run.past % 2 ^ 32) :
    next.failures = failuresInRow next.past % 2 ^ 32 := by
  cases step with
  | succeed running calls none =>
      rw [failuresInRow_succeeded]
      exact none
  | settle settling => simp [recordRedisSuccess]
  | tolerate running calls tolerated =>
      simp only [recordRedisFailure, failuresInRow_failed, counted]
      omega
  | giveUp error running calls exceeded =>
      simp only [recordRedisFailure, failuresInRow_failed, counted]
      omega
  | _ => exact counted

theorem TrackedReaches.counted (reaches : TrackedReaches tolerance loops initial run) :
    run.failures = failuresInRow run.past % 2 ^ 32 := by
  induction reaches with
  | start => rfl
  | move _ step ih => exact step.counted ih

def GivenUp (run : TrackedRun ι State) (loop : ι) : Prop :=
  ∃ error state, run.loops loop = .returned (.error error) state

theorem GivenUp.step {loop : ι} (given : GivenUp run loop)
    (step : TrackedStep tolerance loops run next) : GivenUp next loop := by
  obtain ⟨error, state, ended⟩ := given
  have kept : ∀ {other : ι} {status : LoopStatus (State other)},
      (∀ result state, run.loops other ≠ .returned result state) →
      (run.set other status).loops loop = .returned (.error error) state := by
    intro other status alive
    have apart : loop ≠ other := by
      rintro rfl
      exact alive _ _ ended
    rw [run.set_of_ne apart, ended]
  refine ⟨error, state, ?_⟩
  cases step with
  | cancel => exact ended
  | settle settling => exact kept fun _ _ => by simp [settling]
  | move running _ => exact kept fun _ _ => by simp [running]
  | succeed running _ _ => exact kept fun _ _ => by simp [running]
  | observe running _ _ => exact kept fun _ _ => by simp [running]
  | tolerate running _ _ => exact kept fun _ _ => by simp [running]
  | giveUp _ running _ _ => exact kept fun _ _ => by simp [running]
  | finish running _ => exact kept fun _ _ => by simp [running]

/-- Only the step that gives up ends a loop with an error. -/
theorem GivenUp.before {loop : ι} (given : GivenUp next loop)
    (step : TrackedStep tolerance loops run next) :
    GivenUp run loop ∨ (next.past = run.past ++ [.failed loop] ∧
      (recordRedisFailure run.failures tolerance).1 = true) := by
  obtain ⟨error, state, ended⟩ := given
  have earlier : ∀ {other : ι} {status : LoopStatus (State other)},
      (∀ error state, status ≠ .returned (.error error) state) →
      (run.set other status).loops loop = .returned (.error error) state → GivenUp run loop := by
    intro other status fine ended
    by_cases same : loop = other
    · subst same
      rw [run.set_self] at ended
      exact absurd ended (fine error state)
    · rw [run.set_of_ne same] at ended
      exact ⟨error, state, ended⟩
  cases step with
  | cancel => exact .inl ⟨error, state, ended⟩
  | @giveUp other _ _ _ _ exceeded =>
      by_cases same : loop = other
      · subst same
        exact .inr ⟨rfl, exceeded⟩
      · exact .inl ⟨error, state, (run.set_of_ne same _).symm.trans ended⟩
  | settle _ => exact .inl (earlier (fun _ _ => by simp) ended)
  | move _ _ => exact .inl (earlier (fun _ _ => by simp) ended)
  | succeed _ _ _ => exact .inl (earlier (fun _ _ => by simp) ended)
  | observe _ _ _ => exact .inl (earlier (fun _ _ => by simp) ended)
  | tolerate _ _ _ => exact .inl (earlier (fun _ _ => by simp) ended)
  | finish _ _ => exact .inl (earlier (fun _ _ => by simp) ended)

theorem TrackedStep.givenUp_iff {loop : ι} (step : TrackedStep tolerance loops run next)
    (counted : run.failures = failuresInRow run.past % 2 ^ 32)
    (before : GivenUp run loop ↔ TooMany tolerance loop run.past) :
    GivenUp next loop ↔ TooMany tolerance loop next.past := by
  constructor
  · intro given
    rcases given.before step with earlier | ⟨past, exceeded⟩
    · have many := before.mp earlier
      cases step with
      | succeed _ _ _ => exact many.append _
      | settle _ => exact many.append _
      | tolerate _ _ _ => exact many.append _
      | giveUp _ _ _ _ => exact many.append _
      | _ => exact many
    · rw [past]
      exact ⟨run.past, List.prefix_refl _, (exceeded_iff counted loop).mp exceeded⟩
  · intro many
    by_cases earlier : TooMany tolerance loop run.past
    · exact (before.mpr earlier).step step
    · cases step with
      | @succeed other _ _ _ _ =>
          rcases tooMany_append_singleton many with old | ⟨impossible, _⟩
          · exact absurd old earlier
          · cases impossible
      | @settle other _ _ =>
          rcases tooMany_append_singleton many with old | ⟨impossible, _⟩
          · exact absurd old earlier
          · cases impossible
      | @tolerate other _ _ _ tolerated =>
          rcases tooMany_append_singleton many with old | ⟨same, reached⟩
          · exact absurd old earlier
          · rw [(exceeded_iff counted other).mpr reached] at tolerated
            cases tolerated
      | @giveUp other state error _ _ _ =>
          rcases tooMany_append_singleton many with old | ⟨same, _⟩
          · exact absurd old earlier
          · obtain rfl := TrackedEvent.failed.inj same
            exact ⟨error, state, run.set_self _ _⟩
      | _ => exact absurd many earlier

/-- In whatever order the loops of a process track their calls, one of them gives up exactly at
the failure of its own that is as many in a row, over all loops, as are not tolerated. -/
theorem loop_gives_up_iff (reaches : TrackedReaches tolerance loops initial run) (loop : ι) :
    GivenUp run loop ↔ TooMany tolerance loop run.past := by
  induction reaches with
  | start =>
      constructor
      · rintro ⟨error, state, ended⟩
        cases ended
      · rintro ⟨front, before, _⟩
        have empty := List.prefix_nil.mp before
        exact absurd empty (by simp)
  | move earlier step ih => exact step.givenUp_iff earlier.counted ih

theorem loop_gives_up_iff_second :
    ∃ run : TrackedRun Bool fun _ => Unit, run.past = [.failed false, .failed true] ∧
      (GivenUp run true ↔ TooMany 2 true run.past) ∧ GivenUp run true := by
  have begun : TrackedReaches 2 (fun _ : Bool => polling fun cancelled => cancelled = true)
      (fun _ => ()) (.start fun _ => ()) := .start
  have first := begun.move (@TrackedStep.tolerate _ _ _ _ _ _ false () rfl trivial rfl)
  have second := first.move (@TrackedStep.giveUp _ _ _ _ _ _ true () .redis rfl trivial rfl)
  exact ⟨_, rfl, loop_gives_up_iff second true, .redis, (), rfl⟩

/-! What a loop keeps true on its own. -/

structure LocalInvariant (loop : TrackedLoop σ) (Holds : σ → Prop) : Prop where
  moves : ∀ {state next}, Holds state → loop.moves state next → Holds next
  onSuccess : ∀ {state}, Holds state → loop.calls state → Holds (loop.onSuccess state)
  onFailure : ∀ {state}, Holds state → loop.calls state → Holds (loop.onFailure state)

def LoopStatus.Consistent (loop : TrackedLoop σ) (cancelled : Bool) : LoopStatus σ → Prop
  | running _ => True
  | settling state => loop.calls state
  | returned (.ok ()) state => ∃ before : Bool, loop.returns before state ∧
      (before = true → cancelled = true)
  | returned (.error _) _ => True

theorem LocalInvariant.step {loop : ι} {Holds : State loop → Prop}
    (invariant : LocalInvariant (loops loop) Holds) (step : TrackedStep tolerance loops run next)
    (before : Holds (run.loops loop).state ∧
      (run.loops loop).Consistent (loops loop) run.cancelled) :
    Holds (next.loops loop).state ∧ (next.loops loop).Consistent (loops loop) next.cancelled := by
  have other : ∀ {changed : ι} (status : LoopStatus (State changed)),
      (∀ same : changed = loop, Holds (same ▸ status).state ∧
        (same ▸ status).Consistent (loops loop) run.cancelled) →
      Holds ((run.set changed status).loops loop).state ∧
        ((run.set changed status).loops loop).Consistent (loops loop) run.cancelled := by
    intro changed status own
    by_cases same : changed = loop
    · subst same
      rw [run.set_self]
      exact own rfl
    · rw [run.set_of_ne (Ne.symm same)]
      exact before
  obtain ⟨holds, consistent⟩ := before
  cases step with
  | cancel =>
      refine ⟨holds, ?_⟩
      change (run.loops loop).Consistent (loops loop) true
      match status : run.loops loop with
      | .running _ => trivial
      | .settling _ => rwa [status] at consistent
      | .returned (.ok ()) _ =>
          rw [status] at consistent
          obtain ⟨early, returns, _⟩ := consistent
          exact ⟨early, returns, fun _ => rfl⟩
      | .returned (.error _) _ => trivial
  | move running moves =>
      refine other _ ?_
      rintro rfl
      rw [running] at holds
      exact ⟨invariant.moves holds moves, trivial⟩
  | succeed running calls _ =>
      refine other _ ?_
      rintro rfl
      rw [running] at holds
      exact ⟨invariant.onSuccess holds calls, trivial⟩
  | observe running calls _ =>
      refine other _ ?_
      rintro rfl
      rw [running] at holds
      exact ⟨holds, calls⟩
  | settle settling =>
      refine other _ ?_
      rintro rfl
      rw [settling] at holds consistent
      exact ⟨invariant.onSuccess holds consistent, trivial⟩
  | tolerate running calls _ =>
      refine other _ ?_
      rintro rfl
      rw [running] at holds
      exact ⟨invariant.onFailure holds calls, trivial⟩
  | giveUp error running calls _ =>
      refine other _ ?_
      rintro rfl
      rw [running] at holds
      exact ⟨holds, trivial⟩
  | finish running returns =>
      refine other _ ?_
      rintro rfl
      rw [running] at holds
      exact ⟨holds, run.cancelled, returns, id⟩

theorem TrackedReaches.holds {loop : ι} {Holds : State loop → Prop}
    (reaches : TrackedReaches tolerance loops initial run)
    (invariant : LocalInvariant (loops loop) Holds) (start : Holds (initial loop)) :
    Holds (run.loops loop).state ∧
      (run.loops loop).Consistent (loops loop) run.cancelled := by
  induction reaches with
  | start => exact ⟨start, trivial⟩
  | move _ step ih => exact invariant.step step ih

end Steps

end Oxana
