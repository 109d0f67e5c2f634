import Oxana.BatchAlignment
import Oxana.Footprints
import Oxana.MachineArithmetic

/-!
The arithmetic between a delay and the score of a delayed job: the casts and limits of
`enqueue_in`, the `u64` sum of `retry_in`, and the power in the default `Worker::retry_delay`.
-/

namespace Oxana

/-- `now + delay_s * 1_000_000` in `retry_in`. -/
def delayedScore (build : Build) (now delay : Nat) : Option Nat := do
  let micros ← build.unsigned 64 (delay * 1000000)
  build.unsigned 64 (now + micros)

def defaultRetryDelay (build : Build) (retries : Nat) : Option Nat := do
  let exponent ← build.unsigned 32 (retries + 2)
  build.unsigned 64 (5 ^ exponent)

theorem delayedScore_release (now delay : Nat) :
    (delayedScore .release now delay).map Int.ofNat = some (retryScore now delay) := by
  unfold delayedScore retryScore
  rw [Build.unsigned_release]
  simp only [Option.bind_eq_bind, Option.bind_some, Build.unsigned_release, Option.map_some,
    Option.some.injEq]
  rw [Nat.add_mod_mod]
  simp

theorem delayedScore_of_lt (build : Build) {now delay : Nat}
    (fits : now + delay * 1000000 < 2 ^ 64) :
    delayedScore build now delay = some (now + delay * 1000000) := by
  have product : delay * 1000000 < 2 ^ 64 := by omega
  unfold delayedScore
  rw [build.unsigned_of_lt product, Option.bind_eq_bind, Option.bind_some]
  exact build.unsigned_of_lt fits

theorem lt_of_delayedScore {now delay : Nat} (runs : delayedScore .debug now delay ≠ none) :
    now + delay * 1000000 < 2 ^ 64 := by
  unfold delayedScore at runs
  have product : delay * 1000000 < 2 ^ 64 := by
    apply Build.lt_of_debug
    intro panics
    rw [panics] at runs
    exact runs rfl
  rw [Build.unsigned_of_lt _ product, Option.bind_eq_bind, Option.bind_some] at runs
  exact Build.lt_of_debug runs

theorem pow_five_lt {exponent : Nat} : 5 ^ exponent < 2 ^ 64 ↔ exponent ≤ 27 := by
  constructor
  · intro fits
    by_contra large
    have grown : 5 ^ 28 ≤ 5 ^ exponent := Nat.pow_le_pow_right (by omega) (by omega)
    omega
  · intro small
    have grown : 5 ^ exponent ≤ 5 ^ 27 := Nat.pow_le_pow_right (by omega) small
    omega

theorem defaultRetryDelay_of_le (build : Build) {retries : Nat} (small : retries ≤ 25) :
    defaultRetryDelay build retries = some (5 ^ (retries + 2)) := by
  unfold defaultRetryDelay
  rw [build.unsigned_of_lt (by omega)]
  exact build.unsigned_of_lt (pow_five_lt.mpr (by omega))

theorem le_of_defaultRetryDelay {retries : Nat}
    (runs : defaultRetryDelay .debug retries ≠ none) : retries ≤ 25 := by
  unfold defaultRetryDelay at runs
  have exponent : retries + 2 < 2 ^ 32 := by
    apply Build.lt_of_debug
    intro panics
    rw [panics] at runs
    exact runs rfl
  rw [Build.unsigned_of_lt _ exponent] at runs
  have power := pow_five_lt.mp (Build.lt_of_debug runs)
  omega

/-! The commands. -/

def Command.NotBefore (due : Int) (immediate : Prop) : Command → Prop
  | .zadd _ _ score => due ≤ score
  | .lpush _ _ => immediate
  | _ => True

/-- The program neither panics nor places a job before it is due. -/
def PlacesInTime {α : Type} (due : Int) (immediate : Prop) (program : Redis α) : Prop :=
  program.Concludes (fun _ => True) (fun _ => True) ∧
    program.Sends fun command => command.NotBefore due immediate

section Placing

variable {due : Int} {immediate : Prop}

theorem concludes_jobEnqueueAction (envelope : JobEnvelope) :
    (StorageInternal.jobEnqueueAction envelope).Concludes (fun _ => True) fun _ => True := by
  unfold StorageInternal.jobEnqueueAction
  split
  · refine Program.concludes_bind (Program.concludes_request _) fun found _ => ?_
    split
    · split
      · refine Program.concludes_bind (concludes_getJob _) fun existing _ => ?_
        cases existing <;> trivial
      · trivial
      · trivial
    · trivial
  · trivial

theorem concludes_enqueueWConn (storage : StorageInternal) (envelope : JobEnvelope)
    (destination : JobDestination) :
    (storage.enqueueWConn envelope destination).Concludes (fun _ => True) fun _ => True := by
  refine Program.concludes_bind (concludes_jobEnqueueAction envelope) fun action _ => ?_
  cases action with
  | skip => trivial
  | replace existingQueue =>
      exact Program.concludes_bind (Program.concludes_batch _) fun _ _ => trivial
  | default => exact Program.concludes_bind (Program.concludes_batch _) fun _ _ => trivial

theorem placesInTime_enqueueWConn (storage : StorageInternal) (envelope : JobEnvelope)
    (destination : JobDestination)
    (pushed : (storage.pushToDestination envelope destination).NotBefore due immediate) :
    PlacesInTime due immediate (storage.enqueueWConn envelope destination) :=
  ⟨concludes_enqueueWConn storage envelope destination,
    StorageInternal.enqueueWConn_sends_of trivial trivial trivial (fun _ => trivial)
      (fun _ => trivial) pushed⟩

theorem placesInTime_retryIn (now : Int) (id : JobId) (delay : Nat) (error : String)
    (score : due ≤ retryScore now delay) :
    PlacesInTime due immediate (StorageInternal.retryIn now id delay error) := by
  refine ⟨concludes_retryIn now id delay error, ?_⟩
  refine Program.sends_bind (StorageInternal.getJob_sends trivial) fun found => ?_
  cases found with
  | none => trivial
  | some envelope =>
      refine Program.sends_batch ?_
      intro command member
      simp only [List.mem_cons, List.not_mem_nil, or_false] at member
      rcases member with rfl | rfl
      · trivial
      · exact score

end Placing

/-! The limits of `enqueue_in`. -/

/-- The end of the times of `DateTime<Utc>`, in microseconds. -/
def endOfTime : Int := 8210266876800 * 1000000

theorem scheduleTime_of_lt {now : Int} {delay : Nat} (clock : 0 ≤ now)
    (early : now + delay * 1000000 < endOfTime) :
    scheduleTime now delay = some (now + delay * 1000000) := by
  unfold endOfTime at early
  unfold scheduleTime
  dsimp only
  rw [asI64_of_lt (by omega), if_neg (by omega), if_pos (by omega)]

theorem lt_of_scheduleTime {now : Int} {delay : Nat} (cast : asI64 delay = delay)
    (runs : scheduleTime now delay ≠ none) : now + delay * 1000000 < endOfTime := by
  unfold scheduleTime at runs
  dsimp only at runs
  rw [cast] at runs
  unfold endOfTime
  by_contra late
  split at runs
  · exact runs rfl
  · rw [if_neg (by omega)] at runs
    exact runs rfl

/-! Delayed jobs. -/

/-- How a job comes to be delayed: by `enqueue_in`, by a failed attempt with the delay that its
worker or the override returns, or by one with the default delay. -/
inductive DelayedJob
  | enqueuedIn (delay : Nat)
  | retriedIn (delay : Nat)
  | backedOff (retries maxRetries : Nat)

def DelayedJob.Sized : DelayedJob → Prop
  | enqueuedIn delay => delay < 2 ^ 64
  | retriedIn delay => delay < 2 ^ 64
  | backedOff retries maxRetries => retries ≤ maxRetries ∧ maxRetries < 2 ^ 32

def RetriedInTime (now delay : Nat) : Prop :=
  (∀ build, delayedScore build now delay ≠ none) ∧
    ∀ id error, PlacesInTime (min (now + delay * 1000000) (2 ^ 64 - 1)) False
      (StorageInternal.retryIn now id delay error)

/-- The job is never due early and no step of the arithmetic overflows, panics or casts to a
negative number. -/
def DelayedJob.NeverEarly (now : Nat) : DelayedJob → Prop
  | enqueuedIn delay => 0 ≤ asI64 delay ∧
      ∀ (storage : StorageInternal) (stamped checked : Int) (envelope : JobEnvelope),
        PlacesInTime (min (now + delay * 1000000) endOfTime)
          (delay = 0 ∨ now + delay * 1000000 ≤ checked)
          (storage.enqueueIn now stamped checked envelope delay)
  | retriedIn delay => RetriedInTime now delay
  | backedOff retries maxRetries =>
      ∀ build, ∃ delay, defaultRetryDelay build retries = some delay ∧
        min (5 ^ (retries + 2)) (2 ^ 64 - 1) ≤ delay ∧
        (retries < maxRetries → RetriedInTime now delay)

def DelayedJob.Fits (now : Nat) : DelayedJob → Prop
  | enqueuedIn delay => now + delay * 1000000 < endOfTime
  | retriedIn delay => now + delay * 1000000 < 2 ^ 64
  | backedOff retries maxRetries =>
      retries ≤ 25 ∧ (retries < maxRetries → now + 5 ^ (retries + 2) * 1000000 < 2 ^ 64)

theorem retriedInTime_iff (now delay : Nat) :
    RetriedInTime now delay ↔ now + delay * 1000000 < 2 ^ 64 := by
  constructor
  · intro retried
    exact lt_of_delayedScore (retried.1 .debug)
  · intro fits
    refine ⟨fun build => ?_, fun id error => placesInTime_retryIn _ _ _ _ ?_⟩
    · rw [delayedScore_of_lt build fits]
      exact Option.some_ne_none _
    · have exact : retryScore now delay = now + delay * 1000000 := by
        unfold retryScore
        omega
      rw [exact]
      omega

theorem enqueuedInTime_iff {now delay : Nat} (clock : (now : Int) < endOfTime)
    (sized : delay < 2 ^ 64) :
    (DelayedJob.enqueuedIn delay).NeverEarly now ↔ now + delay * 1000000 < endOfTime := by
  constructor
  · rintro ⟨positive, placed⟩
    by_contra late
    have cast := asI64_of_nonneg sized positive
    have panics : scheduleTime now delay = none := by
      by_contra runs
      exact late (lt_of_scheduleTime cast runs)
    have delayed : delay ≠ 0 := by
      rintro rfl
      exact late (by simpa using clock)
    have halted := (placed (workerNode 1) 0 0 (report .null .skip)).1
    unfold StorageInternal.enqueueIn at halted
    rw [if_neg delayed, panics] at halted
    exact halted
  · intro early
    have small : delay < 2 ^ 63 := by
      unfold endOfTime at early
      omega
    refine ⟨by rw [asI64_of_lt small]; omega, fun storage stamped checked envelope => ?_⟩
    unfold StorageInternal.enqueueIn
    by_cases none : delay = 0
    · rw [if_pos none]
      exact placesInTime_enqueueWConn storage envelope .queue (Or.inl none)
    · rw [if_neg none, scheduleTime_of_lt (by omega) early]
      dsimp only
      unfold StorageInternal.enqueueAt
      split
      · rename_i due
        refine placesInTime_enqueueWConn storage _ .queue (Or.inr ?_)
        exact (le_max_left _ stamped).trans due
      · refine placesInTime_enqueueWConn storage _ .schedule ?_
        exact (min_le_left _ _).trans (le_max_left _ stamped)

/-- The clock is past the epoch and within the times of `DateTime<Utc>`. -/
theorem never_early_iff (now : Nat) (clock : (now : Int) < endOfTime) (job : DelayedJob)
    (sized : job.Sized) : job.NeverEarly now ↔ job.Fits now := by
  cases job with
  | enqueuedIn delay => exact enqueuedInTime_iff clock sized
  | retriedIn delay => exact retriedInTime_iff now delay
  | backedOff retries maxRetries =>
      constructor
      · intro backed
        obtain ⟨_, runs, _, _⟩ := backed .debug
        have small : retries ≤ 25 := le_of_defaultRetryDelay (by
          rw [runs]
          exact Option.some_ne_none _)
        refine ⟨small, fun retried => ?_⟩
        obtain ⟨delay, computed, _, placed⟩ := backed .debug
        rw [defaultRetryDelay_of_le _ small] at computed
        rw [← Option.some.inj computed] at placed
        exact (retriedInTime_iff _ _).mp (placed retried)
      · rintro ⟨small, score⟩ build
        refine ⟨_, defaultRetryDelay_of_le build small, Nat.min_le_left _ _, fun retried => ?_⟩
        exact (retriedInTime_iff _ _).mpr (score retried)

theorem never_early_iff_default :
    (DelayedJob.backedOff 2 5).NeverEarly 1700000000000000 ∧
      ¬(DelayedJob.backedOff 17 25).NeverEarly 1700000000000000 := by
  have soon := never_early_iff 1700000000000000 (by decide) (.backedOff 2 5)
    ⟨by decide, by decide⟩
  have late := never_early_iff 1700000000000000 (by decide) (.backedOff 17 25)
    ⟨by decide, by decide⟩
  exact ⟨soon.mpr ⟨by decide, fun _ => by decide⟩, fun never => by
    have fits := (late.mp never).2 (by decide)
    omega⟩

/-- A delay of `u64::MAX` seconds is cast to a negative number. -/
theorem delay_cast_negative :
    ¬∀ (now : Nat) (job : DelayedJob), (now : Int) < endOfTime → job.Sized →
      job.NeverEarly now := by
  intro never
  have sized : (2 ^ 64 - 1 : Nat) < 2 ^ 64 := by decide
  have cast := (never 1700000000000000 (.enqueuedIn (2 ^ 64 - 1)) (by decide) sized).1
  exact absurd cast (by decide)

end Oxana
