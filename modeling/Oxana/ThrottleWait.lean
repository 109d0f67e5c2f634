import Oxana.ThrottleCalls

/-!
How long `state` tells a throttled caller to wait.
-/

namespace Oxana

variable {throttler : Throttler} {build : Build} {store after : ThrottleStore}
  {recorded : List Int} {state : ThrottlerState} {time : Int}

/-- After the wait the oldest entry has left the window, and the wait is at most one
millisecond longer than that takes. -/
def Throttler.RightWait (throttler : Throttler) (log : List Int) (time : Int)
    (throttledFor : Option Int) : Prop :=
  ∃ wait oldest, throttledFor = some wait ∧ log.min? = some oldest ∧
    oldest ≤ time + wait * 1000 - throttler.windowLength ∧
    wait * 1000 ≤ oldest + throttler.windowLength - time + 1000 ∧
    wait ≤ throttler.windowMs + 1

def Throttler.TellsRight (throttler : Throttler) (build : Build) (store : ThrottleStore)
    (time : Int) : Prop :=
  ∃ state after, throttler.perform build store time .state = (some (.ok state), after) ∧
    throttler.RightWait after.log time state.throttledFor

/-- The logged entries that are still in the window. -/
def Throttler.inLog (throttler : Throttler) (store : ThrottleStore) (time : Int) : Nat :=
  (store.at time).log.countP fun score => decide (time < score + throttler.windowLength)

theorem length_purged (timely : LogTimely store) (later : store.clock ≤ time) :
    (throttler.purged (store.at time)).log.length = throttler.inLog store time := by
  have inside : (throttler.purged (store.at time)).log = (store.at time).log.filter fun score =>
      !(decide (0 ≤ score ∧ score ≤ (store.at time).clock - throttler.windowLength)) := rfl
  unfold Throttler.inLog
  rw [inside, List.countP_eq_length_filter, at_clock]
  congr 1
  refine List.filter_congr fun score member => ?_
  have unix := ((timely.at later).scores score member).1
  rw [← decide_not]
  refine decide_eq_decide.mpr ?_
  omega

theorem throttledFor_of_refused (answers : throttler.answer build store = some state)
    (full : throttler.limit ≤ store.log.length) {oldest : Int} (found : store.log.min? = some oldest) :
    ∃ micros, throttler.throttledForMicros build store.clock oldest = some micros ∧
      state.throttledFor = some (micros.tdiv 1000 + 1) := by
  unfold Throttler.answer at answers
  rw [if_neg (by simpa using full), found] at answers
  cases waits : throttler.throttledForMicros build store.clock oldest with
  | none =>
      simp only [waits, Option.map_none] at answers
      cases answers
  | some micros =>
      simp only [waits, Option.map_some, Option.some.injEq] at answers
      exact ⟨micros, rfl, by rw [← answers]⟩

theorem rightWait_iff {log : List Int} {oldest : Int} (positive : 1 ≤ throttler.windowMs)
    (found : log.min? = some oldest) (past : oldest ≤ time) :
    throttler.RightWait log time (some
      ((time - oldest + throttler.windowLength).tdiv 1000 + 1)) ↔ oldest = time := by
  have rounded : (time - oldest + throttler.windowLength).tdiv 1000 =
      (time - oldest) / 1000 + throttler.windowMs := by
    unfold Throttler.windowLength
    rw [Int.tdiv_eq_ediv_of_nonneg (by omega), Int.add_mul_ediv_right _ _ (by decide)]
  rw [rounded]
  constructor
  · rintro ⟨wait, first, told, same, -, close, -⟩
    cases found.symm.trans same
    cases told
    unfold Throttler.windowLength at close
    omega
  · rintro rfl
    refine ⟨_, oldest, rfl, found, ?_, ?_, ?_⟩
    · unfold Throttler.windowLength
      omega
    · unfold Throttler.windowLength
      omega
    · omega

theorem oldest_of_tellsRight (positive : 1 ≤ throttler.windowMs) (sized : throttler.Sized)
    (present : Stamp time) {oldest : Int}
    (full : throttler.limit ≤ (throttler.purged (store.at time)).log.length)
    (found : (throttler.purged (store.at time)).log.min? = some oldest) (past : oldest ≤ time)
    (tells : throttler.TellsRight .debug store time) : oldest = time := by
  obtain ⟨state, after, ran, right⟩ := tells
  have starts := @Throttler.windowStart_eq throttler .debug time sized present
  have clock : (throttler.purged (store.at time)).clock = time := at_clock store time
  rw [perform_state starts, purged_of_starts sized present starts] at ran
  obtain ⟨checked, answers, same⟩ := Option.map_eq_some_iff.mp (Prod.ext_iff.mp ran).1
  cases same
  obtain ⟨micros, waits, told⟩ := throttledFor_of_refused answers full found
  have exact : micros = time - oldest + throttler.windowLength := by
    unfold Throttler.throttledForMicros at waits
    obtain ⟨elapsed, first, second⟩ := Option.bind_eq_some_iff.mp waits
    rw [Throttler.windowMicros_eq sized, Option.bind_eq_bind, Option.bind_some] at second
    rw [Build.signed_debug_eq second, Build.signed_debug_eq first, clock]
  have left : throttler.purged (store.at time) = after := (Prod.ext_iff.mp ran).2
  rw [← left, told, exact] at right
  exact (rightWait_iff positive found past).mp right

theorem tellsRight_of_present (positive : 1 ≤ throttler.windowMs) (sized : throttler.Sized)
    (timely : LogTimely store) (later : store.clock ≤ time) (bounded : time < 2 ^ 63)
    (full : throttler.limit ≤ (throttler.purged (store.at time)).log.length)
    (found : (throttler.purged (store.at time)).log.min? = some time)
    (all : ∀ score ∈ (throttler.purged (store.at time)).log, score = time) :
    throttler.TellsRight build store time := by
  have fits := sized.fits
  have clock : (throttler.purged (store.at time)).clock = time := at_clock store time
  obtain ⟨state, ran, answers⟩ := @perform_state_of_short throttler build store time sized timely
    later bounded (by
      intro score member
      rw [all score member]
      omega)
  obtain ⟨micros, waits, told⟩ := throttledFor_of_refused answers full found
  rw [clock, throttledForMicros_eq sized (le_refl time) (by omega)] at waits
  cases waits
  refine ⟨state, _, ran, ?_⟩
  rw [told]
  exact (rightWait_iff positive found (le_refl time)).mpr rfl

/-- Where the log is full, `throttled_for` is right exactly if the length of the window is an
i64 and everything that is still in the window was logged at the very time of the call. -/
theorem throttled_for_right_iff (throttler : Throttler) (positive : 1 ≤ throttler.windowMs)
    (opened : 1 ≤ throttler.limit) (build : Build) (store : ThrottleStore) (recorded : List Int)
    (reaches : ThrottleReaches throttler build store recorded) (time : Int)
    (later : store.clock ≤ time) (bounded : time < 2 ^ 63)
    (refused : throttler.limit ≤ throttler.inLog store time) :
    (∀ caller, throttler.TellsRight caller store time) ↔
      throttler.windowLength < 2 ^ 63 ∧
        ∀ score ∈ (store.at time).log, time < score + throttler.windowLength → score = time := by
  have timely := timely_of_reaches reaches
  have present : Stamp time := ⟨timely.unix.trans later, bounded⟩
  have sized : throttler.windowLength < 2 ^ 63 → throttler.Sized := by
    refine fun fits => ⟨?_, fits⟩
    unfold Throttler.windowLength
    omega
  have full := refused
  rw [← length_purged timely later] at full
  have nonempty : (throttler.purged (store.at time)).log ≠ [] := by
    intro empty
    rw [empty] at full
    simp at full
    omega
  obtain ⟨oldest, found⟩ := Option.ne_none_iff_exists'.mp
    (mt List.min?_eq_none_iff.mp nonempty)
  obtain ⟨member, least⟩ := List.min?_eq_some_iff.mp found
  obtain ⟨inside, young⟩ := young_of_purged timely later member
  have past : ∀ score ∈ (store.at time).log, score ≤ time := by
    intro score there
    have bounds := (timely.at later).scores score there
    rw [at_clock] at bounds
    exact bounds.2
  constructor
  · intro tells
    have fits : throttler.windowLength < 2 ^ 63 := by
      obtain ⟨state, after, ran, _⟩ := tells .debug
      exact fits_of_perform present.1 ran
    have same := oldest_of_tellsRight positive (sized fits) present full found (past oldest inside)
      (tells .debug)
    refine ⟨fits, fun score there fresh => ?_⟩
    have kept : score ∈ (throttler.purged (store.at time)).log := by
      refine List.mem_filter.mpr ⟨there, ?_⟩
      rw [at_clock]
      simp only [Bool.not_eq_true', decide_eq_false_iff_not, not_and, not_le]
      intro _
      omega
    have bound := least score kept
    have before := past score there
    omega
  · rintro ⟨fits, all⟩ caller
    have same : ∀ score ∈ (throttler.purged (store.at time)).log, score = time := by
      intro score kept
      obtain ⟨there, fresh⟩ := young_of_purged timely later kept
      exact all score there (by omega)
    rw [same oldest member] at found
    exact tellsRight_of_present positive (sized fits) timely later bounded full found same

def oneEachSecond : Throttler where
  limit := 1
  windowMs := 1000

def ThrottleStore.spent : ThrottleStore :=
  oneEachSecond.logged (oneEachSecond.purged (ThrottleStore.opened.at 0)) 1

theorem spent_reaches : ThrottleReaches oneEachSecond .debug .spent [0] :=
  consumed_reaches ⟨by decide, by decide⟩ Nat.one_ne_zero (by decide)

/-- Half a second before the unit leaves its window the caller is told to wait one and a
half. -/
theorem throttled_for_too_long :
    ∃ store recorded time state after, ThrottleReaches oneEachSecond .debug store recorded ∧
      store.clock ≤ time ∧ oneEachSecond.perform .debug store time .state =
        (some (.ok state), after) ∧
      state.isAllowed = false ∧ state.throttledFor = some 1501 ∧
      ¬oneEachSecond.RightWait after.log time state.throttledFor := by
  refine ⟨.spent, [0], 500000, _, _, spent_reaches, by decide, rfl, rfl, rfl, ?_⟩
  rintro ⟨wait, oldest, told, found, -, close, -⟩
  cases told
  cases found
  exact absurd close (by decide)

def ThrottleStore.renewed : ThrottleStore :=
  oneEachSecond.logged (oneEachSecond.purged (ThrottleStore.spent.at 1000000)) 1

theorem renewed_reaches : ThrottleReaches oneEachSecond .debug .renewed [0, 1000000] := by
  have ran : oneEachSecond.perform .debug .spent 1000000 (.consume none) =
      (some (.ok { requests := 1, isAllowed := true, throttledFor := none }), .renewed) := rfl
  exact .call spent_reaches 1000000 (by decide) (by decide) (.consume none) ran

theorem throttled_for_right_iff_renewed :
    (∀ caller, oneEachSecond.TellsRight caller .renewed 1000000) ∧
      ¬∀ caller, oneEachSecond.TellsRight caller .renewed 1000001 := by
  have right := throttled_for_right_iff oneEachSecond (by decide) (by decide) .debug .renewed _
    renewed_reaches
  refine ⟨(right 1000000 (by decide) (by decide) (by decide)).mpr (by decide), fun tells => ?_⟩
  have late := (right 1000001 (by decide) (by decide) (by decide)).mp tells
  revert late
  decide

end Oxana
