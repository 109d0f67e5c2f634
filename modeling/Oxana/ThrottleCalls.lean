import Oxana.ThrottleLog

/-!
Calls of `consume` and `state` on one key, one after the other and each at one time.  What
`consume` records is kept beside the store, to be compared with what `state` counts.
-/

namespace Oxana

open Program

inductive ThrottleCall
  | state
  | consume (cost : Option Nat)

def ThrottleStore.at (store : ThrottleStore) (time : Int) : ThrottleStore :=
  match store.deadline with
  | some deadline =>
      if deadline ≤ time then { store with clock := time, log := [], deadline := none }
      else { store with clock := time }
  | none => { store with clock := time }

namespace Throttler

def call (throttler : Throttler) (build : Build) : ThrottleCall → Throttle ThrottlerState
  | .state => throttler.stateWConn build
  | .consume cost => throttler.consume build cost

def perform (throttler : Throttler) (build : Build) (store : ThrottleStore) (time : Int)
    (call : ThrottleCall) : Option (Except OxanaError ThrottlerState) × ThrottleStore :=
  (throttler.call build call).run (reliable serveThrottle) (store.at time)

end Throttler

def recordedBy (call : ThrottleCall) (state : ThrottlerState) : Nat :=
  match call with
  | .state => 0
  | .consume cost => if state.isAllowed then cost.getD 1 else 0

/-- A run of calls from an empty log on: the store and the times of the units recorded. -/
inductive ThrottleReaches (throttler : Throttler) (build : Build) :
    ThrottleStore → List Int → Prop
  | start (clock : Int) (queue : List JobId) (jobs : JobId → Option Payload)
      (present : Stamp clock) :
      ThrottleReaches throttler build
        { clock := clock, log := [], deadline := none, queue := queue, jobs := jobs } []
  | call {store after : ThrottleStore} {recorded : List Int} {state : ThrottlerState}
      (earlier : ThrottleReaches throttler build store recorded) (time : Int)
      (later : store.clock ≤ time) (bounded : time < 2 ^ 63) (call : ThrottleCall)
      (ran : throttler.perform build store time call = (some (.ok state), after)) :
      ThrottleReaches throttler build after
        (recorded ++ List.replicate (recordedBy call state) time)

/-- In both builds every `state` call returns and counts the recorded units that are less than
one window old, and no others. -/
def LogKept (throttler : Throttler) : Prop :=
  ∀ build store recorded, ThrottleReaches throttler build store recorded →
    ∀ time, store.clock ≤ time → time < 2 ^ 63 →
      ∃ state after, throttler.perform build store time .state = (some (.ok state), after) ∧
        state.requests = recorded.countP fun stamp =>
          decide (time < stamp + throttler.windowLength)

variable {throttler : Throttler} {build : Build} {store after : ThrottleStore}
  {recorded : List Int} {state : ThrottlerState} {time : Int}

/-! What a call does. -/

def ThrottleStore.cut (store : ThrottleStore) (max : Int) : ThrottleStore :=
  store.withLog (store.log.filter fun score => !(decide (0 ≤ score ∧ score ≤ max)))

/-- What `state` says of a log; `none` is a panic. -/
def Throttler.answer (throttler : Throttler) (build : Build) (store : ThrottleStore) :
    Option ThrottlerState :=
  (if decide (store.log.length < throttler.limit) then some none
    else
      match store.log.min? with
      | some start => (throttler.throttledForMicros build store.clock start).map some
      | none => some none).map fun micros => {
    requests := store.log.length
    isAllowed := decide (store.log.length < throttler.limit)
    throttledFor := micros.map fun micros => micros.tdiv 1000 + 1 }

theorem answer_some (answers : throttler.answer build store = some state) :
    state.requests = store.log.length ∧
      state.isAllowed = decide (store.log.length < throttler.limit) := by
  obtain ⟨micros, _, rfl⟩ := Option.map_eq_some_iff.mp answers
  exact ⟨rfl, rfl⟩

theorem run_stateWConn (throttler : Throttler) (build : Build) (store : ThrottleStore) :
    (throttler.stateWConn build).run (reliable serveThrottle) store =
      match throttler.windowStart build store.clock with
      | none => (none, store)
      | some max => ((throttler.answer build (store.cut max)).map .ok, store.cut max) := by
  have asks : (throttler.stateWConn build).run (reliable serveThrottle) store = (do
      let windowStart ← orPanic (throttler.windowStart build store.clock)
      let _ ← askThrottle (.zrembyscore windowStart)
      let first : Option Int ← askThrottle .zrangeFirst
      let requestCount : Nat ← askThrottle .zcard
      let throttledForMicros ← orPanic (
        if decide (requestCount < throttler.limit) then some none
        else
          match first with
          | some start => (throttler.throttledForMicros build store.clock start).map some
          | none => some none)
      pure {
        requests := requestCount
        isAllowed := decide (requestCount < throttler.limit)
        throttledFor := throttledForMicros.map fun micros => micros.tdiv 1000 + 1 } :
        Throttle ThrottlerState).run (reliable serveThrottle) store := rfl
  rw [asks]
  cases throttler.windowStart build store.clock with
  | none => rfl
  | some max =>
      have counts : ∀ answer : Option (Option Int),
          (do
            let micros ← orPanic answer
            pure {
              requests := (store.cut max).log.length
              isAllowed := decide ((store.cut max).log.length < throttler.limit)
              throttledFor := micros.map fun micros => micros.tdiv 1000 + 1 } :
            Throttle ThrottlerState).run (reliable serveThrottle) (store.cut max) =
          (((answer.map fun micros => {
              requests := (store.cut max).log.length
              isAllowed := decide ((store.cut max).log.length < throttler.limit)
              throttledFor := micros.map fun micros => micros.tdiv 1000 + 1 } :
              Option ThrottlerState)).map .ok, store.cut max) := by
        rintro (_ | micros) <;> rfl
      exact counts _

theorem at_clock (store : ThrottleStore) (time : Int) : (store.at time).clock = time := by
  unfold ThrottleStore.at
  split
  · split <;> rfl
  · rfl

def Throttler.logged (throttler : Throttler) (store : ThrottleStore) (cost : Nat) : ThrottleStore :=
  { store with
    log := store.log ++ List.replicate cost store.clock
    deadline := some (store.clock + throttler.windowS * 1000000) }

theorem run_consume (unix : 0 ≤ store.clock) (cost : Option Nat) :
    (throttler.consume build cost).run (reliable serveThrottle) store =
      resume ((throttler.stateWConn build).run (reliable serveThrottle) store) fun state after =>
        if state.isAllowed then
          if cost.getD 1 = 0 then (some (.ok state), after)
          else
            (some (.ok { state with requests := state.requests + cost.getD 1 }),
              (serveThrottle (.expire throttler.windowS)
                { after with log := after.log ++ List.replicate (cost.getD 1) store.clock }).2)
        else (some (.ok state), after) := by
  have asks : (throttler.consume build cost).run (reliable serveThrottle) store =
      (do
        let currentTime ← Program.ofExcept
          (if store.clock < 0 then .error .tryFromIntError else .ok store.clock)
        let state ← throttler.stateWConn build
        if state.isAllowed then
          if cost.getD 1 = 0 then pure state
          else do
            let updated : Nat ← askThrottle (.zaddMultiple currentTime (cost.getD 1))
            let _ ← askThrottle (.expire throttler.windowS)
            pure { state with requests := state.requests + updated }
        else pure state : Throttle ThrottlerState).run (reliable serveThrottle) store := rfl
  rw [asks, if_neg (not_lt.mpr unix)]
  change ((throttler.stateWConn build).bind _).run _ _ = _
  rw [run_bind]
  refine congrArg _ ?_
  funext state after
  split
  · split <;> rfl
  · rfl

theorem perform_state {max : Int} (starts : throttler.windowStart build time = some max) :
    throttler.perform build store time .state =
      ((throttler.answer build ((store.at time).cut max)).map .ok, (store.at time).cut max) := by
  unfold Throttler.perform
  rw [Throttler.call, run_stateWConn, at_clock, starts]

theorem perform_consume {max : Int} {checked : ThrottlerState} (unix : 0 ≤ time)
    (starts : throttler.windowStart build time = some max)
    (answers : throttler.answer build ((store.at time).cut max) = some checked) (cost : Option Nat) :
    ∃ state, throttler.perform build store time (.consume cost) =
        (some (.ok state),
          if recordedBy (.consume cost) checked = 0 then (store.at time).cut max
          else throttler.logged ((store.at time).cut max) (recordedBy (.consume cost) checked)) ∧
      state.isAllowed = checked.isAllowed := by
  have clock : ((store.at time).cut max).clock = time := at_clock store time
  have present : (store.at time).clock = time := at_clock store time
  have ran := @run_consume throttler build (store.at time) (by rw [present]; exact unix) cost
  rw [run_stateWConn, present, starts] at ran
  simp only [answers, Option.map_some, resume_ok] at ran
  unfold Throttler.perform Throttler.call recordedBy
  rw [ran]
  cases allowed : checked.isAllowed with
  | false => exact ⟨checked, rfl, allowed⟩
  | true =>
      simp only [if_true]
      by_cases free : cost.getD 1 = 0
      · rw [if_pos free, if_pos free]
        exact ⟨checked, rfl, allowed⟩
      · rw [if_neg free, if_neg free]
        refine ⟨_, Prod.ext rfl ?_, rfl⟩
        have filled : ((store.at time).cut max).log ++ List.replicate (cost.getD 1) time ≠ [] := by
          simpa using fun _ => free
        simp only [serveThrottle]
        rw [if_neg filled]
        unfold Throttler.logged
        rw [clock]

structure CallEffect (throttler : Throttler) (build : Build) (store : ThrottleStore) (time : Int)
    (call : ThrottleCall) (state : ThrottlerState) (after : ThrottleStore) (max : Int) : Prop where
  starts : throttler.windowStart build time = some max
  allowed : state.isAllowed = decide (((store.at time).cut max).log.length < throttler.limit)
  stored : after = if recordedBy call state = 0 then (store.at time).cut max
    else throttler.logged ((store.at time).cut max) (recordedBy call state)

theorem effect_of_perform {call : ThrottleCall} (unix : 0 ≤ time)
    (ran : throttler.perform build store time call = (some (.ok state), after)) :
    ∃ max, CallEffect throttler build store time call state after max := by
  have looked : ∃ max checked, throttler.windowStart build time = some max ∧
      throttler.answer build ((store.at time).cut max) = some checked := by
    have present : (store.at time).clock = time := at_clock store time
    have whole : ∃ rest, throttler.perform build store time call = resume
        ((throttler.stateWConn build).run (reliable serveThrottle) (store.at time)) rest := by
      cases call with
      | state =>
          refine ⟨fun state after => (some (.ok state), after), ?_⟩
          unfold Throttler.perform Throttler.call
          cases ((throttler.stateWConn build).run (reliable serveThrottle) (store.at time)) with
          | mk ended after =>
              rcases ended with _ | (_ | _) <;> rfl
      | consume cost =>
          unfold Throttler.perform Throttler.call
          exact ⟨_, run_consume (by rw [present]; exact unix) cost⟩
    obtain ⟨rest, same⟩ := whole
    rw [same, run_stateWConn, present] at ran
    cases starts : throttler.windowStart build time with
    | none =>
        rw [starts] at ran
        cases ran
    | some max =>
        rw [starts] at ran
        cases answers : throttler.answer build ((store.at time).cut max) with
        | none =>
            simp only [answers, Option.map_none, resume_none] at ran
            cases ran
        | some checked => exact ⟨max, checked, rfl, answers⟩
  obtain ⟨max, checked, starts, answers⟩ := looked
  have counted := (answer_some answers).2
  refine ⟨max, starts, ?_, ?_⟩
  all_goals cases call with
  | state =>
      rw [perform_state starts, answers] at ran
      cases ran
      first | exact counted | rfl
  | consume cost =>
      obtain ⟨result, ended, same⟩ := perform_consume unix starts answers cost
      rw [ended] at ran
      cases ran
      first
        | exact same.trans counted
        | (unfold recordedBy
           rw [same])

def Throttler.purged (throttler : Throttler) (store : ThrottleStore) : ThrottleStore :=
  store.cut (store.clock - throttler.windowLength)

theorem purged_of_starts (sized : throttler.Sized) (present : Stamp time) {max : Int}
    (starts : throttler.windowStart build time = some max) :
    (store.at time).cut max = throttler.purged (store.at time) := by
  rw [Throttler.windowStart_eq sized present] at starts
  cases starts
  unfold Throttler.purged
  rw [at_clock]

theorem perform_store {call : ThrottleCall} (sized : throttler.Sized) (present : Stamp time)
    (ran : throttler.perform build store time call = (some (.ok state), after)) :
    after = (if recordedBy call state = 0 then throttler.purged (store.at time)
      else throttler.logged (throttler.purged (store.at time)) (recordedBy call state)) ∧
    state.isAllowed =
      decide ((throttler.purged (store.at time)).log.length < throttler.limit) := by
  obtain ⟨max, starts, allowed, stored⟩ := effect_of_perform present.1 ran
  rw [purged_of_starts sized present starts] at allowed stored
  exact ⟨stored, allowed⟩

structure LogTimely (store : ThrottleStore) : Prop where
  unix : 0 ≤ store.clock
  scores : ∀ score ∈ store.log, 0 ≤ score ∧ score ≤ store.clock

theorem LogTimely.at (timely : LogTimely store) (later : store.clock ≤ time) :
    LogTimely (store.at time) := by
  have unix := timely.unix
  have scores : ∀ score ∈ store.log, 0 ≤ score ∧ score ≤ time := by
    intro score member
    have bounds := timely.scores score member
    omega
  have present : 0 ≤ time := by omega
  unfold ThrottleStore.at
  split
  · split
    · exact ⟨present, by simp⟩
    · exact ⟨present, scores⟩
  · exact ⟨present, scores⟩

theorem LogTimely.cut (timely : LogTimely store) (max : Int) : LogTimely (store.cut max) :=
  ⟨timely.unix, fun score member => timely.scores score (List.mem_of_mem_filter member)⟩

theorem LogTimely.logged (timely : LogTimely store) (cost : Nat) :
    LogTimely (throttler.logged store cost) := by
  refine ⟨timely.unix, ?_⟩
  intro score member
  rcases List.mem_append.mp member with before | added
  · exact timely.scores score before
  · rw [List.eq_of_mem_replicate added]
    exact ⟨timely.unix, le_refl _⟩

theorem timely_of_reaches (reaches : ThrottleReaches throttler build store recorded) :
    LogTimely store := by
  induction reaches with
  | start clock queue jobs present => exact ⟨present.1, by simp⟩
  | call earlier time later bounded call ran ih =>
      obtain ⟨max, effect⟩ := effect_of_perform (ih.unix.trans later) ran
      rw [effect.stored]
      split
      · exact (ih.at later).cut max
      · exact ((ih.at later).cut max).logged _

/-! The invariant of a window of whole seconds. -/

structure LogExact (throttler : Throttler) (store : ThrottleStore) (recorded : List Int) : Prop where
  past : ∀ stamp ∈ recorded, stamp ≤ store.clock
  counted : ∀ limit, store.clock - throttler.windowLength ≤ limit →
    newer limit store.log = newer limit recorded
  kept : ∀ deadline, store.deadline = some deadline →
    ∀ stamp ∈ recorded, stamp + throttler.windowLength ≤ deadline

theorem LogExact.at (exact : LogExact throttler store recorded) (later : store.clock ≤ time) :
    LogExact throttler (store.at time) recorded := by
  have past : ∀ stamp ∈ recorded, stamp ≤ time := fun stamp member =>
    (exact.past stamp member).trans later
  have same : LogExact throttler { store with clock := time } recorded := by
    refine ⟨past, ?_, exact.kept⟩
    intro limit old
    dsimp only at old
    exact exact.counted limit (by omega)
  unfold ThrottleStore.at
  split
  · rename_i deadline found
    split
    · rename_i gone
      refine ⟨past, ?_, by simp⟩
      intro limit old
      dsimp only at old
      symm
      apply newer_eq_zero
      intro stamp member
      have kept := exact.kept deadline found stamp member
      omega
    · exact same
  · exact same

theorem LogExact.purged (exact : LogExact throttler store recorded) :
    LogExact throttler (throttler.purged store) recorded where
  past := exact.past
  counted := fun limit old => (newer_purge old).trans (exact.counted limit old)
  kept := by
    intro deadline found
    refine exact.kept deadline ?_
    unfold Throttler.purged ThrottleStore.cut ThrottleStore.withLog at found
    dsimp only at found
    split at found
    · cases found
    · exact found

theorem LogExact.logged (whole : throttler.Whole) (exact : LogExact throttler store recorded)
    (cost : Nat) :
    LogExact throttler (throttler.logged store cost)
      (recorded ++ List.replicate cost store.clock) := by
  have past : ∀ stamp ∈ recorded ++ List.replicate cost store.clock, stamp ≤ store.clock := by
    intro stamp member
    rcases List.mem_append.mp member with before | added
    · exact exact.past stamp before
    · exact le_of_eq (List.eq_of_mem_replicate added)
  refine ⟨past, ?_, ?_⟩
  · intro limit old
    rw [newer_append, ← exact.counted limit old]
    exact newer_append
  · intro deadline found stamp member
    have set : store.clock + throttler.windowS * 1000000 = deadline := Option.some.inj found
    have bound := past stamp member
    have seconds : throttler.windowS * 1000000 = throttler.windowLength := whole
    omega

theorem logExact_of_reaches (sized : throttler.Sized) (whole : throttler.Whole)
    (reaches : ThrottleReaches throttler build store recorded) :
    LogExact throttler store recorded := by
  induction reaches with
  | start clock queue jobs present => exact ⟨by simp, fun _ _ => rfl, by simp⟩
  | @call store after recorded state earlier time later bounded call ran ih =>
      have purged := (ih.at later).purged
      have present : Stamp time := ⟨(timely_of_reaches earlier).unix.trans later, bounded⟩
      rw [(perform_store sized present ran).1]
      split
      · rename_i nothing
        rw [nothing]
        simpa using purged
      · have logged := purged.logged whole (recordedBy call state)
        have clock : (throttler.purged (store.at time)).clock = time := at_clock store time
        rwa [clock] at logged

theorem young_of_purged (timely : LogTimely store) (later : store.clock ≤ time) {score : Int}
    (member : score ∈ (throttler.purged (store.at time)).log) :
    score ∈ (store.at time).log ∧ time - throttler.windowLength < score := by
  have inside : score ∈ (store.at time).log.filter fun score =>
      !(decide (0 ≤ score ∧ score ≤ (store.at time).clock - throttler.windowLength)) := member
  obtain ⟨there, young⟩ := List.mem_filter.mp inside
  have positive := ((timely.at later).scores score there).1
  rw [at_clock] at young
  simp only [Bool.not_eq_true', decide_eq_false_iff_not, not_and, not_le] at young
  exact ⟨there, young positive⟩

theorem throttledForMicros_eq (sized : throttler.Sized) {now start : Int} (elapsed : start ≤ now)
    (fits : now - start + throttler.windowLength < 2 ^ 63) :
    throttler.throttledForMicros build now start =
      some (now - start + throttler.windowLength) := by
  have positive := sized.positive
  unfold Throttler.throttledForMicros
  rw [build.signed_of_fits (by omega) (by omega), Option.bind_eq_bind, Option.bind_some,
    Throttler.windowMicros_eq sized, Option.bind_some]
  exact build.signed_of_fits (by omega) (by omega)

theorem answer_of_short (sized : throttler.Sized) (timely : LogTimely store)
    (later : store.clock ≤ time)
    (short : ∀ score ∈ (throttler.purged (store.at time)).log,
      time - score + throttler.windowLength < 2 ^ 63) :
    ∃ state, throttler.answer build (throttler.purged (store.at time)) = some state := by
  have clock : (throttler.purged (store.at time)).clock = time := at_clock store time
  unfold Throttler.answer
  split
  · exact ⟨_, rfl⟩
  · split
    · rename_i oldest found
      have member := (List.min?_eq_some_iff.mp found).1
      obtain ⟨there, _⟩ := young_of_purged timely later member
      obtain ⟨unix, past⟩ := (timely.at later).scores oldest there
      rw [at_clock] at past
      have sum := short oldest member
      rw [clock, throttledForMicros_eq sized (by omega) sum]
      exact ⟨_, rfl⟩
    · exact ⟨_, rfl⟩

theorem perform_state_of_short (sized : throttler.Sized) (timely : LogTimely store)
    (later : store.clock ≤ time) (bounded : time < 2 ^ 63)
    (short : ∀ score ∈ (throttler.purged (store.at time)).log,
      time - score + throttler.windowLength < 2 ^ 63) :
    ∃ state, throttler.perform build store time .state =
        (some (.ok state), throttler.purged (store.at time)) ∧
      throttler.answer build (throttler.purged (store.at time)) = some state := by
  have present : Stamp time := ⟨timely.unix.trans later, bounded⟩
  have starts := @Throttler.windowStart_eq throttler build time sized present
  obtain ⟨state, answers⟩ := @answer_of_short throttler build store time sized timely later short
  have ran := @perform_state throttler build store time _ starts
  rw [purged_of_starts sized present starts, answers] at ran
  exact ⟨state, ran, answers⟩

theorem logKept_of_whole (sized : throttler.Sized) (whole : throttler.Whole)
    (short : 2 * throttler.windowLength ≤ 2 ^ 63) : LogKept throttler := by
  intro build store recorded reaches time later bounded
  have timely := timely_of_reaches reaches
  have young : ∀ score ∈ (throttler.purged (store.at time)).log,
      time - throttler.windowLength < score := fun score member =>
    (young_of_purged timely later member).2
  obtain ⟨state, ran, answers⟩ := @perform_state_of_short throttler build store time sized timely
    later bounded (by
      intro score member
      have bound := young score member
      omega)
  refine ⟨state, _, ran, ?_⟩
  have exact := ((logExact_of_reaches sized whole reaches).at later).purged
  have clock : (throttler.purged (store.at time)).clock = time := at_clock store time
  have all : newer (time - throttler.windowLength) (throttler.purged (store.at time)).log =
      (throttler.purged (store.at time)).log.length := by
    unfold newer
    rw [List.countP_eq_length]
    intro score member
    exact decide_eq_true (young score member)
  have counted := exact.counted (time - throttler.windowLength) (by rw [clock])
  rw [(answer_some answers).1, ← all, counted]
  unfold newer
  refine List.countP_congr ?_
  intro stamp _
  simp only [decide_eq_true_eq]
  omega

theorem purged_of_empty (empty : store.log = []) :
    (throttler.purged (store.at time)).log = [] := by
  have before : (store.at time).log = [] := by
    unfold ThrottleStore.at
    split
    · split
      · rfl
      · exact empty
    · exact empty
  change (store.at time).log.filter _ = []
  rw [before]
  rfl

theorem recorded_of_closed (sized : throttler.Sized) (closed : throttler.limit = 0)
    (reaches : ThrottleReaches throttler build store recorded) :
    recorded = [] ∧ store.log = [] := by
  induction reaches with
  | start clock queue jobs present => exact ⟨rfl, rfl⟩
  | @call store after recorded state earlier time later bounded call ran ih =>
      have present : Stamp time := ⟨(timely_of_reaches earlier).unix.trans later, bounded⟩
      obtain ⟨stored, allowed⟩ := perform_store sized present ran
      have refused : state.isAllowed = false := by
        rw [allowed, closed]
        exact decide_eq_false (Nat.not_lt_zero _)
      have nothing : recordedBy call state = 0 := by
        cases call with
        | state => rfl
        | consume cost =>
            rw [recordedBy, refused]
            rfl
      rw [stored, nothing, if_pos rfl, ih.1]
      exact ⟨rfl, purged_of_empty ih.2⟩

theorem logKept_of_closed (sized : throttler.Sized) (closed : throttler.limit = 0) :
    LogKept throttler := by
  intro build store recorded reaches time later bounded
  obtain ⟨nothing, empty⟩ := recorded_of_closed sized closed reaches
  have none_left : (throttler.purged (store.at time)).log = [] := purged_of_empty empty
  obtain ⟨state, ran, answers⟩ := @perform_state_of_short throttler build store time sized
    (timely_of_reaches reaches) later bounded (by simp [none_left])
  refine ⟨state, _, ran, ?_⟩
  rw [(answer_some answers).1, none_left, nothing]
  rfl

def ThrottleStore.opened : ThrottleStore where
  clock := 0
  log := []
  deadline := none
  queue := []
  jobs := fun _ => none

theorem fits_of_perform {call : ThrottleCall} (unix : 0 ≤ time)
    (ran : throttler.perform .debug store time call = (some (.ok state), after)) :
    throttler.windowLength < 2 ^ 63 := by
  by_contra long
  obtain ⟨max, effect⟩ := effect_of_perform unix ran
  have starts := effect.starts
  unfold Throttler.windowStart Throttler.windowMicros at starts
  rw [Build.signed_debug_of_le (not_lt.mp long)] at starts
  cases starts

theorem fits_of_logKept (kept : LogKept throttler) : throttler.windowLength < 2 ^ 63 := by
  obtain ⟨state, after, ran, _⟩ := kept .debug .opened [] (.start 0 [] _ ⟨le_refl 0, by decide⟩) 0
    (le_refl 0) (by decide)
  exact fits_of_perform (le_refl 0) ran

theorem consumed_reaches (sized : throttler.Sized) {cost : Nat} (priced : cost ≠ 0)
    (opened : throttler.limit ≠ 0) :
    ThrottleReaches throttler build
      (throttler.logged (throttler.purged (ThrottleStore.opened.at 0)) cost)
      (List.replicate cost 0) := by
  have present : Stamp 0 := ⟨le_refl 0, by decide⟩
  have starts := @Throttler.windowStart_eq throttler build 0 sized present
  have allowed : decide (0 < throttler.limit) = true := decide_eq_true (Nat.pos_of_ne_zero opened)
  have answers : throttler.answer build (throttler.purged (ThrottleStore.opened.at 0)) = some {
      requests := 0, isAllowed := true, throttledFor := none } := by
    unfold Throttler.answer
    change (if decide (0 < throttler.limit) = true then _ else _ : Option (Option Int)).map _ = _
    rw [if_pos allowed]
    exact congrArg some (congrArg (ThrottlerState.mk 0 · none) allowed)
  rw [← purged_of_starts sized present starts] at answers ⊢
  obtain ⟨state, ran, same⟩ := perform_consume (le_refl 0) starts answers (some cost)
  have recorded : ∀ checked : ThrottlerState, checked.isAllowed = true →
      recordedBy (.consume (some cost)) checked = cost := fun checked granted => if_pos granted
  rw [recorded _ rfl, if_neg priced] at ran
  have reaches : ThrottleReaches throttler build _ _ :=
    .call (.start 0 [] (fun _ => none) present) 0 (le_refl 0) (by decide) (.consume (some cost)) ran
  rw [recorded _ same] at reaches
  exact reaches

theorem not_logKept_of_part (sized : throttler.Sized) (part : throttler.windowMs % 1000 ≠ 0)
    (opened : throttler.limit ≠ 0) : ¬LogKept throttler := by
  intro kept
  have positive := sized.positive
  have fits := sized.fits
  have reaches := @consumed_reaches throttler .release sized 1 Nat.one_ne_zero opened
  unfold Throttler.windowLength at positive
  have seconds : throttler.windowS = throttler.windowMs / 1000 :=
    Int.tdiv_eq_ediv_of_nonneg (by omega)
  have short : throttler.windowS * 1000000 + 1 < throttler.windowLength := by
    unfold Throttler.windowLength
    rw [seconds]
    omega
  have later : (0 : Int) ≤ throttler.windowS * 1000000 + 1 := by
    rw [seconds]
    omega
  obtain ⟨state, after, ran, counted⟩ := kept .release _ _ reaches
    (throttler.windowS * 1000000 + 1) later (by omega)
  have missed : (throttler.logged (throttler.purged (ThrottleStore.opened.at 0)) 1).at
      (throttler.windowS * 1000000 + 1) =
        { ThrottleStore.opened with clock := throttler.windowS * 1000000 + 1 } := by
    change (if 0 + throttler.windowS * 1000000 ≤ throttler.windowS * 1000000 + 1 then _ else _) = _
    rw [if_pos (by omega)]
    rfl
  have present : Stamp (throttler.windowS * 1000000 + 1) := ⟨later, by omega⟩
  have starts := @Throttler.windowStart_eq throttler .release _ sized present
  rw [perform_state starts, missed] at ran
  have nothing : state.requests = 0 := by
    obtain ⟨checked, answers, same⟩ := Option.map_eq_some_iff.mp (Prod.ext_iff.mp ran).1
    cases same
    exact (answer_some answers).1
  have whole : List.countP (fun stamp => decide (throttler.windowS * 1000000 + 1 <
      stamp + throttler.windowLength)) (List.replicate 1 (0 : Int)) = 1 := by
    simpa using short
  exact absurd (nothing.symm.trans (counted.trans whole)) Nat.zero_ne_one

theorem answer_panics (sized : throttler.Sized) {start : Int}
    (full : throttler.limit ≤ store.log.length) (oldest : store.log.min? = some start)
    (elapsed : 0 ≤ store.clock - start) (bounded : store.clock - start < 2 ^ 63)
    (long : 2 ^ 63 ≤ store.clock - start + throttler.windowLength) :
    throttler.answer .debug store = none := by
  have waits : throttler.throttledForMicros .debug store.clock start = none := by
    unfold Throttler.throttledForMicros
    rw [Build.signed_of_fits _ (by omega) bounded, Option.bind_eq_bind, Option.bind_some,
      Throttler.windowMicros_eq sized, Option.bind_some]
    exact Build.signed_debug_of_le long
  unfold Throttler.answer
  rw [if_neg (by simpa using full), oldest]
  simp only [waits, Option.map_none]

def Throttler.filled (throttler : Throttler) : ThrottleStore :=
  { ThrottleStore.opened with
    clock := throttler.windowLength - 1
    log := List.replicate throttler.limit 0
    deadline := some throttler.windowLength }

theorem filled_panics (sized : throttler.Sized) (long : 2 ^ 63 < 2 * throttler.windowLength)
    (opened : throttler.limit ≠ 0) :
    throttler.answer .debug (throttler.filled.cut (throttler.windowLength - 1 -
      throttler.windowLength)) = none := by
  have positive := sized.positive
  have fits := sized.fits
  have kept : (throttler.filled.cut (throttler.windowLength - 1 - throttler.windowLength)).log =
      List.replicate throttler.limit 0 := by
    change (List.replicate throttler.limit (0 : Int)).filter _ = _
    rw [List.filter_eq_self]
    intro score member
    rw [List.eq_of_mem_replicate member]
    simp
  have clock : (throttler.filled.cut (throttler.windowLength - 1 - throttler.windowLength)).clock =
      throttler.windowLength - 1 := rfl
  have oldest : (List.replicate throttler.limit (0 : Int)).min? = some 0 :=
    List.min?_replicate_of_pos (Nat.pos_of_ne_zero opened)
  refine answer_panics sized ?_ (kept ▸ oldest) ?_ ?_ ?_
  · rw [kept, List.length_replicate]
  all_goals
    rw [clock]
    omega

theorem not_logKept_of_sum (sized : throttler.Sized) (whole : throttler.Whole)
    (long : 2 ^ 63 < 2 * throttler.windowLength) (opened : throttler.limit ≠ 0) :
    ¬LogKept throttler := by
  intro kept
  have positive := sized.positive
  have fits := sized.fits
  have room : throttler.windowS * 1000000 = throttler.windowLength := whole
  have reaches := @consumed_reaches throttler .debug sized throttler.limit opened opened
  obtain ⟨state, after, ran, _⟩ := kept .debug _ _ reaches (throttler.windowLength - 1)
    (by change (0 : Int) ≤ _; omega) (by omega)
  have present : Stamp (throttler.windowLength - 1) := ⟨by omega, by omega⟩
  have starts := @Throttler.windowStart_eq throttler .debug _ sized present
  have found : (throttler.logged (throttler.purged (ThrottleStore.opened.at 0))
      throttler.limit).at (throttler.windowLength - 1) = throttler.filled := by
    change (if 0 + throttler.windowS * 1000000 ≤ throttler.windowLength - 1 then _ else _) = _
    rw [if_neg (by omega)]
    unfold Throttler.filled
    rw [← room, ← Int.zero_add (throttler.windowS * 1000000)]
    rfl
  rw [perform_state starts, found, filled_panics sized long opened] at ran
  cases ran

/-- The log is kept for the whole window exactly if the length of the window is an i64 and
either nothing is ever allowed, or the window is a number of whole seconds and twice its length
does not exceed an i64. -/
theorem throttle_log_kept_iff (throttler : Throttler) (positive : 1 ≤ throttler.windowMs) :
    LogKept throttler ↔ throttler.windowLength < 2 ^ 63 ∧
      (throttler.limit = 0 ∨
        throttler.windowMs % 1000 = 0 ∧ 2 * throttler.windowLength ≤ 2 ^ 63) := by
  have sized : throttler.windowLength < 2 ^ 63 → throttler.Sized := by
    refine fun fits => ⟨?_, fits⟩
    unfold Throttler.windowLength
    omega
  have whole : throttler.windowMs % 1000 = 0 → throttler.Whole := fun multiple =>
    Throttler.whole_of_multiple (Int.mul_ediv_cancel' (Int.dvd_of_emod_eq_zero multiple)).symm
  constructor
  · intro kept
    have fits := fits_of_logKept kept
    refine ⟨fits, ?_⟩
    by_contra neither
    obtain ⟨opened, failing⟩ := not_or.mp neither
    by_cases multiple : throttler.windowMs % 1000 = 0
    · exact not_logKept_of_sum (sized fits) (whole multiple)
        (not_le.mp fun short => failing ⟨multiple, short⟩) opened kept
    · exact not_logKept_of_part (sized fits) multiple opened kept
  · rintro ⟨fits, closed | ⟨multiple, short⟩⟩
    · exact logKept_of_closed (sized fits) closed
    · exact logKept_of_whole (sized fits) (whole multiple) short

def twoAMinute : Throttler where
  limit := 2
  windowMs := 60000

theorem throttle_log_kept_iff_minute :
    LogKept twoAMinute ∧ ¬LogKept { limit := 1, windowMs := 9300000000000000 } ∧
      ∃ store, ThrottleReaches twoAMinute .debug store [0, 0] ∧
        ∃ state after, twoAMinute.perform .debug store 59999999 .state =
          (some (.ok state), after) ∧ state.requests = 2 := by
  have kept : LogKept twoAMinute := (throttle_log_kept_iff twoAMinute (by decide)).mpr
    ⟨by decide, Or.inr ⟨by decide, by decide⟩⟩
  have reaches := @consumed_reaches twoAMinute .debug ⟨by decide, by decide⟩ 2 (by decide)
    (by decide)
  refine ⟨kept, fun long => ?_, _, reaches, kept .debug _ _ reaches 59999999 ?_ (by decide)⟩
  · have fits := (throttle_log_kept_iff { limit := 1, windowMs := 9300000000000000 }
      (by decide)).mp long
    exact absurd fits.1 (by decide)
  · change (0 : Int) ≤ 59999999
    decide

theorem throttle_log_cut_short : ¬LogKept { limit := 1, windowMs := 1500 } :=
  not_logKept_of_part ⟨by decide, by decide⟩ (by decide) (by decide)

end Oxana
