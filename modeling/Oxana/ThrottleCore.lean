import Oxana.WorkerTasks
import Oxana.MachineArithmetic

/-!
The throttler of `throttler.rs` and the pop that asks it.  The process and the server read
one clock, in microseconds; the members that `consume` adds are distinct, so the log is a
list of their scores.
-/

namespace Oxana

open Program

inductive ThrottleCommand
  | now
  | zrembyscore (max : Int)
  | zrangeFirst
  | zcard
  | zaddMultiple (score : Int) (members : Nat)
  | expire (seconds : Int)
  | dequeue
  | hget (id : JobId)
deriving DecidableEq

def ThrottleCommand.Reply : ThrottleCommand → Type
  | .now => Int
  | .zrembyscore _ => Unit
  | .zrangeFirst => Option Int
  | .zcard => Nat
  | .zaddMultiple _ _ => Nat
  | .expire _ => Unit
  | .dequeue => Option JobId
  | .hget _ => Option Payload

abbrev Throttle (α : Type) := Program ThrottleCommand.Reply OxanaError α

def askThrottle (command : ThrottleCommand) : Throttle command.Reply :=
  request command

def orPanic : Option α → Throttle α
  | some value => pure value
  | none => .halt

structure Throttler where
  limit : Nat
  windowMs : Int

namespace Throttler

def windowS (throttler : Throttler) : Int :=
  throttler.windowMs.tdiv 1000

def windowMicros (throttler : Throttler) (build : Build) : Option Int :=
  build.signed 64 (throttler.windowMs * 1000)

def windowStart (throttler : Throttler) (build : Build) (now : Int) : Option Int := do
  let windowMicros ← throttler.windowMicros build
  build.signed 64 (now - windowMicros)

def throttledForMicros (throttler : Throttler) (build : Build) (now start : Int) :
    Option Int := do
  let elapsed ← build.signed 64 (now - start)
  let windowMicros ← throttler.windowMicros build
  build.signed 64 (elapsed + windowMicros)

def stateWConn (throttler : Throttler) (build : Build) : Throttle ThrottlerState := do
  let now : Int ← askThrottle .now
  let windowStart ← orPanic (throttler.windowStart build now)
  let _ ← askThrottle (.zrembyscore windowStart)
  let first : Option Int ← askThrottle .zrangeFirst
  let requestCount : Nat ← askThrottle .zcard
  let isAllowed := decide (requestCount < throttler.limit)
  let throttledForMicros ← orPanic (
    if isAllowed then some none
    else
      match first with
      | some start => (throttler.throttledForMicros build now start).map some
      | none => some none)
  pure {
    requests := requestCount
    isAllowed := isAllowed
    throttledFor := throttledForMicros.map fun micros => micros.tdiv 1000 + 1 }

def consume (throttler : Throttler) (build : Build) (cost : Option Nat) :
    Throttle ThrottlerState := do
  let now : Int ← askThrottle .now
  let currentTime ← Program.ofExcept (if now < 0 then .error .tryFromIntError else .ok now)
  let state ← throttler.stateWConn build
  if state.isAllowed then
    if cost.getD 1 = 0 then pure state
    else do
      let updated : Nat ← askThrottle (.zaddMultiple currentTime (cost.getD 1))
      let _ ← askThrottle (.expire throttler.windowS)
      pure { state with requests := state.requests + updated }
  else pure state

def throttleCost (id : JobId) : Throttle (Option Nat) := do
  let found : Option Payload ← askThrottle (.hget id)
  match found with
  | some text => do
      let envelope ← Program.ofExcept (fromText text)
      pure envelope.metadata.throttleCost
  | none => pure none

def popQueueMessage (throttler : Throttler) (build : Build) : Throttle (Option JobId) := do
  let state ← throttler.stateWConn build
  if state.isAllowed then do
    let next : Option JobId ← askThrottle .dequeue
    match next with
    | some id => do
        let cost ← throttleCost id
        let _ ← throttler.consume build cost
        pure (some id)
    | none => pure none
  else pure none

end Throttler

/-! The log and the clock. -/

/-- `log` are the scores under the throttle key and `deadline` is when the key expires. -/
structure ThrottleStore where
  clock : Int
  log : List Int
  deadline : Option Int
  queue : List JobId
  jobs : JobId → Option Payload

/-- An empty sorted set is no key, so it has no deadline. -/
def ThrottleStore.withLog (store : ThrottleStore) (log : List Int) : ThrottleStore :=
  { store with log := log, deadline := if log = [] then none else store.deadline }

def serveThrottle : (command : ThrottleCommand) → ThrottleStore → command.Reply × ThrottleStore
  | .now, store => (store.clock, store)
  | .zrembyscore max, store =>
      ((), store.withLog (store.log.filter fun score => !(decide (0 ≤ score ∧ score ≤ max))))
  | .zrangeFirst, store => (store.log.min?, store)
  | .zcard, store => (store.log.length, store)
  | .zaddMultiple score members, store =>
      (members, { store with log := store.log ++ List.replicate members score })
  | .expire seconds, store =>
      ((), { store with deadline :=
        if store.log = [] then none else some (store.clock + seconds * 1000000) })
  | .dequeue, store => (store.queue.getLast?, { store with queue := store.queue.dropLast })
  | .hget id, store => (store.jobs id, store)

/-! Where a pop is. -/

/-- `time` is that of the dequeue of the job, `stamp` the one that `consume` has read. -/
inductive PopStage
  | fresh
  | looking (now : Int)
  | purged
  | allowed
  | taken (id : JobId) (time : Int)
  | priced (time : Int) (cost : Nat)
  | stamped (time : Int) (cost : Nat) (stamp : Int)
  | rechecking (time : Int) (cost : Nat) (stamp : Int) (now : Int)
  | repurged (time : Int) (cost : Nat) (stamp : Int)
  | approved (time : Int) (cost : Nat) (stamp : Int)
  | logged
  | finished
deriving DecidableEq

namespace PopStage

def inFlight : PopStage → Bool
  | .allowed => true
  | .taken _ _ => true
  | .priced _ _ => true
  | .stamped _ _ _ => true
  | .rechecking _ _ _ _ => true
  | .repurged _ _ _ => true
  | .approved _ _ _ => true
  | _ => false

def takenAt : PopStage → Option Int
  | .taken _ time => some time
  | .priced time _ => some time
  | .stamped time _ _ => some time
  | .rechecking time _ _ _ => some time
  | .repurged time _ _ => some time
  | .approved time _ _ => some time
  | _ => none

end PopStage

def costOf : Option Payload → Option Nat
  | some text =>
      match fromText text with
      | .ok envelope => some (envelope.metadata.throttleCost.getD 1)
      | .error _ => none
  | none => some 1

def PopStage.after (limit : Nat) (clock : Int) :
    PopStage → (command : ThrottleCommand) → command.Reply → PopStage
  | .fresh, .now, (now : Int) => .looking now
  | .looking _, .zrembyscore _, _ => .purged
  | .purged, .zcard, (count : Nat) => if count < limit then .allowed else .finished
  | .allowed, .dequeue, (next : Option JobId) =>
      match next with
      | some id => .taken id clock
      | none => .finished
  | .taken _ time, .hget _, (found : Option Payload) =>
      match costOf found with
      | some cost => .priced time cost
      | none => .finished
  | .priced time cost, .now, (stamp : Int) => .stamped time cost stamp
  | .stamped time cost stamp, .now, (now : Int) => .rechecking time cost stamp now
  | .rechecking time cost stamp _, .zrembyscore _, _ => .repurged time cost stamp
  | .repurged time cost stamp, .zcard, (count : Nat) =>
      if count < limit then (if cost = 0 then .finished else .approved time cost stamp) else .finished
  | .approved _ _ _, .zaddMultiple _ _, _ => .logged
  | .logged, .expire _, _ => .finished
  | stage, _, _ => stage

namespace PopStage

variable {limit : Nat} {store : ThrottleStore}

theorem after_dequeue_some {clock : Int} {id : JobId} (last : store.queue.getLast? = some id) :
    PopStage.after limit clock .allowed .dequeue (serveThrottle .dequeue store).1 =
      .taken id clock := by
  simp only [serveThrottle, PopStage.after, last]

theorem after_dequeue_none {clock : Int} (last : store.queue.getLast? = none) :
    PopStage.after limit clock .allowed .dequeue (serveThrottle .dequeue store).1 = .finished := by
  simp only [serveThrottle, PopStage.after, last]

theorem after_hget_some {clock time : Int} {member id : JobId} {cost : Nat}
    (priced : costOf (store.jobs id) = some cost) :
    PopStage.after limit clock (.taken member time) (.hget id) (serveThrottle (.hget id) store).1 =
      .priced time cost := by
  simp only [serveThrottle, PopStage.after, priced]

theorem after_hget_none {clock time : Int} {member id : JobId}
    (priced : costOf (store.jobs id) = none) :
    PopStage.after limit clock (.taken member time) (.hget id) (serveThrottle (.hget id) store).1 =
      .finished := by
  simp only [serveThrottle, PopStage.after, priced]

end PopStage

end Oxana
