import Oxana.QueueDiscovery

/-!
The queue configurations of `queue.rs`, the set of them that `config.rs` keeps and the
permits of `semaphores_map.rs`.
-/

namespace Oxana

inductive QueueKind
  | static (key : String)
  | dynamic (start : String) (discoveryInterval : Nat)
deriving DecidableEq

inductive QueueConcurrency
  | fixed (concurrency : Nat)
  | dynamic (default : Nat)
deriving DecidableEq

structure QueueThrottle where
  windowMs : Int
  limit : Nat
deriving DecidableEq

inductive QueueState
  | active
  | paused
deriving DecidableEq

structure QueueRuntimeConfig where
  concurrency : Option Nat
  state : QueueState
deriving DecidableEq

structure QueueConfig where
  kind : QueueKind
  concurrency : QueueConcurrency
  throttle : Option QueueThrottle
deriving DecidableEq

/-- `PartialEq` of the source: the discovery interval does not count. -/
def QueueKind.same : QueueKind → QueueKind → Bool
  | .static key, .static other => key == other
  | .dynamic start _, .dynamic other _ => start == other
  | _, _ => false

def QueueConfig.keyOrPrefix (config : QueueConfig) : String :=
  match config.kind with
  | .static key => key
  | .dynamic start _ => start

namespace QueueConcurrency

def defaultConcurrency : QueueConcurrency → Nat
  | .fixed concurrency => concurrency
  | .dynamic default => default

def isDynamic : QueueConcurrency → Bool
  | .fixed _ => false
  | .dynamic _ => true

def storedRuntimeDefault (concurrency : QueueConcurrency) : QueueRuntimeConfig where
  concurrency := if concurrency.isDynamic then some concurrency.defaultConcurrency else none
  state := .active

def effective (concurrency : QueueConcurrency) (runtime : QueueRuntimeConfig) : Nat :=
  match concurrency with
  | .fixed concurrency => concurrency
  | .dynamic default => runtime.concurrency.getD default

def effectiveRuntimeConfig (concurrency : QueueConcurrency) (runtime : QueueRuntimeConfig) :
    QueueRuntimeConfig where
  concurrency := some (concurrency.effective runtime)
  state := runtime.state

end QueueConcurrency

/-! Stored runtime configurations. -/

abbrev QueueConfigs := String → Option QueueRuntimeConfig

def QueueRuntimeConfig.withDefaults (config defaults : QueueRuntimeConfig) :
    QueueRuntimeConfig :=
  { config with concurrency := config.concurrency <|> defaults.concurrency }

def QueueConfigs.orDefault (configs : QueueConfigs) (queue : String)
    (default : QueueRuntimeConfig) : QueueRuntimeConfig :=
  match configs queue with
  | some config => config.withDefaults default
  | none => default

/-- Two reads, with whatever happens to the hash between them. -/
def runtimeQueueConfig (first second : QueueConfigs) (queueKey baseQueueKey : String)
    (default : QueueRuntimeConfig) : QueueRuntimeConfig :=
  if queueKey = baseQueueKey then first.orDefault queueKey default
  else second.orDefault queueKey (first.orDefault baseQueueKey default)

def QueueConfig.runtimeConfig (config : QueueConfig) (queue : String)
    (first second : QueueConfigs) : QueueRuntimeConfig :=
  config.concurrency.effectiveRuntimeConfig
    (runtimeQueueConfig first second queue config.keyOrPrefix
      config.concurrency.storedRuntimeDefault)

/-! Registration. -/

/-- The hash set of registered queues, whose equality is that of the kinds. -/
structure Config where
  queues : List QueueConfig
  apart : queues.Pairwise fun left right => left.kind.same right.kind = false

namespace Config

def new : Config where
  queues := []
  apart := List.Pairwise.nil

def registerQueueWith (config : Config) (queue : QueueConfig) : Config where
  queues := queue :: config.queues.filter (fun other => !queue.kind.same other.kind)
  apart := by
    rw [List.pairwise_cons]
    constructor
    · intro other kept
      simpa using (List.mem_filter.mp kept).2
    · exact config.apart.filter _

def registerDefaultQueue (config : Config) (queue : QueueConfig) : Config :=
  if config.queues.any (fun other => other.kind.same queue.kind) then config
  else config.registerQueueWith queue

end Config

theorem QueueKind.same_comm (left right : QueueKind) : left.same right = right.same left := by
  cases left <;> cases right <;> simp [same, eq_comm]

theorem Config.static_unique (config : Config) {left right : Fin config.queues.length}
    {key : String} (first : (config.queues.get left).kind = .static key)
    (second : (config.queues.get right).kind = .static key) : left = right := by
  have alike : ((config.queues.get left).kind.same (config.queues.get right).kind) = true := by
    rw [first, second]
    simp [QueueKind.same]
  by_contra different
  rcases lt_or_gt_of_ne different with before | after
  · have apart := List.pairwise_iff_get.mp config.apart left right before
    rw [alike] at apart
    cases apart
  · have apart := List.pairwise_iff_get.mp config.apart right left after
    rw [QueueKind.same_comm, alike] at apart
    cases apart

/-! Permits. -/

structure QueueControl where
  concurrency : Nat
  active : Nat
  queueState : QueueState
deriving DecidableEq

namespace QueueControl

def new (config : QueueRuntimeConfig) : QueueControl where
  concurrency := config.concurrency.getD 1
  active := 0
  queueState := config.state

/-- `none` is a caller that waits. -/
def acquire (control : QueueControl) : Option QueueControl :=
  if control.queueState = .active ∧ control.active < control.concurrency then
    some { control with active := control.active + 1 }
  else none

def applyConfig (control : QueueControl) (config : QueueRuntimeConfig) : QueueControl :=
  { control with
    concurrency := config.concurrency.getD control.concurrency
    queueState := config.state }

def release (control : QueueControl) : QueueControl :=
  { control with active := control.active - 1 }

theorem acquire_eq_some {control next : QueueControl} (granted : control.acquire = some next) :
    control.active < control.concurrency ∧ next = { control with active := control.active + 1 } := by
  unfold acquire at granted
  split at granted
  · rename_i free
    exact ⟨free.2, (Option.some.inj granted).symm⟩
  · cases granted

end QueueControl

end Oxana
