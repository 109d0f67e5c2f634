import Oxana.MetricsStorage

/-!
The task of `result_collector.rs`.  Results go into two buffers, each with a timer of its
own, and what the timers have left is flushed when the channel is closed.
-/

namespace Oxana

def i64Max : Nat := 2 ^ 63 - 1

def saturatingAddI64 (first second : Nat) : Nat := min (first + second) i64Max

structure Stats where
  processed : Nat := 0
  succeeded : Nat := 0
  panicked : Nat := 0
  failed : Nat := 0
  deriving DecidableEq

structure QueueResultStats where
  processed : Nat := 0
  succeeded : Nat := 0
  panicked : Nat := 0
  failed : Nat := 0
  deriving DecidableEq

def QueueResultStats.record (stats : QueueResultStats) (result : WorkerResult) :
    QueueResultStats :=
  let count := min result.jobCount i64Max
  let stats := { stats with processed := saturatingAddI64 stats.processed count }
  match result.kind with
  | .success => { stats with succeeded := saturatingAddI64 stats.succeeded count }
  | .panicked =>
      { stats with
        panicked := saturatingAddI64 stats.panicked count
        failed := saturatingAddI64 stats.failed count }
  | .failed => { stats with failed := saturatingAddI64 stats.failed count }

def Stats.record (stats : Stats) (result : WorkerResult) : Stats :=
  let stats := { stats with processed := saturatingAdd stats.processed result.jobCount }
  match result.kind with
  | .success => { stats with succeeded := saturatingAdd stats.succeeded result.jobCount }
  | .panicked =>
      { stats with
        panicked := saturatingAdd stats.panicked result.jobCount
        failed := saturatingAdd stats.failed result.jobCount }
  | .failed => { stats with failed := saturatingAdd stats.failed result.jobCount }

abbrev PendingStats := SparseMap String (Option QueueResultStats) none

structure CollectorSettings where
  redisFailureTolerance : Nat
  exitWhenProcessed : Option Nat

/-- The variables of `run`, and what it shares: the counters in memory, the cancel token,
the failure counter of the storage and Redis. -/
structure Collector where
  metrics : JobMetricsBuffer
  pendingStats : PendingStats
  activeQueues : List String
  stats : Stats
  cancelled : Bool
  consecutiveRedisFailures : Nat
  redis : MetricsStore

/-! Tracked calls. -/

def recordRedisSuccess (_failures : Nat) : Nat := 0

/-- `fetch_add` on a `u32`; the answer says whether the tolerance is used up. -/
def recordRedisFailure (failures failureTolerance : Nat) : Bool × Nat :=
  let count := (failures + 1) % 2 ^ 32
  (decide (failureTolerance ≤ count), count)

def trackRedisResult (failureTolerance failures : Nat) :
    Except OxanaError α → Except OxanaError (Option α) × Nat
  | .ok value => (.ok (some value), recordRedisSuccess failures)
  | .error error =>
      let (exceeded, failures) := recordRedisFailure failures failureTolerance
      (if exceeded then .error error else .ok none, failures)

/-- A call to Redis: the results that other tasks tracked since the last one, and whether
this call is applied. -/
structure TrackedCall where
  others : List Bool
  applied : Bool

def TrackedCall.failuresBefore (call : TrackedCall) (failures : Nat) : Nat :=
  call.others.foldl (fun failures succeeded =>
    if succeeded then recordRedisSuccess failures
    else (recordRedisFailure failures 0).2) failures

def TrackedCall.send (call : TrackedCall) (program : Metrics α) (redis : MetricsStore) :
    Except OxanaError α × MetricsStore :=
  if call.applied then
    let (answer, redis) := runMetrics program redis
    (answer.getD (.error .redis), redis)
  else (.error .redis, redis)

/-! The writes of the storage. -/

def MetricsStore.hset (store : MetricsStore) (key field : String) (value : Int) : MetricsStore :=
  { store with counters := store.counters.set (key, field) (some value) }

namespace StorageInternal

variable (storage : StorageInternal)

def hincrStat (queue field : String) (value : Nat) : List MetricsCommand :=
  if value > 0 then [.hincr storage.keys.stats (queue ++ ":" ++ field) value] else []

def queueStatsCommands (queue : String) (stats : QueueResultStats) : List MetricsCommand :=
  storage.hincrStat queue "processed" stats.processed ++
  storage.hincrStat queue "succeeded" stats.succeeded ++
  storage.hincrStat queue "panicked" stats.panicked ++
  storage.hincrStat queue "failed" stats.failed

def flushResultStats (stats : PendingStats) : Metrics Unit :=
  if stats.keys.isEmpty then pure ()
  else Program.batch ((storage.order.arrange stats.keys).flatMap fun queue =>
    match stats.get queue with
    | none => []
    | some queueStats => storage.queueStatsCommands queue queueStats)

def writeQueueLengthStats (lengths : List (String × Int)) (refreshedAt : Int)
    (store : MetricsStore) : MetricsStore :=
  lengths.foldl (fun store entry =>
    ((store.hset storage.keys.stats (entry.1 ++ ":" ++ "enqueued") entry.2).hset
      storage.keys.stats (entry.1 ++ ":" ++ "enqueued_at") refreshedAt).hset
      (storage.keys.metricsQueueLengthKey (refreshedAt / 60)) entry.1 entry.2) store

end StorageInternal

/-! The loop. -/

def pruneActiveQueues (activeQueues : List String) (lengths : String → Int) : List String :=
  activeQueues.filter fun queue => decide (lengths queue > 0)

inductive CollectorEvent
  | result (now : Int) (result : WorkerResult)
  | metricsTick (call : TrackedCall)
  | statsTick (call : TrackedCall)
  | lengthsTick (call : TrackedCall) (lengths : String → Int) (refreshedAt : Int)

structure FinalCalls where
  metrics : TrackedCall
  stats : TrackedCall
  lengthsCall : TrackedCall
  lengths : String → Int
  refreshedAt : Int

namespace Collector

variable (storage : StorageInternal) (settings : CollectorSettings)

def updateStats (collector : Collector) (result : WorkerResult) : Collector :=
  let stats := collector.stats.record result
  let queueStats := (collector.pendingStats.get result.queue).getD {}
  { collector with
    stats := stats
    pendingStats := collector.pendingStats.set result.queue (some (queueStats.record result))
    activeQueues := collector.activeQueues.insert result.queue
    cancelled := collector.cancelled ||
      settings.exitWhenProcessed.any fun limit => decide (stats.processed ≥ limit) }

def track (collector : Collector) (call : TrackedCall)
    (sent : Except OxanaError α × MetricsStore) (settle : Collector → Collector) :
    Except OxanaError Collector :=
  let (tracked, failures) := trackRedisResult settings.redisFailureTolerance
    (call.failuresBefore collector.consecutiveRedisFailures) sent.1
  let collector := { collector with consecutiveRedisFailures := failures, redis := sent.2 }
  match tracked with
  | .error error => .error error
  | .ok none => .ok collector
  | .ok (some _) => .ok (settle collector)

def flushMetrics (collector : Collector) (call : TrackedCall) : Except OxanaError Collector :=
  if collector.metrics.isEmpty then .ok collector
  else collector.track settings call
    (call.send (storage.flushJobMetrics collector.metrics) collector.redis)
    fun collector => { collector with metrics := .empty }

def flushPendingStats (collector : Collector) (call : TrackedCall) :
    Except OxanaError Collector :=
  if collector.pendingStats.keys.isEmpty then .ok collector
  else collector.track settings call
    (call.send (storage.flushResultStats collector.pendingStats) collector.redis)
    fun collector => { collector with pendingStats := .empty }

def refreshActiveQueueLengths (collector : Collector) (call : TrackedCall)
    (lengths : String → Int) (refreshedAt : Int) : Except OxanaError Collector :=
  if collector.activeQueues.isEmpty then .ok collector
  else
    let sent : Except OxanaError Unit × MetricsStore :=
      if call.applied then
        (.ok (), storage.writeQueueLengthStats
          (collector.activeQueues.map fun queue => (queue, lengths queue)) refreshedAt
          collector.redis)
      else (.error .redis, collector.redis)
    collector.track settings call sent fun collector =>
      { collector with activeQueues := pruneActiveQueues collector.activeQueues lengths }

def step (collector : Collector) : CollectorEvent → Except OxanaError Collector
  | .result now result =>
      let collector := { collector with metrics := collector.metrics.record now result }
      .ok (collector.updateStats settings result)
  | .metricsTick call => collector.flushMetrics storage settings call
  | .statsTick call => collector.flushPendingStats storage settings call
  | .lengthsTick call lengths refreshedAt =>
      collector.refreshActiveQueueLengths storage settings call lengths refreshedAt

def flushBeforeExit (collector : Collector) (calls : FinalCalls) :
    Except OxanaError Collector := do
  let collector ← collector.flushMetrics storage settings calls.metrics
  let collector ← collector.flushPendingStats storage settings calls.stats
  collector.refreshActiveQueueLengths storage settings calls.lengthsCall calls.lengths
    calls.refreshedAt

def start (failures : Nat) (redis : MetricsStore) : Collector where
  metrics := .empty
  pendingStats := .empty
  activeQueues := []
  stats := {}
  cancelled := false
  consecutiveRedisFailures := failures
  redis := redis

def run (failures : Nat) (redis : MetricsStore) (events : List CollectorEvent)
    (calls : FinalCalls) : Except OxanaError Collector := do
  let collector ← events.foldlM (step storage settings) (start failures redis)
  collector.flushBeforeExit storage settings calls

end Collector

end Oxana
