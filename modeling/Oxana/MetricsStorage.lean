import Oxana.MetricsCore
import Oxana.RedisCore

/-!
The metrics side of `storage_internal.rs`: the pipeline that adds a buffer to the counters
in Redis and the reads of the dashboard.  No key expires.
-/

namespace Oxana

open Program

inductive MetricsCommand
  | hincr (key field : String) (increment : Int)
  | expire (key : String) (seconds : Int)
  | bitfield (key : String) (ops : List BitfieldOp)
  | hgetall (key : String)
  | hget (key field : String)

@[reducible] def MetricsCommand.Reply : MetricsCommand → Type
  | .hincr _ _ _ => Unit
  | .expire _ _ => Unit
  | .bitfield _ _ => List (Option Nat)
  | .hgetall _ => CounterHash
  | .hget _ _ => Option Int

/-- The counter hashes by key and field, and the `u16` fields of the histograms. -/
structure MetricsStore where
  counters : SparseMap (String × String) (Option Int) none
  histograms : SparseMap (String × Nat) Nat 0

def MetricsStore.empty : MetricsStore where
  counters := .empty
  histograms := .empty

/-! The commands. -/

/-- What one `BITFIELD` has done so far; without `OVERFLOW SAT` a field wraps around. -/
structure BitfieldState where
  saturates : Bool
  fields : SparseMap (String × Nat) Nat 0
  replies : List (Option Nat)

def bitfieldStep (key : String) (state : BitfieldState) : BitfieldOp → BitfieldState
  | .overflowSat => { state with saturates := true }
  | .incrBy index value =>
      let sum := state.fields.get (key, index) + value
      let next := if state.saturates then min sum 65535 else sum % 65536
      { state with
        fields := state.fields.set (key, index) next
        replies := state.replies ++ [some next] }
  | .get index =>
      { state with replies := state.replies ++ [some (state.fields.get (key, index))] }

/-- Redis reads the increments as `i64` before it runs any operation. -/
def BitfieldOp.readable : BitfieldOp → Bool
  | .incrBy _ value => decide (value < 2 ^ 63)
  | _ => true

def MetricsStore.hash (store : MetricsStore) (key : String) : CounterHash :=
  (store.counters.keys.filter fun address => decide (address.1 = key)).filterMap fun address =>
    (store.counters.get address).map fun value => (address.2, value)

def metricsExec : (command : MetricsCommand) → MetricsStore →
    Option (Except OxanaError command.Reply) × MetricsStore
  | .hincr key field increment, store =>
      let value := (store.counters.get (key, field)).getD 0 + increment
      if -2 ^ 63 ≤ value ∧ value < 2 ^ 63 then
        (some (.ok ()), { store with counters := store.counters.set (key, field) (some value) })
      else (some (.error .redis), store)
  | .expire _ _, store => (some (.ok ()), store)
  | .bitfield key ops, store =>
      if ops.all BitfieldOp.readable then
        let ended := ops.foldl (bitfieldStep key)
          { saturates := false, fields := store.histograms, replies := [] }
        (some (.ok ended.replies), { store with histograms := ended.fields })
      else (some (.error .redis), store)
  | .hgetall key, store => (some (.ok (store.hash key)), store)
  | .hget key field, store => (some (.ok (store.counters.get (key, field))), store)

abbrev Metrics (α : Type) := Program MetricsCommand.Reply OxanaError α

def runMetrics (program : Metrics α) (store : MetricsStore) :
    Option (Except OxanaError α) × MetricsStore :=
  program.run metricsExec store

/-! Writing. -/

def redisMetricIncrement (value : Nat) : Int :=
  if value < 2 ^ 63 then (value : Int) else 2 ^ 63 - 1

def hincrPositive (key field : String) (value : Nat) : List MetricsCommand :=
  if value > 0 then [.hincr key field (redisMetricIncrement value)] else []

namespace StorageInternal

variable (storage : StorageInternal)

def flushRecord (record : Int × MetricIdentity × PendingJobMetrics) : List MetricsCommand :=
  let (minute, identity, metrics) := record
  let counterKey := storage.keys.metricsCounterKey minute
  let histogramArgs := histogramBitfieldIncrementArgs metrics.histogram
  let histogramKey := storage.keys.metricsHistogramKey identity.worker minute
  hincrPositive counterKey (identity.metricField metricProcessedJobs) metrics.processed ++
  hincrPositive counterKey (identity.metricField metricFailedJobs) metrics.failed ++
  hincrPositive counterKey (identity.metricField metricPanickedJobs) metrics.panicked ++
  hincrPositive counterKey (identity.metricField metricSuccessfulExecutions)
    metrics.successfulExecutions ++
  hincrPositive counterKey (identity.metricField metricFailedExecutions)
    metrics.failedExecutions ++
  hincrPositive counterKey (identity.metricField metricPanickedExecutions)
    metrics.panickedExecutions ++
  hincrPositive counterKey (identity.metricField metricExecutionMs) metrics.executionMs ++
  [.expire counterKey metricsRetentionSecs] ++
  if histogramArgs.length > 1 then
    [.bitfield histogramKey histogramArgs, .expire histogramKey metricsRetentionSecs]
  else []

def flushQueueRecord (record : Int × String × QueueCounterTotals) : List MetricsCommand :=
  let (minute, queue, metrics) := record
  let counterKey := storage.keys.metricsQueueCounterKey minute
  hincrPositive counterKey (queueMetricField queue queueMetricProcessedJobs)
    metrics.processed ++
  hincrPositive counterKey (queueMetricField queue queueMetricSucceededJobs)
    metrics.succeeded ++
  hincrPositive counterKey (queueMetricField queue queueMetricFailedJobs) metrics.failed ++
  [.expire counterKey metricsRetentionSecs]

def flushJobMetrics (buffer : JobMetricsBuffer) : Metrics Unit :=
  if buffer.isEmpty then pure ()
  else batch ((buffer.records storage.order).flatMap storage.flushRecord ++
    (buffer.queueRecords storage.order).flatMap storage.flushQueueRecord)

/-! Reading. -/

def metricsCounterHashes (minutes : List Int) : Metrics (List CounterHash) :=
  collect (fun minute => .hgetall (storage.keys.metricsCounterKey minute))
    (fun _ reply => reply) minutes

def queueCounterMetricHashes (minutes : List Int) : Metrics (List CounterHash) :=
  collect (fun minute => .hgetall (storage.keys.metricsQueueCounterKey minute))
    (fun _ reply => reply) minutes

def metricFields (identity : MetricIdentity) : List String :=
  [identity.metricField metricProcessedJobs, identity.metricField metricFailedJobs,
    identity.metricField metricPanickedJobs, identity.metricField metricSuccessfulExecutions,
    identity.metricField metricFailedExecutions, identity.metricField metricPanickedExecutions,
    identity.metricField metricExecutionMs]

def chunkAt (size idx : Nat) (values : List α) : List α :=
  (values.drop (size * idx)).take size

def metricsCounterHashesFor (minutes : List Int) (identity : MetricIdentity) :
    Metrics (List CounterHash) := do
  let fields := metricFields identity
  let wanted := minutes.flatMap fun minute => fields.map fun field =>
    (storage.keys.metricsCounterKey minute, field)
  let values : List (Option Int) ← collect (fun item : String × String => .hget item.1 item.2)
    (fun _ reply => reply) wanted
  pure ((List.range minutes.length).map fun idx =>
    (fields.zip (chunkAt fields.length idx values)).filterMap fun entry =>
      entry.2.map fun value => (entry.1, value))

def addBucketValues (totals : HistogramCounts) (values : List (Option Nat)) : HistogramCounts :=
  fun index =>
    match values[index.val]? with
    | none => totals index
    | some value => saturatingAdd (totals index) (value.getD 0)

def metricsHistogramCountsFor (minutes : List Int) (identity : MetricIdentity) :
    Metrics HistogramCounts := do
  let values : List (List (Option Nat)) ← collect
    (fun minute => .bitfield (storage.keys.metricsHistogramKey identity.worker minute)
      histogramBitfieldFetchArgs)
    (fun _ reply => reply) minutes
  pure (values.foldl addBucketValues fun _ => 0)

def jobMetrics (now : Int) (query : JobMetricsQuery) : Metrics JobMetricsSnapshot := do
  let minutes := metricMinutes now query
  let hashes ← storage.metricsCounterHashes minutes
  let aggregation := aggregateCounterHashes storage.order minutes hashes none
  pure {
    startsAt := minutes.head?.getD 0 * 60
    endsAt := minutes.getLast?.getD 0 * 60
    minutes := minutes.length
    totals := aggregation.totals
    series := aggregation.series
    workers := aggregation.workers }

def jobMetricsFor (identity : MetricIdentity) (now : Int) (query : JobMetricsQuery) :
    Metrics JobMetricsDetail := do
  let minutes := metricMinutes now query
  let hashes ← storage.metricsCounterHashesFor minutes identity
  let aggregation := aggregateCounterHashes storage.order minutes hashes (some identity)
  let histogram ← storage.metricsHistogramCountsFor minutes identity
  pure {
    identity := identity
    startsAt := minutes.head?.getD 0 * 60
    endsAt := minutes.getLast?.getD 0 * 60
    minutes := minutes.length
    totals := aggregation.totals
    series := aggregation.series
    histogram := histogramBucketsFromCounts histogram }

end StorageInternal

/-! Recording and flushing. -/

abbrev MetricsLog := List (Int × WorkerResult)

def JobMetricsBuffer.recordAll (log : MetricsLog) : JobMetricsBuffer :=
  log.foldl (fun buffer entry => buffer.record entry.1 entry.2) .empty

def StorageInternal.flushBatches (storage : StorageInternal) : List MetricsLog → Metrics Unit
  | [] => pure ()
  | log :: rest => do
      storage.flushJobMetrics (JobMetricsBuffer.recordAll log)
      storage.flushBatches rest

end Oxana
