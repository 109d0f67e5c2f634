import Oxana.KeyScheme
import Oxana.SparseMap

/-!
The execution metrics of `metrics.rs`: the buffer a process records its results in, the
fields its counters are kept under and the aggregation of the counters read back.
-/

namespace Oxana

def metricsRetentionSecs : Int := 24 * 60 * 60

def defaultMetricMinutes : Nat := 60

def maxMetricMinutes : Nat := 24 * 60

def histogramBucketCount : Nat := 14

def u64Max : Nat := 2 ^ 64 - 1

def saturatingAdd (first second : Nat) : Nat := min (first + second) u64Max

theorem saturatingAdd_zero {value : Nat} (fits : value ≤ u64Max) :
    saturatingAdd value 0 = value :=
  Nat.min_eq_left fits

theorem saturatingAdd_min (first second : Nat) :
    saturatingAdd (min first u64Max) second = min (first + second) u64Max := by
  unfold saturatingAdd
  omega

def histogramBucketIntervalsMs : List Nat :=
  [25, 50, 100, 250, 500, 1000, 2500, 5000, 10000, 30000, 60000, 120000, 300000, u64Max]

def histogramBucketLabels : List String :=
  ["25ms", "50ms", "100ms", "250ms", "500ms", "1s", "2.5s", "5s", "10s", "30s", "60s", "120s",
    "5min", "Slow"]

def metricProcessedJobs : String := "p"
def metricFailedJobs : String := "f"
def metricPanickedJobs : String := "pn"
def metricSuccessfulExecutions : String := "xs"
def metricFailedExecutions : String := "xf"
def metricPanickedExecutions : String := "xpn"
def metricExecutionMs : String := "ms"
def queueMetricProcessedJobs : String := "p"
def queueMetricSucceededJobs : String := "s"
def queueMetricFailedJobs : String := "f"

inductive WorkerResultKind
  | success
  | panicked
  | failed
  deriving DecidableEq

structure WorkerResult where
  kind : WorkerResultKind
  workerName : String
  queue : String
  executionMs : Nat
  jobCount : Nat
  workerFits : workerName.utf8ByteSize < 2 ^ 63
  queueFits : queue.utf8ByteSize < 2 ^ 63

/-! The texts. -/

def splitOnce (separator : Char) (text : String) : Option (String × String) :=
  match text.toList.dropWhile (· != separator) with
  | [] => none
  | _ :: back =>
      some (String.ofList (text.toList.takeWhile (· != separator)), String.ofList back)

def rsplitOnce (separator : Char) (text : String) : Option (String × String) :=
  match text.toList.reverse.dropWhile (· != separator) with
  | [] => none
  | _ :: front =>
      some (String.ofList front.reverse,
        String.ofList (text.toList.reverse.takeWhile (· != separator)).reverse)

def parseUsize (text : String) : Option Nat :=
  let digits := match text.toList with
    | '+' :: rest => rest
    | letters => letters
  if digits.isEmpty || !digits.all Char.isDigit then none
  else
    let value := Nat.ofDigitChars 10 digits 0
    if value < 2 ^ 64 then some value else none

/-- The text before and after a byte offset; none when the offset is beyond the end or not
between two characters. -/
def splitAtByte : Nat → List Char → Option (List Char × List Char)
  | 0, letters => some ([], letters)
  | _ + 1, [] => none
  | offset + 1, letter :: rest =>
      if letter.utf8Size ≤ offset + 1 then
        (splitAtByte (offset + 1 - letter.utf8Size) rest).map fun parts =>
          (letter :: parts.1, parts.2)
      else none

structure MetricIdentity where
  worker : String
  deriving DecidableEq

namespace MetricIdentity

def fromWorkerResult (result : WorkerResult) : MetricIdentity where
  worker := result.workerName

def fieldKey (identity : MetricIdentity) : String := Oxana.fieldKey identity.worker

-- The text after the worker is ignored.
def fromFieldKey (key : String) : Option MetricIdentity := do
  let (lengthText, rest) ← splitOnce ':' key
  let workerLen ← parseUsize lengthText
  let (worker, _) ← splitAtByte workerLen rest.toList
  some { worker := String.ofList worker }

def metricField (identity : MetricIdentity) (metric : String) : String :=
  identity.fieldKey ++ "|" ++ metric

end MetricIdentity

def queueMetricField (queue metric : String) : String :=
  toString queue.utf8ByteSize ++ ":" ++ queue ++ "|" ++ metric

def splitMetricField (field : String) : Option (MetricIdentity × String) := do
  let (identityKey, metric) ← rsplitOnce '|' field
  if metric ∈ [metricProcessedJobs, metricFailedJobs, metricPanickedJobs,
      metricSuccessfulExecutions, metricFailedExecutions, metricPanickedExecutions,
      metricExecutionMs] then
    (MetricIdentity.fromFieldKey identityKey).map fun identity => (identity, metric)
  else none

-- A text ends between two characters, so the boundary check of the source adds nothing.
def splitQueueMetricField (field : String) : Option (String × String) := do
  let (queueKey, metric) ← rsplitOnce '|' field
  if metric ∈ [queueMetricProcessedJobs, queueMetricSucceededJobs, queueMetricFailedJobs] then
    let (lengthText, queue) ← splitOnce ':' queueKey
    let queueLen ← parseUsize lengthText
    if queue.utf8ByteSize ≠ queueLen then none else some (queue, metric)
  else none

/-! The window. -/

structure JobMetricsQuery where
  minutes : Nat

def JobMetricsQuery.effectiveMinutes (query : JobMetricsQuery) : Nat :=
  if query.minutes = 0 then defaultMetricMinutes else min query.minutes maxMetricMinutes

def metricMinutes (now : Int) (query : JobMetricsQuery) : List Int :=
  let startMinute := now / 60 - query.effectiveMinutes + 1
  (List.range query.effectiveMinutes).map fun offset : Nat => startMinute + offset

/-! The totals. -/

structure JobMetricsTotals where
  processed : Nat := 0
  succeeded : Nat := 0
  failed : Nat := 0
  panicked : Nat := 0
  successfulExecutions : Nat := 0
  failedExecutions : Nat := 0
  panickedExecutions : Nat := 0
  executionMs : Nat := 0
  deriving DecidableEq

namespace JobMetricsTotals

def addMetric (totals : JobMetricsTotals) (metric : String) (value : Nat) : JobMetricsTotals :=
  if metric = metricProcessedJobs then
    { totals with processed := saturatingAdd totals.processed value }
  else if metric = metricFailedJobs then
    { totals with failed := saturatingAdd totals.failed value }
  else if metric = metricPanickedJobs then
    { totals with panicked := saturatingAdd totals.panicked value }
  else if metric = metricSuccessfulExecutions then
    { totals with successfulExecutions := saturatingAdd totals.successfulExecutions value }
  else if metric = metricFailedExecutions then
    { totals with failedExecutions := saturatingAdd totals.failedExecutions value }
  else if metric = metricPanickedExecutions then
    { totals with panickedExecutions := saturatingAdd totals.panickedExecutions value }
  else if metric = metricExecutionMs then
    { totals with executionMs := saturatingAdd totals.executionMs value }
  else totals

-- The sum of the executions wraps around.
def finalize (totals : JobMetricsTotals) : JobMetricsTotals :=
  let settled := { totals with succeeded := totals.processed - totals.failed }
  if (totals.successfulExecutions + totals.failedExecutions + totals.panickedExecutions) % 2 ^ 64
      = 0 then
    { settled with
      successfulExecutions := settled.succeeded
      failedExecutions := settled.failed
      panickedExecutions := settled.panicked }
  else settled

end JobMetricsTotals

structure JobMetricsPoint extends JobMetricsTotals where
  timestamp : Int
  deriving DecidableEq

def JobMetricsPoint.addMetric (point : JobMetricsPoint) (metric : String) (value : Nat) :
    JobMetricsPoint :=
  { point with toJobMetricsTotals := point.toJobMetricsTotals.addMetric metric value }

def JobMetricsPoint.finalize (point : JobMetricsPoint) : JobMetricsPoint :=
  { point with toJobMetricsTotals := point.toJobMetricsTotals.finalize }

structure WorkerMetricsSummary where
  identity : MetricIdentity
  totals : JobMetricsTotals
  series : List JobMetricsPoint

structure JobMetricsSnapshot where
  startsAt : Int
  endsAt : Int
  minutes : Nat
  totals : JobMetricsTotals
  series : List JobMetricsPoint
  workers : List WorkerMetricsSummary

structure JobMetricsHistogramBucket where
  label : String
  upperBoundMs : Option Nat
  count : Nat
  deriving DecidableEq

structure JobMetricsDetail where
  identity : MetricIdentity
  startsAt : Int
  endsAt : Int
  minutes : Nat
  totals : JobMetricsTotals
  series : List JobMetricsPoint
  histogram : List JobMetricsHistogramBucket

structure QueueCounterTotals where
  processed : Nat := 0
  succeeded : Nat := 0
  failed : Nat := 0
  deriving DecidableEq

def QueueCounterTotals.addMetric (totals : QueueCounterTotals) (metric : String) (value : Nat) :
    QueueCounterTotals :=
  if metric = queueMetricProcessedJobs then
    { totals with processed := saturatingAdd totals.processed value }
  else if metric = queueMetricSucceededJobs then
    { totals with succeeded := saturatingAdd totals.succeeded value }
  else if metric = queueMetricFailedJobs then
    { totals with failed := saturatingAdd totals.failed value }
  else totals

/-! The histogram. -/

def histogramBucketIndex (durationMs : Nat) : Nat :=
  (histogramBucketIntervalsMs.findIdx? fun upper => decide (durationMs < upper)).getD
    (histogramBucketCount - 1)

abbrev HistogramCounts := Fin histogramBucketCount → Nat

/-- The arguments of `BITFIELD`, grouped to operations; all fields are `u16`. -/
inductive BitfieldOp
  | overflowSat
  | incrBy (index value : Nat)
  | get (index : Nat)
  deriving DecidableEq

def histogramBitfieldIncrementArgs (buckets : HistogramCounts) : List BitfieldOp :=
  .overflowSat :: (List.finRange histogramBucketCount).filterMap fun index =>
    if buckets index = 0 then none else some (.incrBy index (buckets index))

def histogramBitfieldFetchArgs : List BitfieldOp :=
  (List.range histogramBucketCount).map .get

def histogramBucketsFromCounts (counts : HistogramCounts) : List JobMetricsHistogramBucket :=
  (List.finRange histogramBucketCount).map fun index =>
    { label := histogramBucketLabels.getD index.val ""
      upperBoundMs :=
        if index.val < histogramBucketCount - 1 then
          histogramBucketIntervalsMs[index.val]?
        else none
      count := counts index }

/-! The buffer. -/

structure PendingJobMetrics where
  processed : Nat := 0
  failed : Nat := 0
  panicked : Nat := 0
  successfulExecutions : Nat := 0
  failedExecutions : Nat := 0
  panickedExecutions : Nat := 0
  executionMs : Nat := 0
  histogram : HistogramCounts := fun _ => 0

structure JobMetricsBuffer where
  entries : SparseMap (Int × MetricIdentity) (Option PendingJobMetrics) none
  queueEntries : SparseMap (Int × String) (Option QueueCounterTotals) none

def PendingJobMetrics.record (metrics : PendingJobMetrics) (result : WorkerResult) :
    PendingJobMetrics :=
  let metrics := { metrics with processed := saturatingAdd metrics.processed result.jobCount }
  match result.kind with
  | .success =>
      { metrics with
        successfulExecutions := saturatingAdd metrics.successfulExecutions 1
        executionMs := saturatingAdd metrics.executionMs result.executionMs
        histogram := fun bucket =>
          if (bucket : Nat) = histogramBucketIndex result.executionMs then
            saturatingAdd (metrics.histogram bucket) 1
          else metrics.histogram bucket }
  | .panicked =>
      { metrics with
        failed := saturatingAdd metrics.failed result.jobCount
        panicked := saturatingAdd metrics.panicked result.jobCount
        failedExecutions := saturatingAdd metrics.failedExecutions 1
        panickedExecutions := saturatingAdd metrics.panickedExecutions 1 }
  | .failed =>
      { metrics with
        failed := saturatingAdd metrics.failed result.jobCount
        failedExecutions := saturatingAdd metrics.failedExecutions 1 }

def QueueCounterTotals.record (metrics : QueueCounterTotals) (result : WorkerResult) :
    QueueCounterTotals :=
  let metrics := { metrics with processed := saturatingAdd metrics.processed result.jobCount }
  match result.kind with
  | .success => { metrics with succeeded := saturatingAdd metrics.succeeded result.jobCount }
  | .panicked => { metrics with failed := saturatingAdd metrics.failed result.jobCount }
  | .failed => { metrics with failed := saturatingAdd metrics.failed result.jobCount }

namespace JobMetricsBuffer

def empty : JobMetricsBuffer where
  entries := .empty
  queueEntries := .empty

def isEmpty (buffer : JobMetricsBuffer) : Bool :=
  buffer.entries.keys.isEmpty && buffer.queueEntries.keys.isEmpty

def record (buffer : JobMetricsBuffer) (now : Int) (result : WorkerResult) : JobMetricsBuffer :=
  let minute := now / 60
  let identity := MetricIdentity.fromWorkerResult result
  let metrics := (buffer.entries.get (minute, identity)).getD {}
  let queueMetrics := (buffer.queueEntries.get (minute, result.queue)).getD {}
  { entries := buffer.entries.set (minute, identity) (some (metrics.record result))
    queueEntries :=
      buffer.queueEntries.set (minute, result.queue) (some (queueMetrics.record result)) }

variable (order : IterationOrder)

def records (buffer : JobMetricsBuffer) : List (Int × MetricIdentity × PendingJobMetrics) :=
  (order.arrange buffer.entries.keys).filterMap fun key =>
    (buffer.entries.get key).map fun metrics => (key.1, key.2, metrics)

def queueRecords (buffer : JobMetricsBuffer) : List (Int × String × QueueCounterTotals) :=
  (order.arrange buffer.queueEntries.keys).filterMap fun key =>
    (buffer.queueEntries.get key).map fun metrics => (key.1, key.2, metrics)

end JobMetricsBuffer

/-! The aggregation. -/

/-- A `HashMap<String, i64>`: its entries, each field once. -/
abbrev CounterHash := List (String × Int)

structure WorkerMetricsSummaryBuilder where
  totals : JobMetricsTotals
  series : List JobMetricsPoint

structure JobMetricsAggregating where
  totals : JobMetricsTotals
  series : List JobMetricsPoint
  workers : SparseMap MetricIdentity (Option WorkerMetricsSummaryBuilder) none

structure JobMetricsAggregation where
  totals : JobMetricsTotals
  series : List JobMetricsPoint
  workers : List WorkerMetricsSummary

def emptySeries (minutes : List Int) : List JobMetricsPoint :=
  minutes.map fun minute => { timestamp := minute * 60 }

def addMetricAt (series : List JobMetricsPoint) (idx : Nat) (metric : String) (value : Nat) :
    List JobMetricsPoint :=
  series.modify idx fun point => point.addMetric metric value

def WorkerMetricsSummaryBuilder.addMetric (builder : WorkerMetricsSummaryBuilder) (idx : Nat)
    (metric : String) (value : Nat) : WorkerMetricsSummaryBuilder where
  totals := builder.totals.addMetric metric value
  series := addMetricAt builder.series idx metric value

-- `u64::try_from(raw_value).unwrap_or_default()` is `toNat`.
def aggregateField (template : List JobMetricsPoint) (filter : Option MetricIdentity) (idx : Nat)
    (state : JobMetricsAggregating) (entry : String × Int) : JobMetricsAggregating :=
  match splitMetricField entry.1 with
  | none => state
  | some (identity, metric) =>
      if filter.any fun expected => decide (expected ≠ identity) then state
      else
        let value := entry.2.toNat
        let summary := (state.workers.get identity).getD { totals := {}, series := template }
        { totals := state.totals.addMetric metric value
          series := addMetricAt state.series idx metric value
          workers :=
            state.workers.set identity (some (summary.addMetric idx metric value)) }

def aggregateHash (order : IterationOrder) (template : List JobMetricsPoint)
    (filter : Option MetricIdentity) (state : JobMetricsAggregating)
    (indexed : CounterHash × Nat) : JobMetricsAggregating :=
  if indexed.2 < state.series.length then
    let counted := (order.arrange indexed.1).foldl
      (aggregateField template filter indexed.2) state
    { counted with series := counted.series.modify indexed.2 JobMetricsPoint.finalize }
  else state

def WorkerMetricsSummaryBuilder.build (builder : WorkerMetricsSummaryBuilder)
    (identity : MetricIdentity) : WorkerMetricsSummary where
  identity := identity
  totals := builder.totals.finalize
  series := builder.series.map JobMetricsPoint.finalize

def WorkerMetricsSummary.sortsBefore (first second : WorkerMetricsSummary) : Bool :=
  ((compare second.totals.executionMs first.totals.executionMs).then
    ((compare second.totals.processed first.totals.processed).then
      (compare first.identity.worker second.identity.worker))).isLE

def aggregateCounterHashes (order : IterationOrder) (minutes : List Int)
    (hashes : List CounterHash) (filter : Option MetricIdentity) : JobMetricsAggregation :=
  let start : JobMetricsAggregating :=
    { totals := {}, series := emptySeries minutes, workers := .empty }
  let counted := hashes.zipIdx.foldl (aggregateHash order (emptySeries minutes) filter) start
  { totals := counted.totals.finalize
    series := counted.series
    workers := ((order.arrange counted.workers.keys).filterMap fun identity =>
      (counted.workers.get identity).map fun builder => builder.build identity).mergeSort
        WorkerMetricsSummary.sortsBefore }

def aggregateQueueField (queues : SparseMap String (Option QueueCounterTotals) none)
    (entry : String × Int) : SparseMap String (Option QueueCounterTotals) none :=
  match splitQueueMetricField entry.1 with
  | none => queues
  | some (queue, metric) =>
      queues.set queue (some (((queues.get queue).getD {}).addMetric metric entry.2.toNat))

def aggregateQueueCounterHashes (order : IterationOrder) (hashes : List CounterHash) :
    SparseMap String (Option QueueCounterTotals) none :=
  hashes.foldl (fun queues hash => (order.arrange hash).foldl aggregateQueueField queues) .empty

end Oxana
