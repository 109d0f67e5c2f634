import Mathlib.Algebra.GroupWithZero.Nat
import Mathlib.Data.List.GetD
import Oxana.MetricsSums

/-!
The metrics of the dashboard are the sums of the recorded results: of every worker, of
every minute of the window and of all of them together.
-/

namespace Oxana

open Postings Program StorageInternal

/-! Sums over the parts of a log. -/

instance : Zero JobMetricsTotals := ⟨{}⟩

instance : Add JobMetricsTotals where
  add first second :=
    { processed := first.processed + second.processed
      succeeded := first.succeeded + second.succeeded
      failed := first.failed + second.failed
      panicked := first.panicked + second.panicked
      successfulExecutions := first.successfulExecutions + second.successfulExecutions
      failedExecutions := first.failedExecutions + second.failedExecutions
      panickedExecutions := first.panickedExecutions + second.panickedExecutions
      executionMs := first.executionMs + second.executionMs }

theorem exact_nil : JobMetricsTotals.exact [] = 0 := rfl

theorem sumOf_cons (counts : WorkerResult → Bool) (amount : WorkerResult → Nat)
    (entry : Int × WorkerResult) (log : MetricsLog) :
    sumOf counts amount (entry :: log) = sumOf counts amount [entry] + sumOf counts amount log := by
  simp [sumOf_eq]

theorem exact_cons (entry : Int × WorkerResult) (log : MetricsLog) :
    JobMetricsTotals.exact (entry :: log) = .exact [entry] + .exact log := by
  unfold JobMetricsTotals.exact
  simp only [sumOf_cons _ _ entry log]
  rfl

theorem totals_add_comm (first second : JobMetricsTotals) : first + second = second + first := by
  change JobMetricsTotals.mk .. = JobMetricsTotals.mk ..
  simp only [Nat.add_comm]

theorem totals_add_assoc (first second third : JobMetricsTotals) :
    first + second + third = first + (second + third) := by
  change JobMetricsTotals.mk .. = JobMetricsTotals.mk ..
  congr 1 <;> exact Nat.add_assoc _ _ _

theorem totals_zero_add (totals : JobMetricsTotals) : 0 + totals = totals := by
  change JobMetricsTotals.mk .. = totals
  congr 1 <;> exact Nat.zero_add _

theorem sum_exact_parts {κ : Type} [DecidableEq κ] {keys : List κ} (distinct : keys.Nodup)
    {key : Int × WorkerResult → κ} {log : MetricsLog} (covers : ∀ entry ∈ log, key entry ∈ keys) :
    (keys.map fun part => JobMetricsTotals.exact
      (log.filter fun entry => decide (key entry = part))).sum = .exact log := by
  have nothing : ∀ parts : List κ,
      (parts.map fun _ => JobMetricsTotals.exact []).sum = 0 := by
    intro parts
    induction parts with
    | nil => rfl
    | cons part rest ih => rw [List.map_cons, List.sum_cons, ih, exact_nil, totals_zero_add]
  induction log with
  | nil => exact nothing keys
  | cons entry log ih =>
      have rest := ih fun other member => covers other (List.mem_cons_of_mem _ member)
      have member := covers entry List.mem_cons_self
      -- The entry counts in its own part and in no other.
      have split : ∀ parts : List κ, parts.Nodup → key entry ∈ parts →
          (parts.map fun part => JobMetricsTotals.exact
            ((entry :: log).filter fun entry => decide (key entry = part))).sum =
              .exact [entry] + (parts.map fun part => JobMetricsTotals.exact
                (log.filter fun entry => decide (key entry = part))).sum := by
        intro parts
        induction parts with
        | nil => intro _ absent; cases absent
        | cons part parts inner =>
            intro distinct member
            obtain ⟨fresh, distinctRest⟩ := List.nodup_cons.mp distinct
            rw [List.map_cons, List.map_cons, List.sum_cons, List.sum_cons]
            by_cases own : key entry = part
            · have others : parts.map (fun part => JobMetricsTotals.exact
                  ((entry :: log).filter fun entry => decide (key entry = part))) =
                    parts.map fun part => JobMetricsTotals.exact
                      (log.filter fun entry => decide (key entry = part)) := by
                apply List.map_congr_left
                intro other inside
                have apart : ¬ key entry = other := fun equal => fresh (own ▸ equal ▸ inside)
                rw [List.filter_cons_of_neg (by simp [apart])]
              rw [others, List.filter_cons_of_pos (by simp [own]), exact_cons, totals_add_assoc]
            · have later : key entry ∈ parts := List.mem_of_ne_of_mem own member
              rw [inner distinctRest later, List.filter_cons_of_neg (by simp [own]),
                ← totals_add_assoc, ← totals_add_assoc,
                totals_add_comm (.exact [entry])]
      rw [split keys distinct member, rest, ← exact_cons]

/-! Reports of a window. -/

theorem metricMinutes_nodup (now : Int) (query : JobMetricsQuery) :
    (metricMinutes now query).Nodup := by
  unfold metricMinutes
  refine List.nodup_range.map ?_
  intro first second same
  dsimp only at same
  omega

theorem length_metricMinutes (now : Int) (query : JobMetricsQuery) :
    (metricMinutes now query).length ≤ 1440 := by
  simp only [metricMinutes, List.length_map, List.length_range,
    JobMetricsQuery.effectiveMinutes, defaultMetricMinutes, maxMetricMinutes]
  split <;> omega

section Window

variable {minutes : List Int} {log : MetricsLog} {filter : Option MetricIdentity}
  {readings : Readings}

def ReadsLog (minutes : List Int) (filter : Option MetricIdentity) (log : MetricsLog)
    (readings : Readings) : Prop :=
  ∀ place, balance readings place = balance (logReadings minutes (logPassing filter log)) place

theorem readHashes_readsLog (order : IterationOrder) {hashOf : Int → CounterHash}
    (distinct : minutes.Nodup) (within : ∀ entry ∈ log, entry.1 / 60 ∈ minutes)
    (reads : ∀ minute, HashReads filter log minute (hashOf minute)) :
    ReadsLog minutes filter log (readHashes order filter 0 (minutes.map hashOf)) := by
  intro place
  have inside : ∀ entry ∈ logPassing filter log, entry.1 / 60 ∈ minutes :=
    fun entry member => within entry (List.mem_of_mem_filter member)
  rw [balance_readHashes order reads, balance_logReadings distinct inside]
  cases minutes[place.idx]? with
  | none => cases passes filter place.identity <;> rfl
  | some minute => exact (balance_log_passing filter log minute _ _).symm

variable (bounded : BoundedLog log) (same : ReadsLog minutes filter log readings)
include bounded same

theorem finalize_totalsOf (choose : Nat → MetricIdentity → Bool) :
    (totalsOf choose readings).finalize =
      .exact ((logPassing filter log).filter fun entry =>
        choose (minutes.idxOf (entry.1 / 60)) (MetricIdentity.fromWorkerResult entry.2)) := by
  have equal : totalsOf choose readings =
      totalsOf choose (logReadings minutes (logPassing filter log)) := by
    unfold totalsOf tally
    congr 1
    funext metric
    exact raised_eq_of_balance_eq same _
  rw [equal, totalsOf_logReadings]
  exact finalize_ofCounts ((bounded.filter _).filter _)

theorem finalize_seriesOf (within : ∀ entry ∈ log, entry.1 / 60 ∈ minutes)
    (distinct : minutes.Nodup) (choose : MetricIdentity → Bool) :
    seriesOf minutes (fun idx =>
        (totalsOf (during idx fun _ identity => choose identity) readings).finalize) =
      exactSeries minutes ((logPassing filter log).filter fun entry =>
        choose (MetricIdentity.fromWorkerResult entry.2)) := by
  apply List.ext_getElem?
  intro idx
  rw [getElem?_seriesOf, exactSeries, List.getElem?_map]
  cases found : minutes[idx]? with
  | none => rfl
  | some minute =>
      obtain ⟨bound, here⟩ := List.getElem?_eq_some_iff.mp found
      have parts : ((logPassing filter log).filter fun entry =>
          during idx (fun _ identity => choose identity) (minutes.idxOf (entry.1 / 60))
            (MetricIdentity.fromWorkerResult entry.2)) =
          logOfMinute minute ((logPassing filter log).filter fun entry =>
            choose (MetricIdentity.fromWorkerResult entry.2)) := by
        unfold logOfMinute
        rw [List.filter_filter]
        apply List.filter_congr
        intro entry member
        have inside := within entry (List.mem_of_mem_filter member)
        have indexed : minutes.idxOf (entry.1 / 60) = idx ↔ entry.1 / 60 = minute := by
          constructor
          · intro equal
            subst equal
            rw [← here]
            exact (List.getElem_idxOf bound).symm
          · rintro rfl
            rw [← here]
            exact distinct.idxOf_getElem idx bound
        simp only [during, indexed]
      rw [finalize_totalsOf bounded same, parts]
      rfl

end Window

/-! What the window shows. -/

def exactSummary (minutes : List Int) (log : MetricsLog) (identity : MetricIdentity) :
    WorkerMetricsSummary where
  identity := identity
  totals := .exact (logOfWorker identity.worker log)
  series := exactSeries minutes (logOfWorker identity.worker log)

structure ExactSnapshot (minutes : List Int) (log : MetricsLog) (snapshot : JobMetricsSnapshot) :
    Prop where
  totals : snapshot.totals = .exact log
  series : snapshot.series = exactSeries minutes log
  distinct : (snapshot.workers.map fun summary => summary.identity.worker).Nodup
  workers : ∀ summary, summary ∈ snapshot.workers ↔
    (∃ entry ∈ log, entry.2.workerName = summary.identity.worker) ∧
      summary = exactSummary minutes log summary.identity
  seriesSum : snapshot.totals =
    (snapshot.series.map JobMetricsPoint.toJobMetricsTotals).sum
  workersSum : snapshot.totals = (snapshot.workers.map WorkerMetricsSummary.totals).sum

theorem filter_ofWorker (identity : MetricIdentity) (log : MetricsLog) :
    (log.filter fun entry =>
      decide (MetricIdentity.fromWorkerResult entry.2 = identity)) =
        logOfWorker identity.worker log := by
  apply List.filter_congr
  intro entry _
  obtain ⟨worker⟩ := identity
  simp [MetricIdentity.fromWorkerResult]

section Reports

variable {minutes : List Int} {log : MetricsLog} {readings : Readings}
  {aggregation : JobMetricsAggregation}

theorem exact_series (bounded : BoundedLog log) (distinct : minutes.Nodup)
    (within : ∀ entry ∈ log, entry.1 / 60 ∈ minutes) (same : ReadsLog minutes none log readings)
    (reports : aggregation.Reports minutes readings) :
    aggregation.series = exactSeries minutes log := by
  have whole := finalize_seriesOf bounded same within distinct fun _ => true
  rw [reports.series]
  refine whole.trans ?_
  rw [logPassing_none]
  congr 1
  exact List.filter_eq_self.mpr fun _ _ => rfl

theorem exact_totals (bounded : BoundedLog log) (same : ReadsLog minutes none log readings)
    (reports : aggregation.Reports minutes readings) : aggregation.totals = .exact log := by
  rw [reports.totals, finalize_totalsOf bounded same, logPassing_none]
  congr 1
  exact List.filter_eq_self.mpr fun _ _ => rfl

theorem exact_built (bounded : BoundedLog log) (distinct : minutes.Nodup)
    (within : ∀ entry ∈ log, entry.1 / 60 ∈ minutes) (same : ReadsLog minutes none log readings)
    (identity : MetricIdentity) :
    (builderOf minutes readings identity).build identity = exactSummary minutes log identity := by
  have own := finalize_totalsOf bounded same (ofWorker identity)
  have points := finalize_seriesOf bounded same within distinct fun other =>
    decide (other = identity)
  rw [logPassing_none] at own points
  unfold WorkerMetricsSummaryBuilder.build builderOf exactSummary
  have finalized : (seriesOf minutes fun idx =>
      totalsOf (during idx (ofWorker identity)) readings).map JobMetricsPoint.finalize =
        seriesOf minutes fun idx =>
          (totalsOf (during idx (ofWorker identity)) readings).finalize := by
    unfold seriesOf
    rw [List.map_map]
    rfl
  rw [finalized, own]
  rw [filter_ofWorker] at points
  congr 1
  exact congrArg JobMetricsTotals.exact (filter_ofWorker identity log)

theorem named_iff (bounded : BoundedLog log) (same : ReadsLog minutes none log readings)
    (positive : ∀ reading ∈ readings, 0 < reading.2) (identity : MetricIdentity) :
    (∃ reading ∈ readings, reading.1.identity = identity) ↔
      ∃ entry ∈ log, entry.2.workerName = identity.worker := by
  have counted : raised (fun place => decide (place.identity = identity)) readings =
      raised (fun place => decide (place.identity = identity)) (logReadings minutes log) := by
    rw [raised_eq_of_balance_eq same, logPassing_none]
  constructor
  · rintro ⟨reading, member, own⟩
    have some : 0 < raised (fun place => decide (place.identity = identity)) readings :=
      (raised_pos_iff _ _).mpr ⟨reading, member, decide_eq_true own, positive reading member⟩
    rw [counted, raised_pos_iff] at some
    obtain ⟨posting, listed, chosen, _⟩ := some
    obtain ⟨entry, inside, here⟩ := List.mem_flatMap.mp listed
    obtain ⟨metric, _, rfl⟩ := List.mem_map.mp here
    exact ⟨entry, inside, congrArg MetricIdentity.worker (of_decide_eq_true chosen)⟩
  · rintro ⟨entry, inside, own⟩
    have equal : MetricIdentity.fromWorkerResult entry.2 = identity := by
      cases identity
      cases own
      rfl
    have some : 0 < raised (fun place => decide (place.identity = identity))
        (logReadings minutes log) := by
      rw [raised_pos_iff]
      refine ⟨_, List.mem_flatMap.mpr ⟨entry, inside,
        List.mem_map_of_mem (JobMetric.mem_all .processed)⟩, decide_eq_true equal, ?_⟩
      exact bounded.jobs entry inside
    rw [← counted, raised_pos_iff] at some
    obtain ⟨reading, member, chosen, _⟩ := some
    exact ⟨reading, member, of_decide_eq_true chosen⟩

theorem names_distinct (reports : aggregation.Reports minutes readings) :
    (aggregation.workers.map fun summary => summary.identity.worker).Nodup := by
  have identities := reports.distinct.map (f := MetricIdentity.worker) (by
    rintro ⟨first⟩ ⟨second⟩ equal
    cases equal
    rfl)
  rw [List.map_map] at identities
  exact identities

/-- A report of the readings of a log is that of its sums. -/
theorem exact_of_reports (bounded : BoundedLog log)
    (distinct : minutes.Nodup) (within : ∀ entry ∈ log, entry.1 / 60 ∈ minutes)
    (same : ReadsLog minutes none log readings)
    (positive : ∀ reading ∈ readings, 0 < reading.2)
    (reports : aggregation.Reports minutes readings) (startsAt endsAt : Int) (count : Nat) :
    ExactSnapshot minutes log
      { startsAt := startsAt
        endsAt := endsAt
        minutes := count
        totals := aggregation.totals
        series := aggregation.series
        workers := aggregation.workers } := by
  have totals := exact_totals bounded same reports
  have series := exact_series bounded distinct within same reports
  have workers : ∀ summary, summary ∈ aggregation.workers ↔
      (∃ entry ∈ log, entry.2.workerName = summary.identity.worker) ∧
        summary = exactSummary minutes log summary.identity := by
    intro summary
    rw [reports.worker, named_iff bounded same positive,
      exact_built bounded distinct within same]
  refine ⟨totals, series, names_distinct reports, workers, ?_, ?_⟩
  · change aggregation.totals = _
    rw [totals, series, exactSeries, List.map_map]
    exact (sum_exact_parts distinct within).symm
  · change aggregation.totals = _
    have listed : aggregation.workers.map WorkerMetricsSummary.totals =
        (aggregation.workers.map fun summary => summary.identity.worker).map fun worker =>
          .exact (logOfWorker worker log) := by
      rw [List.map_map]
      apply List.map_congr_left
      intro summary member
      exact congrArg WorkerMetricsSummary.totals ((workers summary).mp member).2
    rw [totals, listed]
    refine (sum_exact_parts (names_distinct reports) ?_).symm
    intro entry inside
    refine List.mem_map.mpr ⟨exactSummary minutes log ⟨entry.2.workerName⟩, ?_, rfl⟩
    exact (workers _).mpr ⟨⟨entry, inside, rfl⟩, rfl⟩

end Reports

/-! The histogram. -/

theorem intervals_mono : ∀ first < 14, ∀ second < 14, first ≤ second →
    histogramBucketIntervalsMs.getD first 0 ≤ histogramBucketIntervalsMs.getD second 0 := by
  decide

theorem histogramBucketIndex_eq_iff (durationMs : Nat) (bucket : Fin histogramBucketCount) :
    bucket.val = histogramBucketIndex durationMs ↔ inBucket bucket durationMs = true := by
  have bound : bucket.val < 14 := bucket.isLt
  unfold inBucket histogramBucketIndex
  rw [Bool.and_eq_true, decide_eq_true_eq, decide_eq_true_eq]
  cases found : histogramBucketIntervalsMs.findIdx? fun upper => decide (durationMs < upper) with
  | none =>
      have all : ∀ index < 14, histogramBucketIntervalsMs.getD index 0 ≤ durationMs := by
        intro index less
        have inside : index < histogramBucketIntervalsMs.length := less
        have none := List.findIdx?_eq_none_iff.mp found histogramBucketIntervalsMs[index]
          (List.getElem_mem inside)
        rw [List.getD_eq_getElem _ _ inside]
        simpa using none
      have here := all bucket.val bound
      have before := all (bucket.val - 1) (by omega)
      change bucket.val = 13 ↔ _
      omega
  | some index =>
      obtain ⟨inside, below, earlier⟩ := List.findIdx?_eq_some_iff_getElem.mp found
      have top : durationMs < histogramBucketIntervalsMs.getD index 0 := by
        rw [List.getD_eq_getElem _ _ inside]
        simpa using below
      have reached : ∀ other < index, histogramBucketIntervalsMs.getD other 0 ≤ durationMs := by
        intro other less
        rw [List.getD_eq_getElem _ _ (Nat.lt_trans less inside)]
        simpa using earlier other less
      change index < 14 at inside
      change bucket.val = index ↔ _
      constructor
      · intro same
        rw [same]
        refine ⟨?_, Or.inr top⟩
        by_cases first : index = 0
        · exact Or.inl first
        · exact Or.inr (reached (index - 1) (by omega))
      · rintro ⟨lower, upper⟩
        rcases Nat.lt_trichotomy bucket.val index with less | same | more
        · have here := reached bucket.val less
          omega
        · exact same
        · have mono := intervals_mono index inside (bucket.val - 1) (by omega) (by omega)
          omega

theorem balance_bucket_eq (log : MetricsLog) (worker : String) (minute : Int)
    (bucket : Fin histogramBucketCount) :
    balance (log.flatMap bucketPostings) ⟨minute, { worker := worker }, bucket⟩ =
      bucketCount log worker minute bucket := by
  rw [balance_log_bucket]
  unfold bucketCount logOfMinute logOfWorker
  induction log with
  | nil => rfl
  | cons entry rest ih =>
      have own : ((minute, ({ worker := worker } : MetricIdentity)) =
          (entry.1 / 60, MetricIdentity.fromWorkerResult entry.2)) ↔
            entry.1 / 60 = minute ∧ entry.2.workerName = worker := by
        simp only [Prod.mk.injEq, MetricIdentity.fromWorkerResult, MetricIdentity.mk.injEq,
          eq_comm]
      have amount : entry.2.bucketAmount bucket =
          if (entry.2.succeeds && inBucket bucket entry.2.executionMs) = true then 1 else 0 := by
        unfold WorkerResult.bucketAmount WorkerResult.succeeds
        simp only [histogramBucketIndex_eq_iff, Bool.and_eq_true, decide_eq_true_eq]
      rw [List.map_cons, List.sum_cons, ih, amount]
      simp only [own]
      by_cases worked : entry.2.workerName = worker
      · by_cases within : entry.1 / 60 = minute
        · rw [if_pos ⟨within, worked⟩, List.filter_cons_of_pos (by simp [worked]),
            List.filter_cons_of_pos (by simp [within]), List.countP_cons]
          omega
        · rw [if_neg (fun both => within both.1), List.filter_cons_of_pos (by simp [worked]),
            List.filter_cons_of_neg (by simp [within]), Nat.zero_add]
      · rw [if_neg (fun both => worked both.2), List.filter_cons_of_neg (by simp [worked]),
          Nat.zero_add]

def exactHistogram (minutes : List Int) (log : MetricsLog) (worker : String) : HistogramCounts :=
  fun bucket => (minutes.map fun minute => min (bucketCount log worker minute bucket) 65535).sum

theorem run_metricsHistogramCountsFor (storage : StorageInternal) {store : MetricsStore}
    {log : MetricsLog} (records : store.Records storage.keys log) {minutes : List Int}
    (short : minutes.length ≤ 1440) (identity : MetricIdentity) :
    runMetrics (storage.metricsHistogramCountsFor minutes identity) store =
      (some (.ok (exactHistogram minutes log identity.worker)), store) := by
  obtain ⟨worker⟩ := identity
  have values : runMetrics (collect
      (fun minute => .bitfield (storage.keys.metricsHistogramKey worker minute)
        histogramBitfieldFetchArgs) (fun _ reply => reply) minutes) store =
      (some (.ok (minutes.map fun minute => (List.range histogramBucketCount).map fun index =>
        some (store.histograms.get (storage.keys.metricsHistogramKey worker minute, index)))),
        store) :=
    run_collect_reads minutes fun minute _ => exec_fetch store _
  have held : ∀ minute (bucket : Fin histogramBucketCount),
      store.histograms.get (storage.keys.metricsHistogramKey worker minute, bucket.val) =
        min (bucketCount log worker minute bucket) 65535 := by
    intro minute bucket
    rw [← balance_bucket_eq, ← balance_recordedBuckets storage.given]
    exact records.bucket _
  have counts : (minutes.map fun minute => (List.range histogramBucketCount).map fun index =>
      some (store.histograms.get (storage.keys.metricsHistogramKey worker minute,
        index))).foldl addBucketValues (fun _ => 0) = exactHistogram minutes log worker := by
    funext bucket
    have total : (minutes.map fun minute => store.histograms.get
        (storage.keys.metricsHistogramKey worker minute, bucket.val)).sum =
          exactHistogram minutes log worker bucket :=
      congrArg List.sum (List.map_congr_left fun minute _ => held minute bucket)
    have bounded : exactHistogram minutes log worker bucket ≤ minutes.length * 65535 := by
      unfold exactHistogram
      have each := List.sum_le_card_nsmul
        (minutes.map fun minute => min (bucketCount log worker minute bucket) 65535) 65535 (by
          intro amount member
          obtain ⟨minute, _, rfl⟩ := List.mem_map.mp member
          exact Nat.min_le_right _ _)
      rw [List.length_map] at each
      exact each
    have fits : 0 + (minutes.map fun minute => store.histograms.get
        (storage.keys.metricsHistogramKey worker minute, bucket.val)).sum ≤ u64Max := by
      rw [total]
      unfold u64Max
      omega
    rw [addBucketValues_fold minutes (fun minute index => store.histograms.get
      (storage.keys.metricsHistogramKey worker minute, index)) (fun _ => 0) bucket fits, total,
      Nat.zero_add]
  unfold runMetrics at values ⊢
  rw [StorageInternal.metricsHistogramCountsFor, bind_eq, run_bind, values, resume_ok]
  exact congrArg (fun found => (some (Except.ok found), store)) counts

/-! The queues. -/

theorem queueAmount_sum_eq (log : MetricsLog) (metric : QueueMetric) :
    (log.map fun entry => entry.2.queueAmount metric).sum =
      (QueueCounterTotals.exact log).read metric := by
  cases metric <;> simp [QueueCounterTotals.exact, QueueCounterTotals.read, sumOf_eq,
    WorkerResult.queueAmount, WorkerResult.succeeds]

theorem balance_queue_parts {minutes : List Int} (distinct : minutes.Nodup) {log : MetricsLog}
    (within : ∀ entry ∈ log, entry.1 / 60 ∈ minutes) (queue : String) (metric : QueueMetric) :
    (minutes.map fun minute =>
        balance (log.flatMap counterPostings) (.queue minute queue metric)).sum =
      (QueueCounterTotals.exact (logOfQueue queue log)).read metric := by
  rw [← queueAmount_sum_eq]
  induction log with
  | nil =>
      apply List.sum_eq_zero
      intro amount member
      obtain ⟨minute, _, rfl⟩ := List.mem_map.mp member
      rfl
  | cons entry rest ih =>
      have later := ih fun other member => within other (List.mem_cons_of_mem _ member)
      have inside := within entry List.mem_cons_self
      have split : (minutes.map fun minute =>
          balance ((entry :: rest).flatMap counterPostings) (.queue minute queue metric)) =
            minutes.map fun minute =>
              (if minute = entry.1 / 60 then
                (if queue = entry.2.queue then entry.2.queueAmount metric else 0) else 0) +
                balance (rest.flatMap counterPostings) (.queue minute queue metric) := by
        apply List.map_congr_left
        intro minute _
        rw [List.flatMap_cons, balance_append, balance_counterPostings_queue]
        congr 1
        simp only [Prod.mk.injEq]
        by_cases one : minute = entry.1 / 60 <;> by_cases two : queue = entry.2.queue <;>
          simp [one, two]
      rw [split, List.sum_map_add, later, sum_of_key distinct inside]
      unfold logOfQueue
      rw [List.filter_cons]
      by_cases own : queue = entry.2.queue
      · simp [own]
      · simp [own, Ne.symm own]

theorem exact_queue_read_lt {log : MetricsLog} (bounded : BoundedLog log) (metric : QueueMetric) :
    (QueueCounterTotals.exact log).read metric < 2 ^ 63 := by
  rw [← queueAmount_sum_eq]
  exact queueAmount_sum_lt bounded metric

theorem aggregatedQueues_exact (order : IterationOrder) {given : String} {store : MetricsStore}
    {log : MetricsLog} (records : store.Records (StorageKeys.new given) log)
    {minutes : List Int} (distinct : minutes.Nodup)
    (within : ∀ entry ∈ log, entry.1 / 60 ∈ minutes) (bounded : BoundedLog log)
    (queue : String) :
    (aggregateQueueCounterHashes order (minutes.map fun minute =>
        store.hash ((StorageKeys.new given).metricsQueueCounterKey minute))).get queue =
      if ∃ entry ∈ log, entry.2.queue = queue then
        some (.exact (logOfQueue queue log)) else none := by
  let hashOf := fun minute => store.hash ((StorageKeys.new given).metricsQueueCounterKey minute)
  let readings := readQueueHashes order (minutes.map hashOf)
  have totals := aggregateQueueCounterHashes_totals order (minutes.map hashOf)
  have counted : ∀ metric, balance readings (queue, metric) =
      (QueueCounterTotals.exact (logOfQueue queue log)).read metric := by
    intro metric
    rw [← balance_queue_parts distinct within]
    unfold readings readQueueHashes balance
    rw [raised_flatMap, List.map_map]
    refine congrArg List.sum (List.map_congr_left fun minute _ => ?_)
    exact (raised_perm ((order.perm _).filterMap _)).trans
      (queueHash_reads given records minute queue metric)
  have exact : queueTotalsOf readings queue = .exact (logOfQueue queue log) := by
    have small : ∀ metric, min ((QueueCounterTotals.exact (logOfQueue queue log)).read metric)
        u64Max = (QueueCounterTotals.exact (logOfQueue queue log)).read metric := by
      intro metric
      have below := exact_queue_read_lt (bounded.filter fun entry =>
        decide (entry.2.queue = queue)) metric
      apply Nat.min_eq_left
      unfold u64Max
      unfold logOfQueue
      omega
    unfold queueTotalsOf
    simp only [counted, QueueCounterTotals.ofCounts, small]
    rfl
  have positive : ∀ reading ∈ readings, 0 < reading.2 := by
    intro reading member
    obtain ⟨hash, listed, inside⟩ := List.mem_flatMap.mp member
    obtain ⟨minute, _, rfl⟩ := List.mem_map.mp listed
    obtain ⟨entry, found, read⟩ := List.mem_filterMap.mp inside
    obtain ⟨_, _, rfl⟩ := Option.map_eq_some_iff.mp read
    have here := (order.perm _).mem_iff.mp found
    have value := MetricsStore.hash_positive records.positive here
    change 0 < entry.2.toNat
    omega
  have seen : (∃ reading ∈ readings, reading.1.1 = queue) ↔ ∃ entry ∈ log, entry.2.queue = queue := by
    have processed := counted .processed
    constructor
    · rintro ⟨⟨⟨name, metric⟩, amount⟩, member, rfl⟩
      have some : 0 < balance readings (name, metric) :=
        Nat.lt_of_lt_of_le (positive _ member) (le_balance member)
      rw [counted, ← queueAmount_sum_eq] at some
      by_contra none
      have empty : logOfQueue name log = [] := by
        apply List.filter_eq_nil_iff.mpr
        intro entry inside own
        exact none ⟨entry, inside, of_decide_eq_true own⟩
      rw [empty] at some
      exact absurd some (by simp)
    · rintro ⟨entry, inside, own⟩
      have kept : entry ∈ logOfQueue queue log :=
        List.mem_filter.mpr ⟨inside, decide_eq_true own⟩
      have some : 0 < balance readings (queue, .processed) := by
        rw [counted, ← queueAmount_sum_eq]
        have one : entry.2.jobCount ≤ ((logOfQueue queue log).map fun entry =>
            entry.2.queueAmount .processed).sum :=
          List.single_le_sum (fun _ _ => Nat.zero_le _) _ (List.mem_map.mpr ⟨entry, kept, rfl⟩)
        have jobs := bounded.jobs entry inside
        omega
      obtain ⟨reading, member, chosen, _⟩ := (raised_pos_iff _ _).mp some
      exact ⟨reading, member, congrArg Prod.fst (of_decide_eq_true chosen)⟩
  split
  · rename_i recorded
    exact (totals.present queue (seen.mpr recorded)).trans (congrArg some exact)
  · rename_i silent
    apply totals.absent queue
    intro reading member own
    exact silent (seen.mp ⟨reading, member, own⟩)

/-! The dashboard. -/

section Dashboard

variable (storage : StorageInternal) {store : MetricsStore} {log : MetricsLog} {now : Int}
  {query : JobMetricsQuery} (records : store.Records storage.keys log) (bounded : BoundedLog log)
  (within : ∀ entry ∈ log, entry.1 / 60 ∈ metricMinutes now query)
include records bounded within

theorem run_jobMetrics :
    ∃ snapshot, runMetrics (storage.jobMetrics now query) store =
        (some (.ok snapshot), store) ∧
      ExactSnapshot (metricMinutes now query) log snapshot := by
  let minutes := metricMinutes now query
  let hashOf := fun minute => store.hash (storage.keys.metricsCounterKey minute)
  have distinct : minutes.Nodup := metricMinutes_nodup now query
  have reads : ∀ minute, HashReads none log minute (hashOf minute) :=
    fun minute => hash_reads storage.given records none minute
  have same := readHashes_readsLog storage.order distinct within reads
  have positive : ∀ reading ∈ readHashes storage.order none 0 (minutes.map hashOf),
      0 < reading.2 := by
    intro reading member
    obtain ⟨indexed, listed, inside⟩ := List.mem_flatMap.mp member
    obtain ⟨entry, found, read⟩ := List.mem_filterMap.mp inside
    obtain ⟨_, _, rfl⟩ := Option.map_eq_some_iff.mp read
    have hash := List.fst_mem_of_mem_zipIdx listed
    obtain ⟨minute, _, equal⟩ := List.mem_map.mp hash
    have here := (storage.order.perm _).mem_iff.mp found
    rw [← equal] at here
    have value := (reads minute).positive entry here
    change 0 < entry.2.toNat
    omega
  have length : (minutes.map hashOf).length = minutes.length := List.length_map _
  have reports := aggregateCounterHashes_reports storage.order none length
  refine ⟨_, ?_, exact_of_reports bounded distinct within same positive reports
    (minutes.head?.getD 0 * 60) (minutes.getLast?.getD 0 * 60) minutes.length⟩
  have ran := run_metricsCounterHashes storage store minutes
  unfold runMetrics at ran ⊢
  rw [StorageInternal.jobMetrics, bind_eq, run_bind, ran, resume_ok]
  rfl

theorem run_jobMetricsFor {identity : MetricIdentity}
    (fits : identity.worker.utf8ByteSize < 2 ^ 64) :
    ∃ detail, runMetrics (storage.jobMetricsFor identity now query) store =
        (some (.ok detail), store) ∧
      detail.identity = identity ∧
      detail.totals = .exact (logOfWorker identity.worker log) ∧
      detail.series = exactSeries (metricMinutes now query) (logOfWorker identity.worker log) ∧
      detail.histogram.map JobMetricsHistogramBucket.count =
        (List.finRange histogramBucketCount).map
          (exactHistogram (metricMinutes now query) log identity.worker) := by
  let minutes := metricMinutes now query
  let hashOf := workerHash storage.given store identity
  let aggregation := aggregateCounterHashes storage.order minutes (minutes.map hashOf)
    (some identity)
  have distinct : minutes.Nodup := metricMinutes_nodup now query
  have same := readHashes_readsLog storage.order distinct within fun minute =>
    workerHash_reads storage.given records fits minute
  have length : (minutes.map hashOf).length = minutes.length := List.length_map _
  have reports := aggregateCounterHashes_reports storage.order (some identity) length
  have kept : ∀ part : MetricsLog, (part.filter fun _ => true) = part :=
    fun part => List.filter_eq_self.mpr fun _ _ => rfl
  have totals := finalize_totalsOf bounded same overall
  have series := finalize_seriesOf bounded same within distinct fun _ => true
  simp only [overall, logPassing_some, kept] at totals series
  have hashes := run_metricsCounterHashesFor storage store minutes identity
  have histogram := run_metricsHistogramCountsFor storage records
    (length_metricMinutes now query) identity
  refine ⟨{
    identity := identity
    startsAt := minutes.head?.getD 0 * 60
    endsAt := minutes.getLast?.getD 0 * 60
    minutes := minutes.length
    totals := aggregation.totals
    series := aggregation.series
    histogram := histogramBucketsFromCounts (exactHistogram minutes log identity.worker) },
    ?_, rfl, reports.totals.trans totals, reports.series.trans series, ?_⟩
  · unfold runMetrics at hashes histogram ⊢
    rw [StorageInternal.jobMetricsFor, bind_eq, run_bind, hashes, resume_ok, bind_eq, run_bind,
      histogram, resume_ok]
    rfl
  · change (histogramBucketsFromCounts _).map _ = _
    rw [histogramBucketsFromCounts, List.map_map]
    rfl

end Dashboard

/-- Results recorded in any minutes of the window and flushed in any batches are shown as
their sums. -/
theorem job_metrics_exact (storage : StorageInternal) (batches : List MetricsLog) (now : Int)
    (query : JobMetricsQuery) (bounded : BoundedLog batches.flatten)
    (within : ∀ entry ∈ batches.flatten, entry.1 / 60 ∈ metricMinutes now query) :
    ∃ store snapshot hashes,
      runMetrics (storage.flushBatches batches) .empty = (some (.ok ()), store) ∧
      runMetrics (storage.jobMetrics now query) store = (some (.ok snapshot), store) ∧
      ExactSnapshot (metricMinutes now query) batches.flatten snapshot ∧
      (∀ summary ∈ snapshot.workers, ∃ detail,
        runMetrics (storage.jobMetricsFor summary.identity now query) store =
          (some (.ok detail), store) ∧
        detail.identity = summary.identity ∧ detail.totals = summary.totals ∧
        detail.series = summary.series ∧
        detail.histogram.map JobMetricsHistogramBucket.count =
          (List.finRange histogramBucketCount).map
            (exactHistogram (metricMinutes now query) batches.flatten
              summary.identity.worker)) ∧
      runMetrics (storage.queueCounterMetricHashes (metricMinutes now query)) store =
        (some (.ok hashes), store) ∧
      ∀ queue, (aggregateQueueCounterHashes storage.order hashes).get queue =
        if ∃ entry ∈ batches.flatten, entry.2.queue = queue then
          some (.exact (logOfQueue queue batches.flatten)) else none := by
  obtain ⟨store, flushed, records⟩ := flushBatches_records storage batches
    (MetricsStore.records_empty storage.keys) bounded.fits
  rw [List.nil_append] at records
  obtain ⟨snapshot, shown, exactly⟩ := run_jobMetrics storage records bounded within
  refine ⟨store, snapshot, _, flushed, shown, exactly, ?_,
    run_queueCounterMetricHashes storage store (metricMinutes now query),
    aggregatedQueues_exact storage.order records (metricMinutes_nodup now query) within
      bounded⟩
  intro summary member
  obtain ⟨⟨entry, _, own⟩, built⟩ := (exactly.workers summary).mp member
  have fits : summary.identity.worker.utf8ByteSize < 2 ^ 64 := by
    have worker := entry.2.workerFits
    rw [own] at worker
    omega
  obtain ⟨detail, ran, identity, totals, series, histogram⟩ :=
    run_jobMetricsFor storage records bounded within fits
  refine ⟨detail, ran, identity, ?_, ?_, histogram⟩
  · rw [totals, built]
    rfl
  · rw [series, built]
    rfl

def barredBatches : List MetricsLog :=
  [[(6000, WorkerResult.mk .success "a:b|p" "q|s" 10 3 (by decide) (by decide)),
    (6001, WorkerResult.mk .failed "2:é|" "q|s" 0 1 (by decide) (by decide))],
   [(6060, WorkerResult.mk .panicked "a:b|p" "3:é" 0 2 (by decide) (by decide))]]

def barredNode : StorageInternal where
  given := ""
  hostname := "host"
  pid := 1
  startedAt := 0
  order := .insertion

theorem job_metrics_exact_barred :
    ∃ store snapshot,
      runMetrics (barredNode.flushBatches barredBatches) .empty = (some (.ok ()), store) ∧
      runMetrics (barredNode.jobMetrics 6065 { minutes := 3 }) store =
        (some (.ok snapshot), store) ∧
      ExactSnapshot [99, 100, 101] barredBatches.flatten snapshot := by
  obtain ⟨store, snapshot, _, flushed, shown, exactly, _⟩ := job_metrics_exact barredNode
    barredBatches 6065 { minutes := 3 } ⟨by decide, by decide, by decide⟩ (by decide)
  exact ⟨store, snapshot, flushed, shown, exactly⟩

end Oxana
