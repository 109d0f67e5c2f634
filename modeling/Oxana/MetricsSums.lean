import Mathlib.Algebra.GroupWithZero.Nat
import Oxana.MetricsRead

/-!
The sums of a log of results, and that totals made of the amounts of a log are these sums.
-/

namespace Oxana

open Postings Program

/-! The sums of a log. -/

def WorkerResult.succeeds (result : WorkerResult) : Bool := decide (result.kind = .success)

def WorkerResult.panics (result : WorkerResult) : Bool := decide (result.kind = .panicked)

def sumOf (counts : WorkerResult → Bool) (amount : WorkerResult → Nat) (log : MetricsLog) : Nat :=
  ((log.filter fun entry => counts entry.2).map fun entry => amount entry.2).sum

def JobMetricsTotals.exact (log : MetricsLog) : JobMetricsTotals where
  processed := sumOf (fun _ => true) WorkerResult.jobCount log
  succeeded := sumOf WorkerResult.succeeds WorkerResult.jobCount log
  failed := sumOf (fun result => !result.succeeds) WorkerResult.jobCount log
  panicked := sumOf WorkerResult.panics WorkerResult.jobCount log
  successfulExecutions := sumOf WorkerResult.succeeds (fun _ => 1) log
  failedExecutions := sumOf (fun result => !result.succeeds) (fun _ => 1) log
  panickedExecutions := sumOf WorkerResult.panics (fun _ => 1) log
  executionMs := sumOf WorkerResult.succeeds WorkerResult.executionMs log

def QueueCounterTotals.exact (log : MetricsLog) : QueueCounterTotals where
  processed := sumOf (fun _ => true) WorkerResult.jobCount log
  succeeded := sumOf WorkerResult.succeeds WorkerResult.jobCount log
  failed := sumOf (fun result => !result.succeeds) WorkerResult.jobCount log

def logOfWorker (worker : String) (log : MetricsLog) : MetricsLog :=
  log.filter fun entry => decide (entry.2.workerName = worker)

def logOfMinute (minute : Int) (log : MetricsLog) : MetricsLog :=
  log.filter fun entry => decide (entry.1 / 60 = minute)

def logOfQueue (queue : String) (log : MetricsLog) : MetricsLog :=
  log.filter fun entry => decide (entry.2.queue = queue)

def exactSeries (minutes : List Int) (log : MetricsLog) : List JobMetricsPoint :=
  minutes.map fun minute =>
    { toJobMetricsTotals := .exact (logOfMinute minute log), timestamp := minute * 60 }

def inBucket (bucket : Fin histogramBucketCount) (durationMs : Nat) : Bool :=
  decide (bucket.val = 0 ∨ histogramBucketIntervalsMs.getD (bucket.val - 1) 0 ≤ durationMs) &&
    decide (bucket.val = 13 ∨ durationMs < histogramBucketIntervalsMs.getD bucket.val 0)

def bucketCount (log : MetricsLog) (worker : String) (minute : Int)
    (bucket : Fin histogramBucketCount) : Nat :=
  (logOfMinute minute (logOfWorker worker log)).countP fun entry =>
    entry.2.succeeds && inBucket bucket entry.2.executionMs

/-- The sums of the log stay below the largest counter, and every result is of a job. -/
structure BoundedLog (log : MetricsLog) : Prop where
  jobs : ∀ entry ∈ log, 1 ≤ entry.2.jobCount
  jobSum : sumOf (fun _ => true) WorkerResult.jobCount log < 2 ^ 63
  timeSum : sumOf WorkerResult.succeeds WorkerResult.executionMs log < 2 ^ 63

/-! Sums as sums over all entries. -/

theorem sumOf_eq (counts : WorkerResult → Bool) (amount : WorkerResult → Nat)
    (log : MetricsLog) :
    sumOf counts amount log =
      (log.map fun entry => if counts entry.2 then amount entry.2 else 0).sum := by
  unfold sumOf
  induction log with
  | nil => rfl
  | cons entry rest ih =>
      cases chosen : counts entry.2 <;> simp [chosen, ih]

theorem sum_map_filter_le (kept : Int × WorkerResult → Bool) (value : Int × WorkerResult → Nat)
    (log : MetricsLog) : ((log.filter kept).map value).sum ≤ (log.map value).sum := by
  induction log with
  | nil => exact Nat.le_refl 0
  | cons entry rest ih =>
      cases keeps : kept entry <;> simp [keeps] <;> omega

theorem BoundedLog.filter {log : MetricsLog} (bounded : BoundedLog log)
    (kept : Int × WorkerResult → Bool) : BoundedLog (log.filter kept) where
  jobs := fun entry member => bounded.jobs entry (List.mem_of_mem_filter member)
  jobSum := by
    have whole := bounded.jobSum
    rw [sumOf_eq] at whole ⊢
    exact Nat.lt_of_le_of_lt (sum_map_filter_le kept _ log) whole
  timeSum := by
    have whole := bounded.timeSum
    rw [sumOf_eq] at whole ⊢
    exact Nat.lt_of_le_of_lt (sum_map_filter_le kept _ log) whole

theorem amount_le_jobCount {result : WorkerResult} (positive : 1 ≤ result.jobCount)
    {metric : JobMetric} (counts : metric ≠ .executionMs) :
    result.amount metric ≤ result.jobCount := by
  cases metric with
  | processed => exact Nat.le_refl _
  | executionMs => exact absurd rfl counts
  | _ =>
      simp only [WorkerResult.amount]
      split <;> omega

theorem queueAmount_le_jobCount (result : WorkerResult) (metric : QueueMetric) :
    result.queueAmount metric ≤ result.jobCount := by
  cases metric with
  | processed => exact Nat.le_refl _
  | _ =>
      simp only [WorkerResult.queueAmount]
      split <;> omega

theorem amount_sum_lt {log : MetricsLog} (bounded : BoundedLog log) (metric : JobMetric) :
    (log.map fun entry => entry.2.amount metric).sum < 2 ^ 63 := by
  have jobSum := bounded.jobSum
  have timeSum := bounded.timeSum
  rw [sumOf_eq] at jobSum timeSum
  by_cases time : metric = .executionMs
  · subst time
    refine Nat.lt_of_le_of_lt (List.sum_le_sum fun entry _ => ?_) timeSum
    by_cases success : entry.2.kind = .success <;>
      simp [WorkerResult.amount, WorkerResult.succeeds, success]
  · refine Nat.lt_of_le_of_lt (List.sum_le_sum fun entry member => ?_) jobSum
    rw [if_pos rfl]
    exact amount_le_jobCount (bounded.jobs entry member) time

theorem queueAmount_sum_lt {log : MetricsLog} (bounded : BoundedLog log)
    (metric : QueueMetric) :
    (log.map fun entry => entry.2.queueAmount metric).sum < 2 ^ 63 := by
  have jobSum := bounded.jobSum
  rw [sumOf_eq] at jobSum
  refine Nat.lt_of_le_of_lt (List.sum_le_sum fun entry _ => ?_) jobSum
  rw [if_pos rfl]
  exact queueAmount_le_jobCount entry.2 metric

theorem balance_log_job (log : MetricsLog) (minute : Int) (identity : MetricIdentity)
    (metric : JobMetric) :
    balance (log.flatMap counterPostings) (.job minute identity metric) =
      (log.map fun entry =>
        if (minute, identity) = (entry.1 / 60, MetricIdentity.fromWorkerResult entry.2) then
          entry.2.amount metric else 0).sum := by
  unfold balance
  rw [raised_flatMap]
  refine congrArg List.sum (List.map_congr_left fun entry _ => ?_)
  exact balance_counterPostings_job entry minute identity metric

theorem balance_log_queue (log : MetricsLog) (minute : Int) (queue : String)
    (metric : QueueMetric) :
    balance (log.flatMap counterPostings) (.queue minute queue metric) =
      (log.map fun entry =>
        if (minute, queue) = (entry.1 / 60, entry.2.queue) then
          entry.2.queueAmount metric else 0).sum := by
  unfold balance
  rw [raised_flatMap]
  refine congrArg List.sum (List.map_congr_left fun entry _ => ?_)
  exact balance_counterPostings_queue entry minute queue metric

theorem balance_log_bucket (log : MetricsLog) (place : BucketPlace) :
    balance (log.flatMap bucketPostings) place =
      (log.map fun entry =>
        if (place.minute, place.identity) =
            (entry.1 / 60, MetricIdentity.fromWorkerResult entry.2) then
          entry.2.bucketAmount place.bucket else 0).sum := by
  unfold balance
  rw [raised_flatMap]
  refine congrArg List.sum (List.map_congr_left fun entry _ => ?_)
  exact balance_bucketPostings entry place.minute place.identity place.bucket

theorem BoundedLog.fits {log : MetricsLog} (bounded : BoundedLog log) : FitsCounters log where
  counters := by
    intro place
    cases place with
    | job minute identity metric =>
        rw [balance_log_job]
        refine Nat.lt_of_le_of_lt (List.sum_le_sum fun entry _ => ?_)
          (amount_sum_lt bounded metric)
        split <;> omega
    | queue minute name metric =>
        rw [balance_log_queue]
        refine Nat.lt_of_le_of_lt (List.sum_le_sum fun entry _ => ?_)
          (queueAmount_sum_lt bounded metric)
        split <;> omega
  buckets := by
    intro place
    have jobSum := bounded.jobSum
    rw [sumOf_eq] at jobSum
    rw [balance_log_bucket]
    refine Nat.lt_of_le_of_lt (List.sum_le_sum fun entry member => ?_) jobSum
    have positive := bounded.jobs entry member
    rw [if_pos rfl]
    unfold WorkerResult.bucketAmount
    split
    · split <;> omega
    · omega

/-! The readings of a window. -/

def logReadings (minutes : List Int) (log : MetricsLog) : Readings :=
  log.flatMap fun entry => JobMetric.all.map fun metric =>
    ({ idx := minutes.idxOf (entry.1 / 60)
       identity := MetricIdentity.fromWorkerResult entry.2
       metric := metric },
      entry.2.amount metric)

def logPassing (filter : Option MetricIdentity) (log : MetricsLog) : MetricsLog :=
  log.filter fun entry => passes filter (MetricIdentity.fromWorkerResult entry.2)

theorem logPassing_none (log : MetricsLog) : logPassing none log = log :=
  List.filter_eq_self.mpr fun _ _ => rfl

theorem logPassing_some (identity : MetricIdentity) (log : MetricsLog) :
    logPassing (some identity) log = logOfWorker identity.worker log := by
  apply List.filter_congr
  intro entry _
  by_cases same : entry.2.workerName = identity.worker
  · simp [passes, MetricIdentity.fromWorkerResult, same]
  · have apart : identity ≠ MetricIdentity.fromWorkerResult entry.2 :=
      fun equal => same (congrArg MetricIdentity.worker equal).symm
    simp [passes, same, apart]

theorem balance_log_passing (filter : Option MetricIdentity) (log : MetricsLog) (minute : Int)
    (identity : MetricIdentity) (metric : JobMetric) :
    balance ((logPassing filter log).flatMap counterPostings) (.job minute identity metric) =
      if passes filter identity then
        balance (log.flatMap counterPostings) (.job minute identity metric)
      else 0 := by
  rw [balance_log_job, balance_log_job]
  unfold logPassing
  induction log with
  | nil => cases passes filter identity <;> rfl
  | cons entry rest ih =>
      rw [List.map_cons, List.sum_cons, List.filter_cons]
      by_cases own : (minute, identity) = (entry.1 / 60, MetricIdentity.fromWorkerResult entry.2)
      · have same : passes filter (MetricIdentity.fromWorkerResult entry.2) =
            passes filter identity := by
          rw [(Prod.mk.inj own).2]
        rw [same]
        cases passing : passes filter identity with
        | false =>
            rw [passing] at ih
            exact ih
        | true =>
            rw [passing, if_pos rfl] at ih
            rw [if_pos rfl, if_pos rfl, List.map_cons, List.sum_cons, ih]
      · rw [if_neg own, Nat.zero_add, ← ih]
        cases passes filter (MetricIdentity.fromWorkerResult entry.2) with
        | false => rfl
        | true => rw [if_pos rfl, List.map_cons, List.sum_cons, if_neg own, Nat.zero_add]

theorem balance_logReadings {minutes : List Int} (distinct : minutes.Nodup) {log : MetricsLog}
    (within : ∀ entry ∈ log, entry.1 / 60 ∈ minutes) (place : ReadPlace) :
    balance (logReadings minutes log) place =
      match minutes[place.idx]? with
      | some minute =>
          balance (log.flatMap counterPostings) (.job minute place.identity place.metric)
      | none => 0 := by
  obtain ⟨idx, identity, metric⟩ := place
  have entryBalance : ∀ entry : Int × WorkerResult,
      balance (JobMetric.all.map fun metric =>
        (({ idx := minutes.idxOf (entry.1 / 60)
            identity := MetricIdentity.fromWorkerResult entry.2
            metric := metric } : ReadPlace), entry.2.amount metric))
        { idx := idx, identity := identity, metric := metric } =
        if (idx, identity) =
            (minutes.idxOf (entry.1 / 60), MetricIdentity.fromWorkerResult entry.2) then
          entry.2.amount metric else 0 := by
    intro entry
    split
    · rename_i same
      cases same
      apply balance_listing (by decide) _ _ metric.mem_all
      intro first second equal
      cases equal
      rfl
    · rename_i apart
      apply balance_eq_zero
      intro posting member
      obtain ⟨_, _, rfl⟩ := List.mem_map.mp member
      intro equal
      cases equal
      exact apart rfl
  have summed : balance (logReadings minutes log)
      { idx := idx, identity := identity, metric := metric } =
        (log.map fun entry =>
          if (idx, identity) =
              (minutes.idxOf (entry.1 / 60), MetricIdentity.fromWorkerResult entry.2) then
            entry.2.amount metric else 0).sum := by
    unfold balance logReadings
    rw [raised_flatMap]
    exact congrArg List.sum (List.map_congr_left fun entry _ => entryBalance entry)
  rw [summed]
  cases found : minutes[idx]? with
  | none =>
      apply List.sum_eq_zero
      intro amount member
      obtain ⟨entry, inside, rfl⟩ := List.mem_map.mp member
      have listed := List.idxOf_lt_length_iff.mpr (within entry inside)
      have outside := List.getElem?_eq_none_iff.mp found
      apply if_neg
      intro same
      have index : idx = minutes.idxOf (entry.1 / 60) := (Prod.mk.inj same).1
      omega
  | some minute =>
      change _ = balance (log.flatMap counterPostings) (.job minute identity metric)
      rw [balance_log_job]
      refine congrArg List.sum (List.map_congr_left fun entry inside => ?_)
      have indexed : idx = minutes.idxOf (entry.1 / 60) ↔ minute = entry.1 / 60 := by
        have member := within entry inside
        obtain ⟨bound, here⟩ := List.getElem?_eq_some_iff.mp found
        constructor
        · intro same
          subst same
          rw [← here]
          exact List.getElem_idxOf bound
        · rintro rfl
          rw [← here]
          exact (distinct.idxOf_getElem idx bound).symm
      simp only [Prod.mk.injEq, indexed]

theorem totalsOf_logReadings (minutes : List Int) (log : MetricsLog)
    (choose : Nat → MetricIdentity → Bool) :
    totalsOf choose (logReadings minutes log) =
      .ofCounts fun metric => ((log.filter fun entry =>
        choose (minutes.idxOf (entry.1 / 60)) (MetricIdentity.fromWorkerResult entry.2)).map
          fun entry => entry.2.amount metric).sum := by
  unfold totalsOf
  congr 1
  funext metric
  unfold tally logReadings
  rw [raised_flatMap]
  induction log with
  | nil => rfl
  | cons entry rest ih =>
      rw [List.map_cons, List.sum_cons, ih, List.filter_cons]
      cases chosen : choose (minutes.idxOf (entry.1 / 60))
          (MetricIdentity.fromWorkerResult entry.2) with
      | false => simp [JobMetric.all, chosen]
      | true => cases metric <;> simp [JobMetric.all, chosen]

/-! From sums to totals. -/

theorem sumOf_le_jobs {log : MetricsLog} (jobs : ∀ entry ∈ log, 1 ≤ entry.2.jobCount)
    (counts : WorkerResult → Bool) :
    sumOf counts (fun _ => 1) log ≤ sumOf counts WorkerResult.jobCount log := by
  rw [sumOf_eq, sumOf_eq]
  refine List.sum_le_sum fun entry member => ?_
  have positive := jobs entry member
  split <;> omega

theorem sumOf_split (amount : WorkerResult → Nat) (log : MetricsLog) :
    sumOf (fun _ => true) amount log =
      sumOf WorkerResult.succeeds amount log +
        sumOf (fun result => !result.succeeds) amount log := by
  induction log with
  | nil => rfl
  | cons entry rest ih =>
      simp only [sumOf_eq, List.map_cons, List.sum_cons] at ih ⊢
      cases succeeds : entry.2.succeeds <;> simp <;> simp at ih <;> omega

theorem sumOf_panics_le (amount : WorkerResult → Nat) (log : MetricsLog) :
    sumOf WorkerResult.panics amount log ≤
      sumOf (fun result => !result.succeeds) amount log := by
  rw [sumOf_eq, sumOf_eq]
  refine List.sum_le_sum fun entry _ => ?_
  unfold WorkerResult.panics WorkerResult.succeeds
  cases entry.2.kind <;> simp

theorem amount_sum_eq (log : MetricsLog) (metric : JobMetric) :
    (log.map fun entry => entry.2.amount metric).sum =
      match metric with
      | .processed => sumOf (fun _ => true) WorkerResult.jobCount log
      | .failed => sumOf (fun result => !result.succeeds) WorkerResult.jobCount log
      | .panicked => sumOf WorkerResult.panics WorkerResult.jobCount log
      | .successfulExecutions => sumOf WorkerResult.succeeds (fun _ => 1) log
      | .failedExecutions => sumOf (fun result => !result.succeeds) (fun _ => 1) log
      | .panickedExecutions => sumOf WorkerResult.panics (fun _ => 1) log
      | .executionMs => sumOf WorkerResult.succeeds WorkerResult.executionMs log := by
  cases metric <;> simp [sumOf_eq, WorkerResult.amount, WorkerResult.succeeds,
    WorkerResult.panics]

theorem finalize_ofCounts {log : MetricsLog} (bounded : BoundedLog log) :
    (JobMetricsTotals.ofCounts fun metric =>
      (log.map fun entry => entry.2.amount metric).sum).finalize = .exact log := by
  have small : ∀ metric, min (log.map fun entry => entry.2.amount metric).sum u64Max =
      (log.map fun entry => entry.2.amount metric).sum := by
    intro metric
    have below := amount_sum_lt bounded metric
    unfold u64Max
    omega
  have jobs := sumOf_split WorkerResult.jobCount log
  have executions := sumOf_split (fun _ => 1) log
  have panics := sumOf_panics_le (fun _ => 1) log
  have jobPanics := sumOf_panics_le WorkerResult.jobCount log
  have executed := sumOf_le_jobs bounded.jobs fun _ => true
  have jobSum := bounded.jobSum
  have succeeded : sumOf (fun _ => true) WorkerResult.jobCount log -
      sumOf (fun result => !result.succeeds) WorkerResult.jobCount log =
        sumOf WorkerResult.succeeds WorkerResult.jobCount log := by omega
  simp only [JobMetricsTotals.ofCounts, small]
  simp only [JobMetricsTotals.finalize, amount_sum_eq, succeeded]
  split
  · rename_i idle
    -- Nothing was executed, so nothing was recorded.
    have empty : log = [] := by
      cases log with
      | nil => rfl
      | cons entry rest =>
          have one : 1 ≤ sumOf (fun _ => true) (fun _ => 1) (entry :: rest) := by
            simp [sumOf]
          omega
    subst empty
    rfl
  · rfl

end Oxana
