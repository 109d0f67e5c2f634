import Oxana.MetricFields
import Oxana.MetricsStorage
import Oxana.Postings

/-!
What a recorded result adds to which counter, and that a buffer holds these amounts: no
more and no less as long as their sums fit the counters.
-/

namespace Oxana

open Postings

/-! The counters. -/

inductive CounterPlace
  | job (minute : Int) (identity : MetricIdentity) (metric : JobMetric)
  | queue (minute : Int) (queue : String) (metric : QueueMetric)
  deriving DecidableEq

def CounterPlace.address (keys : StorageKeys) : CounterPlace → String × String
  | job minute identity metric =>
      (keys.metricsCounterKey minute, identity.metricField metric.text)
  | queue minute name metric =>
      (keys.metricsQueueCounterKey minute, queueMetricField name metric.text)

structure BucketPlace where
  minute : Int
  identity : MetricIdentity
  bucket : Fin histogramBucketCount
  deriving DecidableEq

def BucketPlace.address (keys : StorageKeys) (place : BucketPlace) : String × Nat :=
  (keys.metricsHistogramKey place.identity.worker place.minute, place.bucket)

section Addresses

variable (given : String)

theorem scopedKey_injective (first second : RedisObject)
    (one : first.scope (nameOf given) = some (nameOf given))
    (two : second.scope (nameOf given) = some (nameOf given))
    (same : (StorageKeys.new given).key first = (StorageKeys.new given).key second) :
    first = second := by
  rw [key_of_scope given one, key_of_scope given two] at same
  rw [String.append_assoc, String.append_assoc] at same
  exact part_injective (append_right_inj _ (append_right_inj _ same))

theorem metricKey_injective (first second : RedisObject) (one : first.word = "metrics")
    (two : second.word = "metrics")
    (same : (StorageKeys.new given).key first = (StorageKeys.new given).key second) :
    first = second := by
  have placed : ∀ object : RedisObject, object.word = "metrics" →
      object.scope (nameOf given) = some (nameOf given) := by
    intro object word
    cases object <;> first
      | rfl
      | simp [RedisObject.word] at word
  exact scopedKey_injective given first second (placed first one) (placed second two) same

theorem CounterPlace.address_injective :
    Function.Injective (CounterPlace.address (StorageKeys.new given)) := by
  intro first second same
  obtain ⟨keys, fields⟩ := Prod.mk.inj same
  cases first with
  | job minute identity metric =>
      cases second with
      | job otherMinute otherIdentity otherMetric =>
          have minutes := metricKey_injective given (.metricsCounter minute)
            (.metricsCounter otherMinute) rfl rfl keys
          obtain ⟨identities, metrics⟩ := metricField_injective fields
          cases minutes
          rw [identities, metrics]
      | queue otherMinute queue otherMetric =>
          have objects := metricKey_injective given (.metricsCounter minute)
            (.metricsQueueCounter otherMinute) rfl rfl keys
          cases objects
  | queue minute queue metric =>
      cases second with
      | job otherMinute otherIdentity otherMetric =>
          have objects := metricKey_injective given (.metricsQueueCounter minute)
            (.metricsCounter otherMinute) rfl rfl keys
          cases objects
      | queue otherMinute otherQueue otherMetric =>
          have minutes := metricKey_injective given (.metricsQueueCounter minute)
            (.metricsQueueCounter otherMinute) rfl rfl keys
          obtain ⟨queues, metrics⟩ := queueMetricField_injective fields
          cases minutes
          rw [queues, metrics]

theorem BucketPlace.address_injective :
    Function.Injective (BucketPlace.address (StorageKeys.new given)) := by
  intro first second same
  obtain ⟨keys, buckets⟩ := Prod.mk.inj same
  have objects := metricKey_injective given
    (.metricsHistogram first.identity.worker first.minute)
    (.metricsHistogram second.identity.worker second.minute) rfl rfl keys
  obtain ⟨minute, ⟨worker⟩, bucket⟩ := first
  obtain ⟨otherMinute, ⟨otherWorker⟩, otherBucket⟩ := second
  cases objects
  have sameBucket : bucket = otherBucket := Fin.ext buckets
  rw [sameBucket]

end Addresses

/-! What a result adds. -/

namespace WorkerResult

variable (result : WorkerResult)

def amount : JobMetric → Nat
  | .processed => result.jobCount
  | .failed => if result.kind = .success then 0 else result.jobCount
  | .panicked => if result.kind = .panicked then result.jobCount else 0
  | .successfulExecutions => if result.kind = .success then 1 else 0
  | .failedExecutions => if result.kind = .success then 0 else 1
  | .panickedExecutions => if result.kind = .panicked then 1 else 0
  | .executionMs => if result.kind = .success then result.executionMs else 0

def queueAmount : QueueMetric → Nat
  | .processed => result.jobCount
  | .succeeded => if result.kind = .success then result.jobCount else 0
  | .failed => if result.kind = .success then 0 else result.jobCount

def bucketAmount (bucket : Fin histogramBucketCount) : Nat :=
  if result.kind = .success ∧ (bucket : Nat) = histogramBucketIndex result.executionMs then 1
  else 0

end WorkerResult

def counterPostings (entry : Int × WorkerResult) : List (CounterPlace × Nat) :=
  (JobMetric.all.map fun metric =>
    (.job (entry.1 / 60) (MetricIdentity.fromWorkerResult entry.2) metric,
      entry.2.amount metric)) ++
  QueueMetric.all.map fun metric =>
    (.queue (entry.1 / 60) entry.2.queue metric, entry.2.queueAmount metric)

def bucketPostings (entry : Int × WorkerResult) : List (BucketPlace × Nat) :=
  (List.finRange histogramBucketCount).map fun bucket =>
    (⟨entry.1 / 60, MetricIdentity.fromWorkerResult entry.2, bucket⟩,
      entry.2.bucketAmount bucket)

/-! The buffer. -/

def PendingJobMetrics.read (metrics : PendingJobMetrics) : JobMetric → Nat
  | .processed => metrics.processed
  | .failed => metrics.failed
  | .panicked => metrics.panicked
  | .successfulExecutions => metrics.successfulExecutions
  | .failedExecutions => metrics.failedExecutions
  | .panickedExecutions => metrics.panickedExecutions
  | .executionMs => metrics.executionMs

def QueueCounterTotals.read (totals : QueueCounterTotals) : QueueMetric → Nat
  | .processed => totals.processed
  | .succeeded => totals.succeeded
  | .failed => totals.failed

theorem PendingJobMetrics.record_read {metrics : PendingJobMetrics}
    (fits : ∀ metric, metrics.read metric ≤ u64Max) (result : WorkerResult)
    (metric : JobMetric) :
    (metrics.record result).read metric =
      saturatingAdd (metrics.read metric) (result.amount metric) := by
  have kept := saturatingAdd_zero (fits metric)
  cases metric <;> cases kind : result.kind <;>
    simp_all [PendingJobMetrics.record, PendingJobMetrics.read, WorkerResult.amount]

theorem PendingJobMetrics.record_histogram {metrics : PendingJobMetrics}
    (fits : ∀ bucket, metrics.histogram bucket ≤ u64Max) (result : WorkerResult)
    (bucket : Fin histogramBucketCount) :
    (metrics.record result).histogram bucket =
      saturatingAdd (metrics.histogram bucket) (result.bucketAmount bucket) := by
  have kept := saturatingAdd_zero (fits bucket)
  cases kind : result.kind <;>
    simp [PendingJobMetrics.record, WorkerResult.bucketAmount, kind, kept]
  split
  · rfl
  · exact kept.symm

theorem QueueCounterTotals.record_read {totals : QueueCounterTotals}
    (fits : ∀ metric, totals.read metric ≤ u64Max) (result : WorkerResult)
    (metric : QueueMetric) :
    (totals.record result).read metric =
      saturatingAdd (totals.read metric) (result.queueAmount metric) := by
  have kept := saturatingAdd_zero (fits metric)
  cases metric <;> cases kind : result.kind <;>
    simp_all [QueueCounterTotals.record, QueueCounterTotals.read, WorkerResult.queueAmount]

/-! What one entry adds to one counter. -/

theorem JobMetric.mem_all (metric : JobMetric) : metric ∈ JobMetric.all := by
  cases metric <;> decide

theorem QueueMetric.mem_all (metric : QueueMetric) : metric ∈ QueueMetric.all := by
  cases metric <;> decide

theorem jobPlace_injective :
    Function.Injective2 fun (key : Int × MetricIdentity) metric =>
      CounterPlace.job key.1 key.2 metric := by
  rintro ⟨_, _⟩ ⟨_, _⟩ _ _ equal
  cases equal
  exact ⟨rfl, rfl⟩

theorem queuePlace_injective :
    Function.Injective2 fun (key : Int × String) metric =>
      CounterPlace.queue key.1 key.2 metric := by
  rintro ⟨_, _⟩ ⟨_, _⟩ _ _ equal
  cases equal
  exact ⟨rfl, rfl⟩

theorem bucketPlace_injective :
    Function.Injective2 fun (key : Int × MetricIdentity) bucket =>
      BucketPlace.mk key.1 key.2 bucket := by
  rintro ⟨_, _⟩ ⟨_, _⟩ _ _ equal
  cases equal
  exact ⟨rfl, rfl⟩

section Entry

variable (entry : Int × WorkerResult) (minute : Int)

theorem balance_counterPostings_job (identity : MetricIdentity) (metric : JobMetric) :
    balance (counterPostings entry) (.job minute identity metric) =
      if (minute, identity) = (entry.1 / 60, MetricIdentity.fromWorkerResult entry.2) then
        entry.2.amount metric else 0 := by
  have queues : ∀ column, CounterPlace.queue (entry.1 / 60) entry.2.queue column ≠
      .job minute identity metric := fun _ => CounterPlace.noConfusion
  unfold counterPostings
  rw [balance_append, balance_row_elsewhere queues, Nat.add_zero]
  exact balance_row jobPlace_injective (by decide)
    (entry.1 / 60, MetricIdentity.fromWorkerResult entry.2) (minute, identity) _ metric.mem_all

theorem balance_counterPostings_queue (queue : String) (metric : QueueMetric) :
    balance (counterPostings entry) (.queue minute queue metric) =
      if (minute, queue) = (entry.1 / 60, entry.2.queue) then
        entry.2.queueAmount metric else 0 := by
  have jobs : ∀ column, CounterPlace.job (entry.1 / 60)
      (MetricIdentity.fromWorkerResult entry.2) column ≠ .queue minute queue metric :=
    fun _ => CounterPlace.noConfusion
  unfold counterPostings
  rw [balance_append, balance_row_elsewhere jobs, Nat.zero_add]
  exact balance_row queuePlace_injective (by decide) (entry.1 / 60, entry.2.queue)
    (minute, queue) _ metric.mem_all

theorem balance_bucketPostings (identity : MetricIdentity) (bucket : Fin histogramBucketCount) :
    balance (bucketPostings entry) ⟨minute, identity, bucket⟩ =
      if (minute, identity) = (entry.1 / 60, MetricIdentity.fromWorkerResult entry.2) then
        entry.2.bucketAmount bucket else 0 :=
  balance_row bucketPlace_injective (List.nodup_finRange _)
    (entry.1 / 60, MetricIdentity.fromWorkerResult entry.2) (minute, identity) _
    (List.mem_finRange bucket)

end Entry

/-! What a buffer holds. -/

structure JobMetricsBuffer.Holds (buffer : JobMetricsBuffer) (log : MetricsLog) : Prop where
  job : ∀ minute identity metric,
    ((buffer.entries.get (minute, identity)).getD {}).read metric =
      min (balance (log.flatMap counterPostings) (.job minute identity metric)) u64Max
  bucket : ∀ minute identity bucket,
    ((buffer.entries.get (minute, identity)).getD {}).histogram bucket =
      min (balance (log.flatMap bucketPostings) ⟨minute, identity, bucket⟩) u64Max
  queue : ∀ minute queue metric,
    ((buffer.queueEntries.get (minute, queue)).getD {}).read metric =
      min (balance (log.flatMap counterPostings) (.queue minute queue metric)) u64Max

theorem JobMetricsBuffer.holds_empty : JobMetricsBuffer.empty.Holds [] where
  job := by
    intro minute identity metric
    cases metric <;> rfl
  bucket := fun _ _ _ => rfl
  queue := by
    intro minute queue metric
    cases metric <;> rfl

theorem JobMetricsBuffer.Holds.record {buffer : JobMetricsBuffer} {log : MetricsLog}
    (holds : buffer.Holds log) (now : Int) (result : WorkerResult) :
    (buffer.record now result).Holds (log ++ [(now, result)]) where
  job := by
    intro minute identity metric
    rw [List.flatMap_append, balance_append, List.flatMap_singleton,
      balance_counterPostings_job]
    simp only [JobMetricsBuffer.record, SparseMap.get_set]
    split
    · rename_i same
      cases same
      have fits : ∀ other, ((buffer.entries.get
          (now / 60, MetricIdentity.fromWorkerResult result)).getD {}).read other ≤ u64Max := by
        intro other
        rw [holds.job]
        exact Nat.min_le_right _ _
      rw [Option.getD_some, PendingJobMetrics.record_read fits, holds.job, saturatingAdd_min]
    · rw [Nat.add_zero, holds.job]
  bucket := by
    intro minute identity bucket
    rw [List.flatMap_append, balance_append, List.flatMap_singleton, balance_bucketPostings]
    simp only [JobMetricsBuffer.record, SparseMap.get_set]
    split
    · rename_i same
      cases same
      have fits : ∀ other, ((buffer.entries.get
          (now / 60, MetricIdentity.fromWorkerResult result)).getD {}).histogram other ≤
            u64Max := by
        intro other
        rw [holds.bucket]
        exact Nat.min_le_right _ _
      rw [Option.getD_some, PendingJobMetrics.record_histogram fits, holds.bucket,
        saturatingAdd_min]
    · rw [Nat.add_zero, holds.bucket]
  queue := by
    intro minute queue metric
    rw [List.flatMap_append, balance_append, List.flatMap_singleton,
      balance_counterPostings_queue]
    simp only [JobMetricsBuffer.record, SparseMap.get_set]
    split
    · rename_i same
      cases same
      have fits : ∀ other, ((buffer.queueEntries.get (now / 60, result.queue)).getD {}).read
          other ≤ u64Max := by
        intro other
        rw [holds.queue]
        exact Nat.min_le_right _ _
      rw [Option.getD_some, QueueCounterTotals.record_read fits, holds.queue, saturatingAdd_min]
    · rw [Nat.add_zero, holds.queue]

theorem JobMetricsBuffer.recordAll_holds (log : MetricsLog) :
    (JobMetricsBuffer.recordAll log).Holds log := by
  induction log using List.reverseRecOn with
  | nil => exact holds_empty
  | append_singleton log entry ih =>
      unfold recordAll
      rw [List.foldl_append]
      exact ih.record entry.1 entry.2

/-! The amounts in a buffer. -/

namespace JobMetricsBuffer

variable (buffer : JobMetricsBuffer)

def jobContents (key : Int × MetricIdentity) : List (CounterPlace × Nat) :=
  JobMetric.all.map fun metric =>
    (.job key.1 key.2 metric, ((buffer.entries.get key).getD {}).read metric)

def queueContents (key : Int × String) : List (CounterPlace × Nat) :=
  QueueMetric.all.map fun metric =>
    (.queue key.1 key.2 metric, ((buffer.queueEntries.get key).getD {}).read metric)

def bucketContents (key : Int × MetricIdentity) : List (BucketPlace × Nat) :=
  (List.finRange histogramBucketCount).map fun bucket =>
    (⟨key.1, key.2, bucket⟩, ((buffer.entries.get key).getD {}).histogram bucket)

def counterContents : List (CounterPlace × Nat) :=
  buffer.entries.keys.flatMap buffer.jobContents ++
    buffer.queueEntries.keys.flatMap buffer.queueContents

variable {buffer}

theorem absent_of_notMem {κ ν : Type} {map : SparseMap κ (Option ν) none} {key : κ}
    (outside : key ∉ map.keys) : map.get key = none := by
  by_contra present
  exact outside ((map.mem_keys key).mpr present)

theorem balance_counterContents_job (minute : Int) (identity : MetricIdentity)
    (metric : JobMetric) :
    balance buffer.counterContents (.job minute identity metric) =
      ((buffer.entries.get (minute, identity)).getD {}).read metric := by
  unfold counterContents queueContents
  rw [balance_append, balance_table_elsewhere fun _ _ => CounterPlace.noConfusion, Nat.add_zero]
  apply balance_table jobPlace_injective (by decide) buffer.entries.nodup (minute, identity)
    metric.mem_all
  intro outside
  rw [absent_of_notMem outside]
  cases metric <;> rfl

theorem balance_counterContents_queue (minute : Int) (queue : String) (metric : QueueMetric) :
    balance buffer.counterContents (.queue minute queue metric) =
      ((buffer.queueEntries.get (minute, queue)).getD {}).read metric := by
  unfold counterContents jobContents
  rw [balance_append, balance_table_elsewhere fun _ _ => CounterPlace.noConfusion, Nat.zero_add]
  apply balance_table queuePlace_injective (by decide) buffer.queueEntries.nodup (minute, queue)
    metric.mem_all
  intro outside
  rw [absent_of_notMem outside]
  cases metric <;> rfl

theorem balance_bucketContents (place : BucketPlace) :
    balance (buffer.entries.keys.flatMap buffer.bucketContents) place =
      ((buffer.entries.get (place.minute, place.identity)).getD {}).histogram place.bucket := by
  apply balance_table bucketPlace_injective (List.nodup_finRange _) buffer.entries.nodup
    (place.minute, place.identity) (List.mem_finRange place.bucket)
  intro outside
  rw [absent_of_notMem outside]
  rfl

theorem Holds.balance_counterContents {log : MetricsLog} (holds : buffer.Holds log)
    (fits : ∀ place, balance (log.flatMap counterPostings) place < 2 ^ 63)
    (place : CounterPlace) :
    balance buffer.counterContents place = balance (log.flatMap counterPostings) place := by
  have below := fits place
  cases place with
  | job minute identity metric =>
      rw [balance_counterContents_job, holds.job]
      unfold u64Max
      omega
  | queue minute name metric =>
      rw [balance_counterContents_queue, holds.queue]
      unfold u64Max
      omega

theorem Holds.balance_bucketContents {log : MetricsLog} (holds : buffer.Holds log)
    (fits : ∀ place, balance (log.flatMap bucketPostings) place < 2 ^ 63)
    (place : BucketPlace) :
    balance (buffer.entries.keys.flatMap buffer.bucketContents) place =
      balance (log.flatMap bucketPostings) place := by
  have small : balance (log.flatMap bucketPostings) place ≤ u64Max := by
    have below := fits place
    unfold u64Max
    omega
  rw [JobMetricsBuffer.balance_bucketContents, holds.bucket]
  exact Nat.min_eq_left small

end JobMetricsBuffer

end Oxana
