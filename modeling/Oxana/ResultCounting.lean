import Oxana.ResultLedger
import Oxana.StorageRuns

/-!
Whether the results of a run of the collector are counted.  What a tolerated failure leaves
in a buffer goes with the next flush, but after the last flush there is none.
-/

namespace Oxana

open Postings

/-! What has arrived, and what waits for a flush. -/

namespace CollectorEvent

def entry : CollectorEvent → Option (Int × WorkerResult)
  | .result now outcome => some (now, outcome)
  | _ => none

def flushesMetrics : CollectorEvent → Bool
  | .metricsTick call => call.applied
  | _ => false

def flushesStats : CollectorEvent → Bool
  | .statsTick call => call.applied
  | _ => false

end CollectorEvent

def received (events : List CollectorEvent) : MetricsLog := events.filterMap CollectorEvent.entry

def resultsSince (flushes : CollectorEvent → Bool) (events : List CollectorEvent) : MetricsLog :=
  events.foldl (fun held event =>
    if flushes event then [] else held ++ event.entry.toList) []

theorem resultsSince_append_singleton (flushes : CollectorEvent → Bool)
    (events : List CollectorEvent) (event : CollectorEvent) :
    resultsSince flushes (events ++ [event]) =
      if flushes event then [] else resultsSince flushes events ++ event.entry.toList := by
  unfold resultsSince
  rw [List.foldl_append]
  rfl

theorem received_append_singleton (events : List CollectorEvent) (event : CollectorEvent) :
    received (events ++ [event]) = received events ++ event.entry.toList := by
  unfold received
  rw [List.filterMap_append]
  cases found : event.entry <;> simp [found]

/-! What Redis has counted. -/

def MetricsStore.valueAt (store : MetricsStore) (address : String × String) : Int :=
  (store.counters.get address).getD 0

structure FlushedCounts (keys : StorageKeys) (start after : MetricsStore)
    (metricsLog statsLog : MetricsLog) : Prop where
  metrics : ∀ place : CounterPlace, after.valueAt (place.address keys) =
    start.valueAt (place.address keys) + (balance (metricsLog.flatMap counterPostings) place : Int)
  histograms : ∀ place : BucketPlace, after.histograms.get (place.address keys) =
    min (start.histograms.get (place.address keys) +
      balance (metricsLog.flatMap bucketPostings) place) 65535
  stats : ∀ place : StatsPlace, after.valueAt (place.address keys) =
    start.valueAt (place.address keys) + (balance (statsLog.flatMap statsPostings) place : Int)

structure CountsFit (keys : StorageKeys) (start : MetricsStore) (log : MetricsLog) : Prop where
  low : ∀ address, -2 ^ 63 ≤ start.valueAt address
  metrics : ∀ place : CounterPlace, start.valueAt (place.address keys) +
    (balance (log.flatMap counterPostings) place : Int) < 2 ^ 63
  stats : ∀ place : StatsPlace, start.valueAt (place.address keys) +
    (balance (log.flatMap statsPostings) place : Int) < 2 ^ 63
  total : sumOf (fun _ => true) WorkerResult.jobCount log < 2 ^ 63
  sums : FitsCounters log
  halfwords : ∀ address, start.histograms.get address ≤ 65535

theorem statsAmount_le_jobCount (result : WorkerResult) (metric : StatsMetric) :
    result.statsAmount metric ≤ result.jobCount := by
  cases metric with
  | processed => exact Nat.le_refl _
  | _ =>
      simp only [WorkerResult.statsAmount]
      split <;> omega

theorem sumOf_statsAmount_le (counts : WorkerResult → Bool) (metric : StatsMetric)
    (log : MetricsLog) :
    sumOf counts (fun result => result.statsAmount metric) log ≤
      sumOf (fun _ => true) WorkerResult.jobCount log := by
  rw [sumOf_eq, sumOf_eq]
  apply List.sum_le_sum
  intro entry _
  have small := statsAmount_le_jobCount entry.2 metric
  split
  · simpa using small
  · exact Nat.zero_le _

theorem CountsFit.statsBalance {keys : StorageKeys} {start : MetricsStore}
    {front back : MetricsLog} (fits : CountsFit keys start (front ++ back)) (place : StatsPlace) :
    balance (back.flatMap statsPostings) place < 2 ^ 63 := by
  have bound := sumOf_statsAmount_le (fun result => decide (result.queue = place.queue))
    place.metric (front ++ back)
  have total := fits.total
  have whole := balance_statsPostings_log (front ++ back) place.queue place.metric
  rw [List.flatMap_append, balance_append] at whole
  change _ + balance (back.flatMap statsPostings) place = _ at whole
  omega

/-! The objects a call does not write. -/

section Apart

variable (given : String)

theorem counterKey_ne_stats (place : CounterPlace) :
    (place.address (StorageKeys.new given)).1 ≠ (StorageKeys.new given).stats := by
  intro same
  cases place with
  | job minute identity metric =>
      cases scopedKey_injective given (.metricsCounter minute) .stats rfl rfl same
  | queue minute queue metric =>
      cases scopedKey_injective given (.metricsQueueCounter minute) .stats rfl rfl same

theorem counterKey_ne_lengths (place : CounterPlace) (minute : Int) :
    (place.address (StorageKeys.new given)).1 ≠
      (StorageKeys.new given).metricsQueueLengthKey minute := by
  intro same
  cases place with
  | job other identity metric =>
      cases scopedKey_injective given (.metricsCounter other) (.metricsQueueLength minute)
        rfl rfl same
  | queue other queue metric =>
      cases scopedKey_injective given (.metricsQueueCounter other) (.metricsQueueLength minute)
        rfl rfl same

theorem statsKey_ne_lengths (minute : Int) :
    (StorageKeys.new given).stats ≠ (StorageKeys.new given).metricsQueueLengthKey minute := by
  intro same
  cases scopedKey_injective given .stats (.metricsQueueLength minute) rfl rfl same

theorem statsAddress_ne_counter (place : StatsPlace) (other : CounterPlace) :
    other.address (StorageKeys.new given) ≠ place.address (StorageKeys.new given) :=
  fun same => counterKey_ne_stats given other (congrArg Prod.fst same)

theorem balance_recordedCounters_stats (log : MetricsLog) (place : StatsPlace) :
    balance (recordedCounters (StorageKeys.new given) log)
      (place.address (StorageKeys.new given)) = 0 :=
  balance_map_eq_zero (fun other => statsAddress_ne_counter given place other) _

theorem balance_recordedStats_counter (log : MetricsLog) (place : CounterPlace) :
    balance (recordedStats (StorageKeys.new given) log)
      (place.address (StorageKeys.new given)) = 0 :=
  balance_map_eq_zero (fun other => (statsAddress_ne_counter given other place).symm) _

end Apart

/-! Every call keeps the counts. -/

section Calls

variable {storage : StorageInternal} {settings : CollectorSettings} {start : MetricsStore}

theorem MetricsStore.roomFor_held {Place : Type} [DecidableEq Place]
    {address : Place → String × String} (injective : Function.Injective address)
    {redis : MetricsStore} {flushed held : List (Place × Nat)}
    (counted : ∀ place, redis.valueAt (address place) =
      start.valueAt (address place) + (balance flushed place : Int))
    (low : ∀ other, -2 ^ 63 ≤ start.valueAt other)
    (fits : ∀ place, start.valueAt (address place) +
      (balance (flushed ++ held) place : Int) < 2 ^ 63) :
    redis.RoomFor (held.map fun posting => (address posting.1, posting.2)) := by
  intro other posted
  by_cases placed : ∃ place, address place = other
  · obtain ⟨place, rfl⟩ := placed
    have base := counted place
    have whole := fits place
    have bound := low (address place)
    have own := balance_map_of_injective injective held place
    rw [balance_append] at whole
    unfold MetricsStore.valueAt at base whole bound
    omega
  · have none := balance_map_eq_zero (fun place same => placed ⟨place, same⟩) held
    omega

theorem FlushedCounts.refl (keys : StorageKeys)
    (halfwords : ∀ address, start.histograms.get address ≤ 65535) :
    FlushedCounts keys start start [] [] where
  metrics := fun _ => (Int.add_zero _).symm
  histograms := fun _ => (Nat.min_eq_left (halfwords _)).symm
  stats := fun _ => (Int.add_zero _).symm

theorem FlushedCounts.flushMetrics {before after : MetricsStore}
    {flushed statsLog held : MetricsLog}
    (counted : FlushedCounts storage.keys start before flushed statsLog)
    (grown : before.Grown after (recordedCounters storage.keys held)
      (recordedBuckets storage.keys held)) :
    FlushedCounts storage.keys start after (flushed ++ held) statsLog where
  metrics := by
    intro place
    have base := counted.metrics place
    have step := grown.counter (place.address storage.keys)
    have own := balance_recordedCounters storage.given held place
    rw [List.flatMap_append, balance_append]
    unfold MetricsStore.valueAt at base ⊢
    change balance (recordedCounters storage.keys held) (place.address storage.keys) = _ at own
    omega
  histograms := by
    intro place
    have base := counted.histograms place
    have step := grown.bucket (place.address storage.keys) (by omega)
    have own := balance_recordedBuckets storage.given held place
    rw [List.flatMap_append, balance_append]
    change balance (recordedBuckets storage.keys held) (place.address storage.keys) = _ at own
    omega
  stats := by
    intro place
    have base := counted.stats place
    have step := grown.counter (place.address storage.keys)
    have none := balance_recordedCounters_stats storage.given held place
    unfold MetricsStore.valueAt at base ⊢
    change balance (recordedCounters storage.keys held) (place.address storage.keys) = 0 at none
    omega

theorem FlushedCounts.flushStats {before after : MetricsStore} {metricsLog flushed held : MetricsLog}
    (counted : FlushedCounts storage.keys start before metricsLog flushed)
    (halfwords : ∀ address, start.histograms.get address ≤ 65535)
    (grown : before.Grown after (recordedStats storage.keys held) []) :
    FlushedCounts storage.keys start after metricsLog (flushed ++ held) where
  metrics := by
    intro place
    have base := counted.metrics place
    have step := grown.counter (place.address storage.keys)
    have none := balance_recordedStats_counter storage.given held place
    unfold MetricsStore.valueAt at base ⊢
    change balance (recordedStats storage.keys held) (place.address storage.keys) = 0 at none
    omega
  histograms := by
    intro place
    have base := counted.histograms place
    have small := halfwords (place.address storage.keys)
    have step := grown.bucket (place.address storage.keys) (by omega)
    have none : balance ([] : List ((String × Nat) × Nat)) (place.address storage.keys) = 0 := rfl
    omega
  stats := by
    intro place
    have base := counted.stats place
    have step := grown.counter (place.address storage.keys)
    have own := balance_recordedStats storage.keys held place
    rw [List.flatMap_append, balance_append]
    unfold MetricsStore.valueAt at base ⊢
    omega

theorem valueAt_hset (store : MetricsStore) {key field : String} (value : Int)
    {address : String × String} (apart : address ≠ (key, field)) :
    (store.hset key field value).valueAt address = store.valueAt address := by
  unfold MetricsStore.valueAt MetricsStore.hset
  rw [SparseMap.get_set_of_ne _ _ apart]

theorem FlushedCounts.writeQueueLengthStats {metricsLog statsLog : MetricsLog}
    (lengths : List (String × Int)) (refreshedAt : Int) {before : MetricsStore}
    (counted : FlushedCounts storage.keys start before metricsLog statsLog) :
    FlushedCounts storage.keys start (storage.writeQueueLengthStats lengths refreshedAt before)
      metricsLog statsLog := by
  have counterKey : ∀ (place : CounterPlace) (field : String),
      place.address storage.keys ≠ (storage.keys.stats, field) :=
    fun place field same => counterKey_ne_stats storage.given place (congrArg Prod.fst same)
  have counterField : ∀ (place : CounterPlace) (field : String), place.address storage.keys ≠
      (storage.keys.metricsQueueLengthKey (refreshedAt / 60), field) :=
    fun place field same => counterKey_ne_lengths storage.given place _ (congrArg Prod.fst same)
  have statsField : ∀ (place : StatsPlace) (queue suffix : String), ':' ∉ suffix.toList →
      place.metric.text ≠ suffix → place.address storage.keys ≠
        (storage.keys.stats, queue ++ ":" ++ suffix) := by
    intro place queue suffix plain apart same
    exact apart (join_plain_tails place.metric.text_plain plain (Prod.mk.inj same).2).2
  have statsKey : ∀ (place : StatsPlace) (field : String), place.address storage.keys ≠
      (storage.keys.metricsQueueLengthKey (refreshedAt / 60), field) :=
    fun place field same => statsKey_ne_lengths storage.given _ (congrArg Prod.fst same)
  unfold StorageInternal.writeQueueLengthStats
  induction lengths generalizing before with
  | nil => exact counted
  | cons entry rest ih =>
      apply ih
      refine ⟨?_, counted.histograms, ?_⟩
      · intro place
        rw [valueAt_hset _ _ (counterField place _), valueAt_hset _ _ (counterKey place _),
          valueAt_hset _ _ (counterKey place _)]
        exact counted.metrics place
      · intro place
        have texts : place.metric.text ≠ "enqueued" ∧ place.metric.text ≠ "enqueued_at" := by
          cases place.metric <;> decide
        rw [valueAt_hset _ _ (statsKey place _),
          valueAt_hset _ _ (statsField place _ _ (by decide) texts.2),
          valueAt_hset _ _ (statsField place _ _ (by decide) texts.1)]
        exact counted.stats place

/-! The answers of the tracked calls. -/

theorem TrackedCall.send_applied {call : TrackedCall} (applied : call.applied = true)
    {program : Metrics α} {redis after : MetricsStore} {value : α}
    (ran : runMetrics program redis = (some (.ok value), after)) :
    call.send program redis = (.ok value, after) := by
  unfold send
  rw [if_pos applied, ran]
  rfl

theorem TrackedCall.send_refused {call : TrackedCall} (refused : ¬ call.applied = true)
    (program : Metrics α) (redis : MetricsStore) :
    call.send program redis = (.error .redis, redis) := by
  unfold send
  rw [if_neg refused]

theorem Collector.track_refused {collector next : Collector} {call : TrackedCall}
    {redis : MetricsStore} {settle : Collector → Collector}
    (ran : collector.track (α := Unit) settings call (.error .redis, redis) settle = .ok next) :
    ∃ failures, next =
      { collector with consecutiveRedisFailures := failures, redis := redis } := by
  unfold track trackRedisResult at ran
  dsimp only at ran
  by_cases exceeded : (recordRedisFailure
      (call.failuresBefore collector.consecutiveRedisFailures)
      settings.redisFailureTolerance).1 = true
  · rw [if_pos exceeded] at ran
    cases ran
  · rw [if_neg exceeded] at ran
    cases ran
    exact ⟨_, rfl⟩

/-! The buffers and Redis together hold what has arrived. -/

structure Collector.Accounts (keys : StorageKeys) (start : MetricsStore) (collector : Collector)
    (log heldMetrics heldStats : MetricsLog) : Prop where
  metrics : collector.metrics.Holds heldMetrics
  pending : collector.pendingStats.Holds heldStats
  memory : collector.stats.Holds log
  redis : ∃ flushedMetrics flushedStats, log = flushedMetrics ++ heldMetrics ∧
    log = flushedStats ++ heldStats ∧
    FlushedCounts keys start collector.redis flushedMetrics flushedStats

theorem counterPostings_nil {log : MetricsLog}
    (none : ∀ place, balance (log.flatMap counterPostings) place = 0) : log = [] := by
  apply List.eq_nil_iff_forall_not_mem.mpr
  intro entry member
  -- Every result is one execution.
  let metric : JobMetric :=
    if entry.2.kind = .success then .successfulExecutions else .failedExecutions
  have amount : entry.2.amount metric = 1 := by
    by_cases success : entry.2.kind = .success <;>
      simp [metric, success, WorkerResult.amount]
  have posted := balance_counterPostings_job entry (entry.1 / 60)
    (MetricIdentity.fromWorkerResult entry.2) metric
  rw [if_pos rfl, amount] at posted
  have zero := none (.job (entry.1 / 60) (MetricIdentity.fromWorkerResult entry.2) metric)
  obtain ⟨front, back, rfl⟩ := List.append_of_mem member
  rw [List.flatMap_append, List.flatMap_cons, balance_append, balance_append] at zero
  omega

theorem JobMetricsBuffer.Holds.nil_of_isEmpty {buffer : JobMetricsBuffer} {log : MetricsLog}
    (holds : buffer.Holds log) (empty : buffer.isEmpty = true) : log = [] := by
  simp only [JobMetricsBuffer.isEmpty, Bool.and_eq_true, List.isEmpty_iff] at empty
  have jobs : ∀ key, buffer.entries.get key = none := fun key =>
    absent_of_notMem (by rw [empty.1]; exact List.not_mem_nil)
  have queues : ∀ key, buffer.queueEntries.get key = none := fun key =>
    absent_of_notMem (by rw [empty.2]; exact List.not_mem_nil)
  apply counterPostings_nil
  intro place
  cases place with
  | job minute identity metric =>
      have read := holds.job minute identity metric
      rw [jobs] at read
      have zero : ((none : Option PendingJobMetrics).getD {}).read metric = 0 := by
        cases metric <;> rfl
      unfold u64Max at read
      omega
  | queue minute queue metric =>
      have read := holds.queue minute queue metric
      rw [queues] at read
      have zero : ((none : Option QueueCounterTotals).getD {}).read metric = 0 := by
        cases metric <;> rfl
      unfold u64Max at read
      omega

namespace Collector.Accounts

variable {collector next : Collector} {log heldMetrics heldStats : MetricsLog}

theorem initial (failures : Nat) (halfwords : ∀ address, start.histograms.get address ≤ 65535) :
    (Collector.start failures start).Accounts storage.keys start [] [] [] where
  metrics := JobMetricsBuffer.holds_empty
  pending := PendingStats.holds_empty
  memory := Stats.holds_empty
  redis := ⟨[], [], rfl, rfl, FlushedCounts.refl storage.keys halfwords⟩

theorem result (accounts : collector.Accounts storage.keys start log heldMetrics heldStats)
    (now : Int) (result : WorkerResult)
    (ran : collector.step storage settings (.result now result) = .ok next) :
    next.Accounts storage.keys start (log ++ [(now, result)])
      (heldMetrics ++ [(now, result)]) (heldStats ++ [(now, result)]) := by
  cases ran
  obtain ⟨flushedMetrics, flushedStats, one, two, counted⟩ := accounts.redis
  refine ⟨accounts.metrics.record now result, accounts.pending.record now result,
    accounts.memory.record now result, flushedMetrics, flushedStats, ?_, ?_, counted⟩
  · rw [one, List.append_assoc]
  · rw [two, List.append_assoc]

theorem flushMetrics (accounts : collector.Accounts storage.keys start log heldMetrics heldStats)
    (fits : CountsFit storage.keys start log) {call : TrackedCall}
    (ran : collector.flushMetrics storage settings call = .ok next) :
    next.Accounts storage.keys start log (if call.applied then [] else heldMetrics)
      heldStats := by
  unfold Collector.flushMetrics at ran
  split at ran
  · rename_i empty
    cases ran
    have none := accounts.metrics.nil_of_isEmpty empty
    rw [none] at accounts ⊢
    rw [ite_self]
    exact accounts
  · obtain ⟨flushedMetrics, flushedStats, one, two, counted⟩ := accounts.redis
    by_cases applied : call.applied = true
    · have sums : FitsCounters heldMetrics := (one ▸ fits.sums).of_append.2
      have room : collector.redis.RoomFor (recordedCounters storage.keys heldMetrics) := by
        refine MetricsStore.roomFor_held (CounterPlace.address_injective storage.given)
          counted.metrics fits.low fun place => ?_
        have whole := fits.metrics place
        rw [one, List.flatMap_append] at whole
        exact whole
      obtain ⟨after, flushed, grown⟩ := flush_grows storage accounts.metrics room sums
      rw [TrackedCall.send_applied applied flushed] at ran
      cases ran
      rw [if_pos applied]
      refine ⟨JobMetricsBuffer.holds_empty, accounts.pending, accounts.memory, log,
        flushedStats, (List.append_nil log).symm, two, ?_⟩
      rw [one]
      exact counted.flushMetrics grown
    · rw [TrackedCall.send_refused applied] at ran
      obtain ⟨failures, rfl⟩ := track_refused ran
      rw [if_neg applied]
      exact ⟨accounts.metrics, accounts.pending, accounts.memory, accounts.redis⟩

theorem flushPendingStats
    (accounts : collector.Accounts storage.keys start log heldMetrics heldStats)
    (fits : CountsFit storage.keys start log) {call : TrackedCall}
    (ran : collector.flushPendingStats storage settings call = .ok next) :
    next.Accounts storage.keys start log heldMetrics
      (if call.applied then [] else heldStats) := by
  unfold Collector.flushPendingStats at ran
  split at ran
  · rename_i empty
    cases ran
    have none := accounts.pending.nil_of_isEmpty empty
    rw [none] at accounts ⊢
    rw [ite_self]
    exact accounts
  · obtain ⟨flushedMetrics, flushedStats, one, two, counted⟩ := accounts.redis
    by_cases applied : call.applied = true
    · have sums := (two ▸ fits).statsBalance
      have room : collector.redis.RoomFor (recordedStats storage.keys heldStats) := by
        refine MetricsStore.roomFor_held (StatsPlace.address_injective storage.keys)
          counted.stats fits.low fun place => ?_
        have whole := fits.stats place
        rw [two, List.flatMap_append] at whole
        exact whole
      obtain ⟨after, flushed, grown⟩ := flushStats_grows storage accounts.pending room sums
      rw [TrackedCall.send_applied applied flushed] at ran
      cases ran
      rw [if_pos applied]
      refine ⟨accounts.metrics, PendingStats.holds_empty, accounts.memory, flushedMetrics, log,
        one, (List.append_nil log).symm, ?_⟩
      rw [two]
      exact counted.flushStats fits.halfwords grown
    · rw [TrackedCall.send_refused applied] at ran
      obtain ⟨failures, rfl⟩ := track_refused ran
      rw [if_neg applied]
      exact ⟨accounts.metrics, accounts.pending, accounts.memory, accounts.redis⟩

theorem refreshActiveQueueLengths
    (accounts : collector.Accounts storage.keys start log heldMetrics heldStats)
    {call : TrackedCall} {lengths : String → Int} {refreshedAt : Int}
    (ran : collector.refreshActiveQueueLengths storage settings call lengths refreshedAt =
      .ok next) :
    next.Accounts storage.keys start log heldMetrics heldStats := by
  unfold Collector.refreshActiveQueueLengths at ran
  split at ran
  · cases ran
    exact accounts
  · obtain ⟨flushedMetrics, flushedStats, one, two, counted⟩ := accounts.redis
    by_cases applied : call.applied = true
    · rw [if_pos applied] at ran
      cases ran
      exact ⟨accounts.metrics, accounts.pending, accounts.memory, flushedMetrics, flushedStats,
        one, two, counted.writeQueueLengthStats _ _⟩
    · rw [if_neg applied] at ran
      obtain ⟨failures, rfl⟩ := track_refused ran
      exact ⟨accounts.metrics, accounts.pending, accounts.memory, accounts.redis⟩

end Collector.Accounts

/-! A run. -/

theorem CountsFit.front {front back : MetricsLog}
    (fits : CountsFit storage.keys start (front ++ back)) :
    CountsFit storage.keys start front where
  low := fits.low
  metrics := by
    intro place
    have whole := fits.metrics place
    rw [List.flatMap_append, balance_append] at whole
    omega
  stats := by
    intro place
    have whole := fits.stats place
    rw [List.flatMap_append, balance_append] at whole
    omega
  total := by
    have whole := fits.total
    rw [sumOf_eq, List.map_append, List.sum_append] at whole
    rw [sumOf_eq]
    omega
  sums := fits.sums.of_append.1
  halfwords := fits.halfwords

theorem Collector.accounts_step {collector next : Collector} {log heldMetrics heldStats : MetricsLog}
    (event : CollectorEvent)
    (accounts : collector.Accounts storage.keys start log heldMetrics heldStats)
    (fits : CountsFit storage.keys start log)
    (ran : collector.step storage settings event = .ok next) :
    next.Accounts storage.keys start (log ++ event.entry.toList)
      (if event.flushesMetrics then [] else heldMetrics ++ event.entry.toList)
      (if event.flushesStats then [] else heldStats ++ event.entry.toList) := by
  cases event with
  | result now result => exact accounts.result now result ran
  | metricsTick call =>
      have after := accounts.flushMetrics fits ran
      simp only [CollectorEvent.entry, Option.toList_none, List.append_nil]
      exact after
  | statsTick call =>
      have after := accounts.flushPendingStats fits ran
      simp only [CollectorEvent.entry, Option.toList_none, List.append_nil]
      exact after
  | lengthsTick call lengths refreshedAt =>
      have after := accounts.refreshActiveQueueLengths ran
      simp only [CollectorEvent.entry, Option.toList_none, List.append_nil]
      exact after

theorem Collector.accounts_events {failures : Nat} {events : List CollectorEvent}
    {collector : Collector} (fits : CountsFit storage.keys start (received events))
    (ran : events.foldlM (Collector.step storage settings) (Collector.start failures start) =
      .ok collector) :
    collector.Accounts storage.keys start (received events)
      (resultsSince CollectorEvent.flushesMetrics events)
      (resultsSince CollectorEvent.flushesStats events) := by
  induction events using List.reverseRecOn generalizing collector with
  | nil =>
      cases ran
      exact Accounts.initial failures fits.halfwords
  | append_singleton events event ih =>
      rw [received_append_singleton] at fits ⊢
      rw [resultsSince_append_singleton, resultsSince_append_singleton]
      rw [List.foldlM_append] at ran
      cases earlier : events.foldlM (Collector.step storage settings)
          (Collector.start failures start) with
      | error error =>
          rw [earlier] at ran
          cases ran
      | ok before =>
          rw [earlier] at ran
          have stepped : before.step storage settings event = .ok collector := by
            cases answer : before.step storage settings event with
            | error error => simp [bind, Except.bind, answer] at ran
            | ok after =>
                simp [bind, Except.bind, pure, Except.pure, answer] at ran
                rw [ran]
          exact accounts_step event (ih fits.front earlier) fits.front stepped

theorem Collector.accounts_run {failures : Nat} {events : List CollectorEvent}
    {calls : FinalCalls} {collector : Collector}
    (fits : CountsFit storage.keys start (received events))
    (ran : Collector.run storage settings failures start events calls = .ok collector) :
    collector.Accounts storage.keys start (received events)
      (if calls.metrics.applied then []
        else resultsSince CollectorEvent.flushesMetrics events)
      (if calls.stats.applied then [] else resultsSince CollectorEvent.flushesStats events) := by
  unfold run at ran
  cases looped : events.foldlM (Collector.step storage settings)
      (Collector.start failures start) with
  | error error =>
      rw [looped] at ran
      cases ran
  | ok closed =>
      rw [looped] at ran
      change closed.flushBeforeExit storage settings calls = .ok collector at ran
      unfold flushBeforeExit at ran
      have atClose := accounts_events fits looped
      cases first : closed.flushMetrics storage settings calls.metrics with
      | error error =>
          rw [first] at ran
          cases ran
      | ok second =>
          rw [first] at ran
          change (second.flushPendingStats storage settings calls.stats >>= _) = _ at ran
          cases third : second.flushPendingStats storage settings calls.stats with
          | error error =>
              rw [third] at ran
              cases ran
          | ok last =>
              rw [third] at ran
              exact ((atClose.flushMetrics fits first).flushPendingStats fits
                third).refreshActiveQueueLengths ran

/-! The counts of a run. -/

/-- Redis and the memory have counted the log, each result once. -/
structure ResultsCounted (keys : StorageKeys) (start : MetricsStore) (log : MetricsLog)
    (collector : Collector) : Prop where
  queues : ∀ queue metric,
    collector.redis.valueAt (StatsPlace.address keys ⟨queue, metric⟩) =
      start.valueAt (StatsPlace.address keys ⟨queue, metric⟩) +
        (sumOf (fun result => decide (result.queue = queue))
          (fun result => result.statsAmount metric) log : Int)
  balanced : ∀ queue,
    collector.redis.valueAt (StatsPlace.address keys ⟨queue, .processed⟩) -
        start.valueAt (StatsPlace.address keys ⟨queue, .processed⟩) =
      (collector.redis.valueAt (StatsPlace.address keys ⟨queue, .succeeded⟩) -
        start.valueAt (StatsPlace.address keys ⟨queue, .succeeded⟩)) +
      (collector.redis.valueAt (StatsPlace.address keys ⟨queue, .failed⟩) -
        start.valueAt (StatsPlace.address keys ⟨queue, .failed⟩))
  metrics : ∀ place : CounterPlace, collector.redis.valueAt (place.address keys) =
    start.valueAt (place.address keys) + (balance (log.flatMap counterPostings) place : Int)
  histograms : ∀ place : BucketPlace, collector.redis.histograms.get (place.address keys) =
    min (start.histograms.get (place.address keys) +
      balance (log.flatMap bucketPostings) place) 65535
  memory : ∀ metric, collector.stats.read metric =
    sumOf (fun _ => true) (fun result => result.statsAmount metric) log

theorem sumOf_processed (counts : WorkerResult → Bool) (log : MetricsLog) :
    sumOf counts (fun result => result.statsAmount .processed) log =
      sumOf counts (fun result => result.statsAmount .succeeded) log +
        sumOf counts (fun result => result.statsAmount .failed) log := by
  have each : ∀ result : WorkerResult, result.statsAmount .processed =
      result.statsAmount .succeeded + result.statsAmount .failed := by
    intro result
    simp only [WorkerResult.statsAmount]
    split <;> omega
  rw [sumOf_eq, sumOf_eq, sumOf_eq, ← List.sum_map_add]
  refine congrArg List.sum (List.map_congr_left fun entry _ => ?_)
  split
  · exact each entry.2
  · rfl

theorem Collector.Accounts.resultsCounted_iff {collector : Collector}
    {log heldMetrics heldStats : MetricsLog}
    (accounts : collector.Accounts storage.keys start log heldMetrics heldStats)
    (fits : CountsFit storage.keys start log) :
    ResultsCounted storage.keys start log collector ↔
      heldMetrics = [] ∧ ∀ entry ∈ heldStats, entry.2.jobCount = 0 := by
  obtain ⟨flushedMetrics, flushedStats, one, two, redis⟩ := accounts.redis
  have statsSum : ∀ queue metric,
      sumOf (fun result => decide (result.queue = queue))
          (fun result => result.statsAmount metric) log =
        balance (flushedStats.flatMap statsPostings) ⟨queue, metric⟩ +
          balance (heldStats.flatMap statsPostings) ⟨queue, metric⟩ := by
    intro queue metric
    rw [← balance_statsPostings_log, two, List.flatMap_append, balance_append]
  constructor
  · intro counted
    constructor
    · apply counterPostings_nil
      intro place
      have flushed := redis.metrics place
      have whole := counted.metrics place
      rw [one, List.flatMap_append, balance_append] at whole
      omega
    · intro entry member
      have flushed := redis.stats ⟨entry.2.queue, .processed⟩
      have whole := counted.queues entry.2.queue .processed
      rw [statsSum] at whole
      have posted : ((⟨entry.2.queue, .processed⟩ : StatsPlace), entry.2.jobCount) ∈
          heldStats.flatMap statsPostings :=
        List.mem_flatMap.mpr ⟨entry, member, List.mem_cons_self⟩
      have small := le_balance posted
      omega
  · rintro ⟨noMetrics, idle⟩
    have noStats : ∀ place, balance (heldStats.flatMap statsPostings) place = 0 := by
      intro place
      apply balance_flatMap_eq_zero
      intro entry member
      have posted := balance_statsPostings entry place.queue place.metric
      have small := statsAmount_le_jobCount entry.2 place.metric
      rw [idle entry member] at small
      change balance (statsPostings entry) place = _ at posted
      split at posted <;> omega
    have queues : ∀ queue metric,
        collector.redis.valueAt (StatsPlace.address storage.keys ⟨queue, metric⟩) =
          start.valueAt (StatsPlace.address storage.keys ⟨queue, metric⟩) +
            (sumOf (fun result => decide (result.queue = queue))
              (fun result => result.statsAmount metric) log : Int) := by
      intro queue metric
      have flushed := redis.stats ⟨queue, metric⟩
      have none := noStats ⟨queue, metric⟩
      rw [statsSum]
      omega
    rw [noMetrics, List.append_nil] at one
    refine ⟨queues, ?_, ?_, ?_, ?_⟩
    · intro queue
      have split := sumOf_processed (fun result => decide (result.queue = queue)) log
      have processed := queues queue .processed
      have succeeded := queues queue .succeeded
      have failed := queues queue .failed
      omega
    · rw [one]
      exact redis.metrics
    · rw [one]
      exact redis.histograms
    · intro metric
      have total := fits.total
      have small := sumOf_statsAmount_le (fun _ => true) metric log
      rw [accounts.memory metric]
      unfold u64Max
      omega

/-- The results of a run are counted unless its last flush fails and is tolerated while
results wait for it. -/
theorem results_counted_iff (storage : StorageInternal) (settings : CollectorSettings)
    {failures : Nat} {start : MetricsStore} {events : List CollectorEvent} {calls : FinalCalls}
    {collector : Collector} (fits : CountsFit storage.keys start (received events))
    (ran : Collector.run storage settings failures start events calls = .ok collector) :
    ResultsCounted storage.keys start (received events) collector ↔
      (calls.metrics.applied = true ∨
        resultsSince CollectorEvent.flushesMetrics events = []) ∧
      (calls.stats.applied = true ∨
        ∀ entry ∈ resultsSince CollectorEvent.flushesStats events, entry.2.jobCount = 0) := by
  rw [(Collector.accounts_run fits ran).resultsCounted_iff fits]
  cases calls.metrics.applied <;> cases calls.stats.applied <;> simp

end Calls

/-! A run that loses a result: the last flush of the metrics is refused, once. -/

def collectedResult : WorkerResult where
  kind := .success
  workerName := "Worker"
  queue := "default"
  executionMs := 25
  jobCount := 1
  workerFits := by decide +kernel
  queueFits := by decide +kernel

def refusedLastFlush : FinalCalls where
  metrics := ⟨[], false⟩
  stats := ⟨[], true⟩
  lengthsCall := ⟨[], true⟩
  lengths := fun _ => 0
  refreshedAt := 0

theorem collectedResult_counters (place : CounterPlace) :
    balance ((received [.result 0 collectedResult]).flatMap counterPostings) place < 2 ^ 63 := by
  refine Nat.lt_of_le_of_lt (balance_le_total _ _) ?_
  decide +kernel

theorem collectedResult_fits :
    CountsFit (workerNode 1).keys .empty (received [.result 0 collectedResult]) where
  low := fun address => by
    change (-2 ^ 63 : Int) ≤ 0
    decide
  metrics := by
    intro place
    have small := collectedResult_counters place
    have start : MetricsStore.empty.valueAt (place.address (workerNode 1).keys) = 0 := rfl
    omega
  stats := by
    intro place
    have small : balance ((received [.result 0 collectedResult]).flatMap statsPostings) place <
        2 ^ 63 := by
      refine Nat.lt_of_le_of_lt (balance_le_total _ _) ?_
      decide +kernel
    have start : MetricsStore.empty.valueAt (place.address (workerNode 1).keys) = 0 := rfl
    omega
  total := by decide +kernel
  sums := by
    refine ⟨collectedResult_counters, fun place => ?_⟩
    refine Nat.lt_of_le_of_lt (balance_le_total _ _) ?_
    decide +kernel
  halfwords := fun _ => Nat.zero_le _

theorem tolerated_failure_loses_result :
    ¬ ∀ (storage : StorageInternal) (settings : CollectorSettings) (failures : Nat)
      (start : MetricsStore) (events : List CollectorEvent) (calls : FinalCalls)
      (collector : Collector), CountsFit storage.keys start (received events) →
        Collector.run storage settings failures start events calls = .ok collector →
          ResultsCounted storage.keys start (received events) collector := by
  intro claimed
  have counted := claimed (workerNode 1) ⟨30, none⟩ 0 .empty [.result 0 collectedResult]
    refusedLastFlush _ collectedResult_fits rfl
  have processed := counted.metrics (.job 0 ⟨"Worker"⟩ .processed)
  revert processed
  decide +kernel

theorem results_counted_iff_applied :
    ∃ collector, Collector.run (workerNode 1) ⟨30, none⟩ 0 .empty
        [.result 0 collectedResult, .metricsTick ⟨[], true⟩] refusedLastFlush = .ok collector ∧
      ResultsCounted (workerNode 1).keys .empty [(0, collectedResult)] collector := by
  have fits : CountsFit (workerNode 1).keys .empty
      (received [.result 0 collectedResult, .metricsTick ⟨[], true⟩]) := collectedResult_fits
  have ran : Collector.run (workerNode 1) ⟨30, none⟩ 0 .empty
      [.result 0 collectedResult, .metricsTick ⟨[], true⟩] refusedLastFlush = .ok _ := rfl
  exact ⟨_, ran, (results_counted_iff (workerNode 1) ⟨30, none⟩ fits ran).mpr
    ⟨.inr rfl, .inl rfl⟩⟩

end Oxana
