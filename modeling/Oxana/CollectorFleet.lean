import Mathlib
import Oxana.HeldLedger
import Oxana.ResultCounting

/-!
The result collectors of several processes that count into one Redis.  A process may fail or be
restarted at any time, and then what its collector held in memory is lost.
-/

namespace Oxana

open Postings

/-! What a call of a collector does. -/

section Calls

variable {storage : StorageInternal} {settings : CollectorSettings} {collector next : Collector}
  {held : MetricsLog} {call : TrackedCall}

/-- What a call leaves in memory and in Redis: everything as it was, or the held results in Redis
and not in memory. -/
inductive Flushed (keys : StorageKeys) (before after : MetricsStore) (unchanged emptied : Prop)
    (counters : List ((String × String) × Nat)) (buckets : List ((String × Nat) × Nat)) : Prop
  | kept : unchanged → after = before → Flushed keys before after unchanged emptied counters buckets
  | moved : emptied → before.Grown after counters buckets →
      Flushed keys before after unchanged emptied counters buckets

theorem Collector.flushMetrics_spec (holds : collector.metrics.Holds held)
    (room : collector.redis.RoomFor (recordedCounters storage.keys held))
    (sums : FitsCounters held) (ran : collector.flushMetrics storage settings call = .ok next) :
    next.pendingStats = collector.pendingStats ∧
      Flushed storage.keys collector.redis next.redis (next.metrics = collector.metrics)
        (next.metrics.Holds []) (recordedCounters storage.keys held)
        (recordedBuckets storage.keys held) := by
  unfold flushMetrics at ran
  split at ran
  · cases ran
    exact ⟨rfl, .kept rfl rfl⟩
  · by_cases applied : call.applied = true
    · obtain ⟨after, flushed, grown⟩ := flush_grows storage holds room sums
      rw [TrackedCall.send_applied applied flushed] at ran
      cases ran
      exact ⟨rfl, .moved JobMetricsBuffer.holds_empty grown⟩
    · rw [TrackedCall.send_refused applied] at ran
      obtain ⟨failures, rfl⟩ := track_refused ran
      exact ⟨rfl, .kept rfl rfl⟩

theorem Collector.flushPendingStats_spec (holds : collector.pendingStats.Holds held)
    (room : collector.redis.RoomFor (recordedStats storage.keys held))
    (sums : ∀ place, balance (held.flatMap statsPostings) place < 2 ^ 63)
    (ran : collector.flushPendingStats storage settings call = .ok next) :
    next.metrics = collector.metrics ∧
      Flushed storage.keys collector.redis next.redis
        (next.pendingStats = collector.pendingStats) (next.pendingStats = .empty)
        (recordedStats storage.keys held) [] := by
  unfold flushPendingStats at ran
  split at ran
  · cases ran
    exact ⟨rfl, .kept rfl rfl⟩
  · by_cases applied : call.applied = true
    · obtain ⟨after, flushed, grown⟩ := flushStats_grows storage holds room sums
      rw [TrackedCall.send_applied applied flushed] at ran
      cases ran
      exact ⟨rfl, .moved rfl grown⟩
    · rw [TrackedCall.send_refused applied] at ran
      obtain ⟨failures, rfl⟩ := track_refused ran
      exact ⟨rfl, .kept rfl rfl⟩

theorem Collector.refreshActiveQueueLengths_spec {lengths : String → Int} {refreshedAt : Int}
    (ran : collector.refreshActiveQueueLengths storage settings call lengths refreshedAt =
      .ok next) :
    next.metrics = collector.metrics ∧ next.pendingStats = collector.pendingStats ∧
      (next.redis = collector.redis ∨ ∃ entries,
        next.redis = storage.writeQueueLengthStats entries refreshedAt collector.redis) := by
  unfold refreshActiveQueueLengths at ran
  split at ran
  · cases ran
    exact ⟨rfl, rfl, .inl rfl⟩
  · by_cases applied : call.applied = true
    · rw [if_pos applied] at ran
      cases ran
      exact ⟨rfl, rfl, .inr ⟨_, rfl⟩⟩
    · rw [if_neg applied] at ran
      obtain ⟨failures, rfl⟩ := track_refused ran
      exact ⟨rfl, rfl, .inl rfl⟩

end Calls

/-! Runs of the fleet. -/

variable {ι : Type}

structure CollectorFleet (ι : Type) where
  store : MetricsStore
  collectors : ι → Collector

namespace CollectorFleet

def collector (fleet : CollectorFleet ι) (process : ι) : Collector :=
  { fleet.collectors process with redis := fleet.store }

def put [DecidableEq ι] (fleet : CollectorFleet ι) (process : ι) (collector : Collector) :
    CollectorFleet ι where
  store := collector.redis
  collectors := Function.update fleet.collectors process collector

def start (failures : ι → Nat) (store : MetricsStore) : CollectorFleet ι where
  store := store
  collectors := fun process => .start (failures process) store

end CollectorFleet

inductive FleetCollects [DecidableEq ι] (node : ι → StorageInternal)
    (settings : ι → CollectorSettings) (start : MetricsStore) :
    CollectorFleet ι → MetricsLog → Bool → Prop
  | start (failures : ι → Nat) : FleetCollects node settings start (.start failures start) [] true
  | act {fleet : CollectorFleet ι} {received : MetricsLog} {intact : Bool} (process : ι)
      (event : CollectorEvent) {next : Collector}
      (earlier : FleetCollects node settings start fleet received intact)
      (ran : (fleet.collector process).step (node process) (settings process) event = .ok next) :
      FleetCollects node settings start (fleet.put process next)
        (received ++ event.entry.toList) intact
  | restart {fleet : CollectorFleet ι} {received : MetricsLog} {intact : Bool} (process : ι)
      (failures : Nat) (earlier : FleetCollects node settings start fleet received intact) :
      FleetCollects node settings start (fleet.put process (.start failures fleet.store)) received
        false

/-! What has been counted. -/

theorem CountsFit.perm {keys : StorageKeys} {start : MetricsStore} {one two : MetricsLog}
    (fits : CountsFit keys start one) (rearranged : one.Perm two) : CountsFit keys start two := by
  have balances : ∀ {Place : Type} [DecidableEq Place]
      (postings : Int × WorkerResult → List (Place × Nat)) (place : Place),
      balance (two.flatMap postings) place = balance (one.flatMap postings) place :=
    fun postings place => raised_perm (rearranged.symm.flatMap_right postings)
  refine ⟨fits.low, ?_, ?_, ?_, ⟨?_, ?_⟩, fits.halfwords⟩
  · intro place
    rw [balances]
    exact fits.metrics place
  · intro place
    rw [balances]
    exact fits.stats place
  · have total := fits.total
    rw [sumOf_eq] at total ⊢
    rwa [(rearranged.symm.map _).sum_eq]
  · intro place
    rw [balances]
    exact fits.sums.counters place
  · intro place
    rw [balances]
    exact fits.sums.buckets place

theorem CountsFit.left {given : String} {start : MetricsStore} {front back : MetricsLog}
    (fits : CountsFit (StorageKeys.new given) start (front ++ back)) :
    CountsFit (StorageKeys.new given) start front :=
  @CountsFit.front ⟨given, "", 0, 0, .insertion⟩ start front back fits

/-- Redis has counted the results that were handed in; the others are held or lost, the job
metrics and the statistics of the queues each on their own. -/
structure FleetCounted [Fintype ι] (keys : StorageKeys) (start : MetricsStore)
    (fleet : CollectorFleet ι) (received : MetricsLog) (intact : Bool)
    (metricsIn statsIn : MetricsLog) : Prop where
  redis : FlushedCounts keys start fleet.store metricsIn statsIn
  metrics : ∃ lost held, HeldLedger.Split received metricsIn lost held ∧
    (∀ process, (fleet.collectors process).metrics.Holds (held process)) ∧
    (intact = true → lost = [])
  stats : ∃ lost held, HeldLedger.Split received statsIn lost held ∧
    (∀ process, (fleet.collectors process).pendingStats.Holds (held process)) ∧
    (intact = true → lost = [])

theorem holds_update [DecidableEq ι] {Holds : Collector → MetricsLog → Prop}
    {collectors : ι → Collector} {held : ι → MetricsLog}
    (all : ∀ process, Holds (collectors process) (held process)) (process : ι) {next : Collector}
    {log : MetricsLog} (own : Holds next log) (other : ι) :
    Holds (Function.update collectors process next other)
      (Function.update held process log other) := by
  by_cases same : other = process
  · subst same
    rwa [Function.update_self, Function.update_self]
  · rw [Function.update_of_ne same, Function.update_of_ne same]
    exact all other

theorem holds_kept [DecidableEq ι] {Holds : Collector → MetricsLog → Prop}
    {collectors : ι → Collector} {held : ι → MetricsLog}
    (all : ∀ process, Holds (collectors process) (held process)) (process : ι) {next : Collector}
    (own : Holds next (held process)) (other : ι) :
    Holds (Function.update collectors process next other) (held other) := by
  have updated := holds_update all process own other
  rwa [Function.update_eq_self] at updated

section Counted

variable [Fintype ι] {given : String} {node : ι → StorageInternal}
  {settings : ι → CollectorSettings} {start : MetricsStore} {fleet : CollectorFleet ι}
  {received metricsIn statsIn : MetricsLog} {intact : Bool}

def HoldsMetrics (collector : Collector) (log : MetricsLog) : Prop := collector.metrics.Holds log

def HoldsStats (collector : Collector) (log : MetricsLog) : Prop :=
  collector.pendingStats.Holds log

theorem CountsFit.split [DecidableEq ι] {handedIn lost : MetricsLog} {held : ι → MetricsLog}
    (fits : CountsFit (StorageKeys.new given) start received)
    (split : HeldLedger.Split received handedIn lost held) (process : ι) :
    CountsFit (StorageKeys.new given) start (handedIn ++ held process) := by
  obtain ⟨rest, rearranged⟩ := split.exists_perm process
  exact (fits.perm rearranged).left

variable [DecidableEq ι]

theorem FleetCounted.result
    (counted : FleetCounted (StorageKeys.new given) start fleet received intact metricsIn statsIn)
    (process : ι) {now : Int} {result : WorkerResult} {next : Collector}
    (ran : (fleet.collector process).step (node process) (settings process) (.result now result) =
      .ok next) :
    FleetCounted (StorageKeys.new given) start (fleet.put process next)
      (received ++ [(now, result)]) intact metricsIn statsIn := by
  cases ran
  obtain ⟨lost, held, split, holds, kept⟩ := counted.metrics
  obtain ⟨lostStats, heldStats, splitStats, holdsStats, keptStats⟩ := counted.stats
  refine ⟨counted.redis, ?_, ?_⟩
  · refine ⟨lost, _, split.record process [(now, result)], ?_, kept⟩
    exact @holds_update _ _ HoldsMetrics _ _ holds process _ _ ((holds process).record now result)
  · refine ⟨lostStats, _, splitStats.record process [(now, result)], ?_, keptStats⟩
    exact @holds_update _ _ HoldsStats _ _ holdsStats process _ _
      ((holdsStats process).record now result)

theorem FleetCounted.metricsTick
    (counted : FleetCounted (StorageKeys.new given) start fleet received intact metricsIn statsIn)
    (fits : CountsFit (StorageKeys.new given) start received) (process : ι) {call : TrackedCall}
    (own : (node process).given = given) {next : Collector}
    (ran : (fleet.collector process).flushMetrics (node process) (settings process) call =
      .ok next) :
    ∃ metricsIn, FleetCounted (StorageKeys.new given) start (fleet.put process next) received
      intact metricsIn statsIn := by
  subst own
  obtain ⟨lost, held, split, holds, kept⟩ := counted.metrics
  obtain ⟨lostStats, heldStats, splitStats, holdsStats, keptStats⟩ := counted.stats
  have beside := fits.split split process
  have room : fleet.store.RoomFor (recordedCounters (node process).keys (held process)) := by
    refine MetricsStore.roomFor_held (CounterPlace.address_injective (node process).given)
      counted.redis.metrics fits.low fun place => ?_
    have whole := beside.metrics place
    rw [List.flatMap_append] at whole
    exact whole
  have ownHeld : (fleet.collector process).metrics.Holds (held process) := holds process
  obtain ⟨others, flushed⟩ :=
    Collector.flushMetrics_spec ownHeld room beside.sums.of_append.2 ran
  have stats : ∀ other, ((fleet.put process next).collectors other).pendingStats.Holds
      (heldStats other) :=
    @holds_kept _ _ HoldsStats _ _ holdsStats process _ (by
      unfold HoldsStats
      rw [others]
      exact holdsStats process)
  cases flushed with
  | kept unchanged same =>
      refine ⟨metricsIn, ?_, ⟨lost, held, split, ?_, kept⟩,
        ⟨lostStats, heldStats, splitStats, stats, keptStats⟩⟩
      · change FlushedCounts _ start next.redis metricsIn statsIn
        rw [same]
        exact counted.redis
      · exact @holds_kept _ _ HoldsMetrics _ _ holds process _ (by
          unfold HoldsMetrics
          rw [unchanged]
          exact holds process)
  | moved emptied grown =>
      refine ⟨metricsIn ++ held process, counted.redis.flushMetrics grown,
        ⟨lost, _, split.handIn process, ?_, kept⟩,
        ⟨lostStats, heldStats, splitStats, stats, keptStats⟩⟩
      exact @holds_update _ _ HoldsMetrics _ _ holds process _ _ emptied

theorem FleetCounted.statsTick
    (counted : FleetCounted (StorageKeys.new given) start fleet received intact metricsIn statsIn)
    (fits : CountsFit (StorageKeys.new given) start received) (process : ι) {call : TrackedCall}
    (own : (node process).given = given) {next : Collector}
    (ran : (fleet.collector process).flushPendingStats (node process) (settings process) call =
      .ok next) :
    ∃ statsIn, FleetCounted (StorageKeys.new given) start (fleet.put process next) received
      intact metricsIn statsIn := by
  subst own
  obtain ⟨lost, held, split, holds, kept⟩ := counted.metrics
  obtain ⟨lostStats, heldStats, splitStats, holdsStats, keptStats⟩ := counted.stats
  have beside := fits.split splitStats process
  have room : fleet.store.RoomFor (recordedStats (node process).keys (heldStats process)) := by
    refine MetricsStore.roomFor_held (StatsPlace.address_injective (node process).keys)
      counted.redis.stats fits.low fun place => ?_
    have whole := beside.stats place
    rw [List.flatMap_append] at whole
    exact whole
  have ownHeld : (fleet.collector process).pendingStats.Holds (heldStats process) :=
    holdsStats process
  obtain ⟨others, flushed⟩ :=
    Collector.flushPendingStats_spec ownHeld room beside.statsBalance ran
  have metrics : ∀ other, ((fleet.put process next).collectors other).metrics.Holds
      (held other) :=
    @holds_kept _ _ HoldsMetrics _ _ holds process _ (by
      unfold HoldsMetrics
      rw [others]
      exact holds process)
  cases flushed with
  | kept unchanged same =>
      refine ⟨statsIn, ?_, ⟨lost, held, split, metrics, kept⟩,
        ⟨lostStats, heldStats, splitStats, ?_, keptStats⟩⟩
      · change FlushedCounts _ start next.redis metricsIn statsIn
        rw [same]
        exact counted.redis
      · exact @holds_kept _ _ HoldsStats _ _ holdsStats process _ (by
          unfold HoldsStats
          rw [unchanged]
          exact holdsStats process)
  | moved emptied grown =>
      refine ⟨statsIn ++ heldStats process, counted.redis.flushStats fits.halfwords grown,
        ⟨lost, held, split, metrics, kept⟩,
        ⟨lostStats, _, splitStats.handIn process, ?_, keptStats⟩⟩
      exact @holds_update _ _ HoldsStats _ _ holdsStats process _ _ (by
        unfold HoldsStats
        rw [emptied]
        exact PendingStats.holds_empty)

theorem FleetCounted.lengthsTick
    (counted : FleetCounted (StorageKeys.new given) start fleet received intact metricsIn statsIn)
    (process : ι) {call : TrackedCall} {lengths : String → Int} {refreshedAt : Int}
    (own : (node process).given = given) {next : Collector}
    (ran : (fleet.collector process).refreshActiveQueueLengths (node process) (settings process)
      call lengths refreshedAt = .ok next) :
    FleetCounted (StorageKeys.new given) start (fleet.put process next) received intact
      metricsIn statsIn := by
  subst own
  obtain ⟨lost, held, split, holds, kept⟩ := counted.metrics
  obtain ⟨lostStats, heldStats, splitStats, holdsStats, keptStats⟩ := counted.stats
  obtain ⟨metrics, stats, redis⟩ := Collector.refreshActiveQueueLengths_spec ran
  refine ⟨?_, ⟨lost, held, split, ?_, kept⟩, ⟨lostStats, heldStats, splitStats, ?_, keptStats⟩⟩
  · change FlushedCounts _ start next.redis metricsIn statsIn
    rcases redis with same | ⟨entries, wrote⟩
    · rw [same]
      exact counted.redis
    · rw [wrote]
      exact FlushedCounts.writeQueueLengthStats entries refreshedAt counted.redis
  · exact @holds_kept _ _ HoldsMetrics _ _ holds process _ (by
      unfold HoldsMetrics
      rw [metrics]
      exact holds process)
  · exact @holds_kept _ _ HoldsStats _ _ holdsStats process _ (by
      unfold HoldsStats
      rw [stats]
      exact holdsStats process)

theorem FleetCounted.restart
    (counted : FleetCounted (StorageKeys.new given) start fleet received intact metricsIn statsIn)
    (process : ι) (failures : Nat) :
    FleetCounted (StorageKeys.new given) start
      (fleet.put process (.start failures fleet.store)) received false metricsIn statsIn := by
  obtain ⟨lost, held, split, holds, kept⟩ := counted.metrics
  obtain ⟨lostStats, heldStats, splitStats, holdsStats, keptStats⟩ := counted.stats
  refine ⟨counted.redis, ⟨_, _, split.lose process, ?_, fun impossible => nomatch impossible⟩,
    ⟨_, _, splitStats.lose process, ?_, fun impossible => nomatch impossible⟩⟩
  · exact @holds_update _ _ HoldsMetrics _ _ holds process _ _ JobMetricsBuffer.holds_empty
  · exact @holds_update _ _ HoldsStats _ _ holdsStats process _ _ PendingStats.holds_empty

theorem FleetCollects.counted (shared : ∀ process, (node process).given = given)
    (run : FleetCollects node settings start fleet received intact)
    (fits : CountsFit (StorageKeys.new given) start received) :
    ∃ metricsIn statsIn, FleetCounted (StorageKeys.new given) start fleet received intact
      metricsIn statsIn := by
  induction run with
  | start failures =>
      have nothing : HeldLedger.Split ([] : MetricsLog) [] [] fun _ : ι => [] :=
        HeldLedger.Split.start
      exact ⟨[], [], FlushedCounts.refl _ fits.halfwords,
        ⟨[], _, nothing, fun _ => JobMetricsBuffer.holds_empty, fun _ => rfl⟩,
        ⟨[], _, nothing, fun _ => PendingStats.holds_empty, fun _ => rfl⟩⟩
  | @act fleet received intact process event next earlier ran ih =>
      obtain ⟨metricsIn, statsIn, counted⟩ := ih fits.left
      cases event with
      | result now result => exact ⟨metricsIn, statsIn, counted.result process ran⟩
      | metricsTick call =>
          obtain ⟨more, after⟩ := counted.metricsTick fits.left process (shared process) ran
          exact ⟨more, statsIn, by simpa [CollectorEvent.entry] using after⟩
      | statsTick call =>
          obtain ⟨more, after⟩ := counted.statsTick fits.left process (shared process) ran
          exact ⟨metricsIn, more, by simpa [CollectorEvent.entry] using after⟩
      | lengthsTick call lengths refreshedAt =>
          have after := counted.lengthsTick process (shared process) ran
          exact ⟨metricsIn, statsIn, by simpa [CollectorEvent.entry] using after⟩
  | restart process failures earlier ih =>
      obtain ⟨metricsIn, statsIn, counted⟩ := ih fits
      exact ⟨metricsIn, statsIn, counted.restart process failures⟩

end Counted

end Oxana
