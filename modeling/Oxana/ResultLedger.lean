import Oxana.MetricsSums
import Oxana.ResultCollector

/-!
What a result adds to the statistics of its queue, that the pending statistics hold these
amounts, and that a flush adds them to the hash in Redis.
-/

namespace Oxana

open Postings

/-! The counters. -/

inductive StatsMetric
  | processed
  | succeeded
  | panicked
  | failed
  deriving DecidableEq

def StatsMetric.text : StatsMetric → String
  | processed => "processed"
  | succeeded => "succeeded"
  | panicked => "panicked"
  | failed => "failed"

def StatsMetric.all : List StatsMetric := [processed, succeeded, panicked, failed]

theorem StatsMetric.mem_all (metric : StatsMetric) : metric ∈ StatsMetric.all := by
  cases metric <;> decide

theorem StatsMetric.text_plain (metric : StatsMetric) : ':' ∉ metric.text.toList := by
  cases metric <;> decide

structure StatsPlace where
  queue : String
  metric : StatsMetric
  deriving DecidableEq

def StatsPlace.address (keys : StorageKeys) (place : StatsPlace) : String × String :=
  (keys.stats, place.queue ++ ":" ++ place.metric.text)

theorem StatsPlace.address_injective (keys : StorageKeys) :
    Function.Injective (StatsPlace.address keys) := by
  rintro ⟨queue, metric⟩ ⟨otherQueue, otherMetric⟩ same
  obtain ⟨queues, texts⟩ :=
    join_plain_tails metric.text_plain otherMetric.text_plain (Prod.mk.inj same).2
  subst queues
  cases metric <;> cases otherMetric <;> first
    | rfl
    | exact absurd texts (by decide)

/-! What a result adds. -/

def WorkerResult.statsAmount (result : WorkerResult) : StatsMetric → Nat
  | .processed => result.jobCount
  | .succeeded => if result.kind = .success then result.jobCount else 0
  | .panicked => if result.kind = .panicked then result.jobCount else 0
  | .failed => if result.kind = .success then 0 else result.jobCount

def statsPostings (entry : Int × WorkerResult) : List (StatsPlace × Nat) :=
  StatsMetric.all.map fun metric => (⟨entry.2.queue, metric⟩, entry.2.statsAmount metric)

def recordedStats (keys : StorageKeys) (log : MetricsLog) : List ((String × String) × Nat) :=
  (log.flatMap statsPostings).map fun posting => (posting.1.address keys, posting.2)

theorem statsPlace_injective : Function.Injective2 StatsPlace.mk := by
  intro _ _ _ _ equal
  cases equal
  exact ⟨rfl, rfl⟩

theorem balance_statsPostings (entry : Int × WorkerResult) (queue : String)
    (metric : StatsMetric) :
    balance (statsPostings entry) ⟨queue, metric⟩ =
      if queue = entry.2.queue then entry.2.statsAmount metric else 0 :=
  balance_row statsPlace_injective (by decide) entry.2.queue queue _ metric.mem_all

theorem balance_recordedStats (keys : StorageKeys) (log : MetricsLog) (place : StatsPlace) :
    balance (recordedStats keys log) (place.address keys) =
      balance (log.flatMap statsPostings) place :=
  balance_map_of_injective (StatsPlace.address_injective keys) _ place

theorem balance_statsPostings_log (log : MetricsLog) (queue : String) (metric : StatsMetric) :
    balance (log.flatMap statsPostings) ⟨queue, metric⟩ =
      sumOf (fun result => decide (result.queue = queue))
        (fun result => result.statsAmount metric) log := by
  unfold balance
  rw [raised_flatMap, sumOf_eq]
  refine congrArg List.sum (List.map_congr_left fun entry _ => ?_)
  refine (balance_statsPostings entry queue metric).trans ?_
  by_cases same : queue = entry.2.queue
  · simp [same]
  · simp [same, Ne.symm same]

/-! The counters in memory. -/

def Stats.read (stats : Stats) : StatsMetric → Nat
  | .processed => stats.processed
  | .succeeded => stats.succeeded
  | .panicked => stats.panicked
  | .failed => stats.failed

def QueueResultStats.read (stats : QueueResultStats) : StatsMetric → Nat
  | .processed => stats.processed
  | .succeeded => stats.succeeded
  | .panicked => stats.panicked
  | .failed => stats.failed

theorem Stats.record_read {stats : Stats} (fits : ∀ metric, stats.read metric ≤ u64Max)
    (result : WorkerResult) (metric : StatsMetric) :
    (stats.record result).read metric =
      saturatingAdd (stats.read metric) (result.statsAmount metric) := by
  have kept := saturatingAdd_zero (fits metric)
  cases metric <;> cases kind : result.kind <;>
    simp_all [Stats.record, Stats.read, WorkerResult.statsAmount]

theorem QueueResultStats.record_read {stats : QueueResultStats}
    (fits : ∀ metric, stats.read metric ≤ i64Max) (result : WorkerResult)
    (metric : StatsMetric) :
    (stats.record result).read metric =
      min (stats.read metric + result.statsAmount metric) i64Max := by
  have kept : stats.read metric = min (stats.read metric) i64Max :=
    (Nat.min_eq_left (fits metric)).symm
  have clamped : ∀ value, saturatingAddI64 value (min result.jobCount i64Max) =
      min (value + result.jobCount) i64Max := by
    intro value
    unfold saturatingAddI64
    omega
  cases metric <;> cases kind : result.kind <;>
    simp_all [QueueResultStats.record, QueueResultStats.read, WorkerResult.statsAmount]

def Stats.Holds (stats : Stats) (log : MetricsLog) : Prop :=
  ∀ metric, stats.read metric =
    min (sumOf (fun _ => true) (fun result => result.statsAmount metric) log) u64Max

theorem Stats.holds_empty : Stats.Holds {} [] := by
  intro metric
  cases metric <;> rfl

theorem Stats.Holds.record {stats : Stats} {log : MetricsLog} (holds : stats.Holds log)
    (now : Int) (result : WorkerResult) : (stats.record result).Holds (log ++ [(now, result)]) := by
  have fits : ∀ metric, stats.read metric ≤ u64Max := by
    intro metric
    rw [holds metric]
    exact Nat.min_le_right _ _
  intro metric
  rw [Stats.record_read fits, holds metric, saturatingAdd_min]
  simp [sumOf]

structure PendingStats.Holds (pending : PendingStats) (log : MetricsLog) : Prop where
  read : ∀ queue metric, ((pending.get queue).getD {}).read metric =
    min (balance (log.flatMap statsPostings) ⟨queue, metric⟩) i64Max
  listed : ∀ entry ∈ log, entry.2.queue ∈ pending.keys

theorem PendingStats.holds_empty : PendingStats.Holds .empty [] where
  read := by
    intro queue metric
    cases metric <;> rfl
  listed := fun _ member => nomatch member

theorem PendingStats.Holds.record {pending : PendingStats} {log : MetricsLog}
    (holds : pending.Holds log) (now : Int) (result : WorkerResult) :
    PendingStats.Holds (pending.set result.queue
      (some (((pending.get result.queue).getD {}).record result))) (log ++ [(now, result)]) where
  read := by
    intro queue metric
    rw [List.flatMap_append, balance_append, List.flatMap_singleton, balance_statsPostings,
      SparseMap.get_set]
    split
    · rename_i same
      have fits : ∀ other, ((pending.get result.queue).getD {}).read other ≤ i64Max := by
        intro other
        rw [holds.read]
        exact Nat.min_le_right _ _
      rw [Option.getD_some, QueueResultStats.record_read fits, holds.read, same]
      dsimp only
      omega
    · rw [Nat.add_zero, holds.read]
  listed := by
    intro entry member
    rw [SparseMap.mem_keys, SparseMap.get_set]
    split
    · exact Option.some_ne_none _
    · rename_i apart
      rcases List.mem_append.mp member with old | new
      · exact (SparseMap.mem_keys _ _).mp (holds.listed entry old)
      · rw [List.mem_singleton] at new
        subst new
        exact absurd rfl apart

theorem PendingStats.Holds.nil_of_isEmpty {pending : PendingStats} {log : MetricsLog}
    (holds : pending.Holds log) (empty : pending.keys.isEmpty = true) : log = [] := by
  apply List.eq_nil_iff_forall_not_mem.mpr
  intro entry member
  have listed := holds.listed entry member
  rw [List.isEmpty_iff.mp empty] at listed
  cases listed

/-! A flush. -/

section Flush

variable (storage : StorageInternal)

theorem raised_hincrStat (select : String × String → Bool) (queue field : String) (value : Nat) :
    raised select ((storage.hincrStat queue field value).flatMap MetricsCommand.increments) =
      if select (storage.keys.stats, queue ++ ":" ++ field) then value else 0 := by
  unfold StorageInternal.hincrStat
  split
  · simp [MetricsCommand.increments]
  · rename_i zero
    have none : value = 0 := by omega
    simp [none]

theorem counts_hincrStat {queue field : String} {value : Nat} {command : MetricsCommand}
    (member : command ∈ storage.hincrStat queue field value) :
    command.Counts ∧ command.bucketIncrements = [] := by
  unfold StorageInternal.hincrStat at member
  split at member
  · rename_i positive
    rw [List.mem_singleton] at member
    subst member
    exact ⟨Int.natCast_pos.mpr positive, rfl⟩
  · cases member

theorem raised_queueStatsCommands (select : String × String → Bool) (queue : String)
    (stats : QueueResultStats) :
    raised select ((storage.queueStatsCommands queue stats).flatMap
        MetricsCommand.increments) =
      raised (fun place => select (place.address storage.keys)) (StatsMetric.all.map fun metric =>
        (StatsPlace.mk queue metric, stats.read metric)) := by
  simp only [StorageInternal.queueStatsCommands, List.flatMap_append, raised_append,
    raised_hincrStat, StatsMetric.all, List.map_cons, List.map_nil, raised_cons, raised_nil,
    StatsPlace.address, StatsMetric.text, QueueResultStats.read]
  omega

theorem counts_queueStatsCommands {queue : String} {stats : QueueResultStats}
    {command : MetricsCommand} (member : command ∈ storage.queueStatsCommands queue stats) :
    command.Counts ∧ command.bucketIncrements = [] := by
  simp only [StorageInternal.queueStatsCommands, List.mem_append] at member
  rcases member with ((inside | inside) | inside) | inside <;>
    exact counts_hincrStat storage inside

def statsCommands (pending : PendingStats) : List MetricsCommand :=
  ((storage.order.arrange pending.keys).filterMap fun queue =>
    (pending.get queue).map fun stats => (queue, stats)).flatMap fun entry =>
      storage.queueStatsCommands entry.1 entry.2

theorem flushResultStats_eq (pending : PendingStats) :
    storage.flushResultStats pending = Program.batch (statsCommands storage pending) := by
  unfold StorageInternal.flushResultStats statsCommands
  split
  · rename_i empty
    have arranged : storage.order.arrange ([] : List String) = [] :=
      (storage.order.perm []).eq_nil
    rw [List.isEmpty_iff.mp empty, arranged]
    rfl
  · refine congrArg Program.batch ?_
    induction storage.order.arrange pending.keys with
    | nil => rfl
    | cons queue rest ih =>
        rw [List.flatMap_cons, ih]
        cases found : pending.get queue with
        | none => rw [List.filterMap_cons_none (by rw [found]; rfl), List.nil_append]
        | some stats =>
            rw [List.filterMap_cons_some (by rw [found]; rfl), List.flatMap_cons]

theorem raised_statsCommands (select : String × String → Bool) (pending : PendingStats) :
    raised select ((statsCommands storage pending).flatMap MetricsCommand.increments) =
      raised (fun place => select (place.address storage.keys))
        (pending.keys.flatMap fun queue => StatsMetric.all.map fun metric =>
          (StatsPlace.mk queue metric, ((pending.get queue).getD {}).read metric)) := by
  unfold statsCommands
  rw [List.flatMap_assoc]
  apply raised_entries (storage.order.perm _)
  · intro queue entry found
    obtain ⟨stats, present, rfl⟩ := Option.map_eq_some_iff.mp found
    rw [raised_queueStatsCommands, present]
    rfl
  · intro queue found
    rw [Option.map_eq_none_iff.mp found]
    simp [StatsMetric.all, QueueResultStats.read]

theorem counts_statsCommands {pending : PendingStats} {command : MetricsCommand}
    (member : command ∈ statsCommands storage pending) :
    command.Counts ∧ command.bucketIncrements = [] := by
  obtain ⟨entry, _, inside⟩ := List.mem_flatMap.mp member
  exact counts_queueStatsCommands storage inside

theorem PendingStats.Holds.balance_contents {pending : PendingStats} {log : MetricsLog}
    (holds : pending.Holds log)
    (fits : ∀ place, balance (log.flatMap statsPostings) place < 2 ^ 63) (place : StatsPlace) :
    balance (pending.keys.flatMap fun queue => StatsMetric.all.map fun metric =>
        (StatsPlace.mk queue metric, ((pending.get queue).getD {}).read metric)) place =
      balance (log.flatMap statsPostings) place := by
  have inside := fits place
  obtain ⟨queue, metric⟩ := place
  have table : balance (pending.keys.flatMap fun queue => StatsMetric.all.map fun metric =>
        (StatsPlace.mk queue metric, ((pending.get queue).getD {}).read metric))
      ⟨queue, metric⟩ = ((pending.get queue).getD {}).read metric := by
    apply balance_table statsPlace_injective (by decide) pending.nodup queue metric.mem_all
    intro outside
    rw [JobMetricsBuffer.absent_of_notMem outside]
    cases metric <;> rfl
  rw [table, holds.read]
  unfold i64Max
  omega

theorem flushStats_grows {pending : PendingStats} {store : MetricsStore} {log : MetricsLog}
    (holds : pending.Holds log) (room : store.RoomFor (recordedStats storage.keys log))
    (fits : ∀ place, balance (log.flatMap statsPostings) place < 2 ^ 63) :
    ∃ after, runMetrics (storage.flushResultStats pending) store = (some (.ok ()), after) ∧
      store.Grown after (recordedStats storage.keys log) [] := by
  have added : ∀ address,
      balance ((statsCommands storage pending).flatMap MetricsCommand.increments) address =
        balance (recordedStats storage.keys log) address := by
    intro address
    unfold balance recordedStats
    rw [raised_statsCommands storage, raised_map]
    exact raised_eq_of_balance_eq (holds.balance_contents fits) _
  have noBuckets :
      (statsCommands storage pending).flatMap MetricsCommand.bucketIncrements = [] := by
    apply List.flatMap_eq_nil_iff.mpr
    intro command member
    exact (counts_statsCommands storage member).2
  have commandsRoom : store.RoomFor
      ((statsCommands storage pending).flatMap MetricsCommand.increments) := by
    intro address
    rw [added]
    exact room address
  obtain ⟨after, ran, grown⟩ := MetricsStore.Grown.batch
    (fun _ member => (counts_statsCommands storage member).1) commandsRoom (by
      intro address
      rw [noBuckets]
      exact Nat.two_pow_pos 63)
  rw [noBuckets] at grown
  refine ⟨after, ?_, grown.congr added fun _ => rfl⟩
  rw [flushResultStats_eq]
  exact ran

end Flush

end Oxana
