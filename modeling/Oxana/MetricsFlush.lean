import Oxana.MetricsLedger

/-!
A flush moves the amounts of a buffer into Redis: every command of its pipeline succeeds
as long as the counters fit, the counters grow by what the buffer holds, and the fields of
the histograms grow up to their largest value.
-/

namespace Oxana

open Postings Program

def MetricsCommand.increments : MetricsCommand → List ((String × String) × Nat)
  | .hincr key field increment => [((key, field), increment.toNat)]
  | _ => []

def BitfieldOp.increment (key : String) : BitfieldOp → Option ((String × Nat) × Nat)
  | .incrBy index value => some ((key, index), value)
  | _ => none

def MetricsCommand.bucketIncrements : MetricsCommand → List ((String × Nat) × Nat)
  | .bitfield key ops => ops.filterMap (BitfieldOp.increment key)
  | _ => []

/-- The operations after the leading `OVERFLOW SAT` are increments. -/
def MetricsCommand.Counts : MetricsCommand → Prop
  | .hincr _ _ increment => 0 < increment
  | .expire _ _ => True
  | .bitfield _ ops => ∃ steps : List (Nat × Nat),
      ops = .overflowSat :: steps.map fun step => .incrBy step.1 step.2
  | _ => False

/-! The commands add to the counters. -/

theorem balance_singleton [DecidableEq α] (address other : α) (amount : Nat) :
    balance [(address, amount)] other = if other = address then amount else 0 := by
  by_cases same : other = address
  · simp [balance, same]
  · simp [balance, same, Ne.symm same]

/-- The postings are added to the store; a histogram field stops at `u16::MAX`. -/
structure MetricsStore.Grown (before after : MetricsStore)
    (counted : List ((String × String) × Nat)) (bucketed : List ((String × Nat) × Nat)) :
    Prop where
  counter : ∀ address, (after.counters.get address).getD 0 =
    (before.counters.get address).getD 0 + (balance counted address : Int)
  listed : ∀ address value, after.counters.get address = some value →
    before.counters.get address = some value ∨ 0 < balance counted address
  bucket : ∀ address, before.histograms.get address ≤ 65535 →
    after.histograms.get address =
      min (before.histograms.get address + balance bucketed address) 65535

def MetricsStore.RoomFor (store : MetricsStore) (counted : List ((String × String) × Nat)) :
    Prop :=
  ∀ address, 0 < balance counted address → -2 ^ 63 ≤ (store.counters.get address).getD 0 ∧
    (store.counters.get address).getD 0 + (balance counted address : Int) < 2 ^ 63

theorem bitfieldStep_fold {key : String} (steps : List (Nat × Nat)) {state : BitfieldState}
    (saturates : state.saturates = true) {address : String × Nat}
    (small : state.fields.get address ≤ 65535) :
    ((steps.map fun step => BitfieldOp.incrBy step.1 step.2).foldl
        (bitfieldStep key) state).fields.get address =
      min (state.fields.get address +
        balance (steps.map fun step => ((key, step.1), step.2)) address) 65535 := by
  induction steps generalizing state with
  | nil => exact (Nat.min_eq_left small).symm
  | cons step rest ih =>
      have next : (bitfieldStep key state (.incrBy step.1 step.2)).fields.get address =
          min (state.fields.get address + balance [((key, step.1), step.2)] address) 65535 := by
        rw [balance_singleton]
        simp only [bitfieldStep, saturates, if_true, SparseMap.get_set]
        split
        · rename_i same
          rw [same]
        · exact (Nat.min_eq_left small).symm
      have kept : (bitfieldStep key state (.incrBy step.1 step.2)).saturates = true := saturates
      have nextSmall : (bitfieldStep key state (.incrBy step.1 step.2)).fields.get address ≤
          65535 := by
        rw [next]
        exact Nat.min_le_right _ _
      have whole := balance_append [((key, step.1), step.2)]
        (rest.map fun step => ((key, step.1), step.2)) address
      rw [List.map_cons, List.foldl_cons, ih kept nextSmall, next, List.map_cons]
      rw [List.singleton_append] at whole
      omega

namespace MetricsStore.Grown

variable {store before middle after : MetricsStore}
  {counted more : List ((String × String) × Nat)}
  {bucketed moreBuckets : List ((String × Nat) × Nat)}

theorem refl (store : MetricsStore) : store.Grown store [] [] where
  counter := fun _ => (Int.add_zero _).symm
  listed := fun _ _ found => .inl found
  bucket := fun _ small => (Nat.min_eq_left small).symm

theorem trans (first : before.Grown middle counted bucketed)
    (second : middle.Grown after more moreBuckets) :
    before.Grown after (counted ++ more) (bucketed ++ moreBuckets) where
  counter := by
    intro address
    have one := first.counter address
    have two := second.counter address
    rw [balance_append]
    omega
  listed := by
    intro address value found
    rw [balance_append]
    rcases second.listed address value found with kept | raised
    · rcases first.listed address value kept with kept | raised
      · exact .inl kept
      · exact .inr (by omega)
    · exact .inr (by omega)
  bucket := by
    intro address small
    have one := first.bucket address small
    have two := second.bucket address (by omega)
    rw [balance_append]
    omega

theorem hincr {key field : String} {increment : Int}
    (room : store.RoomFor [((key, field), increment.toNat)])
    (positive : 0 < increment) :
    ∃ after, metricsExec (.hincr key field increment) store = (some (.ok ()), after) ∧
      store.Grown after [((key, field), increment.toNat)] [] := by
  have here := room (key, field)
  rw [balance_singleton, if_pos rfl] at here
  have bounds := here (by omega)
  have inside : -2 ^ 63 ≤ (store.counters.get (key, field)).getD 0 + increment ∧
      (store.counters.get (key, field)).getD 0 + increment < 2 ^ 63 := by
    omega
  refine ⟨_, if_pos inside, ?_, ?_, fun address small => (Nat.min_eq_left small).symm⟩
  · intro address
    rw [balance_singleton]
    simp only [SparseMap.get_set]
    split
    · rename_i same
      rw [same, Option.getD_some]
      omega
    · exact (Int.add_zero _).symm
  · intro address value found
    rw [balance_singleton]
    simp only [SparseMap.get_set] at found
    split at found
    · rename_i same
      rw [if_pos same]
      exact .inr (by omega)
    · exact .inl found

theorem bitfield (store : MetricsStore) {key : String} (steps : List (Nat × Nat))
    (fits : ∀ address, balance (steps.map fun step => ((key, step.1), step.2)) address < 2 ^ 63) :
    ∃ replies after, metricsExec (.bitfield key
        (.overflowSat :: steps.map fun step => .incrBy step.1 step.2)) store =
          (some (.ok replies), after) ∧
      store.Grown after [] (steps.map fun step => ((key, step.1), step.2)) := by
  have readable : (BitfieldOp.overflowSat ::
      steps.map fun step => BitfieldOp.incrBy step.1 step.2).all BitfieldOp.readable = true := by
    rw [List.all_cons, List.all_map, Bool.and_eq_true, List.all_eq_true]
    refine ⟨rfl, ?_⟩
    intro step member
    have small : step.2 ≤ balance (steps.map fun step => ((key, step.1), step.2))
        (key, step.1) :=
      le_balance (List.mem_map_of_mem (f := fun step => ((key, step.1), step.2)) member)
    exact decide_eq_true (Nat.lt_of_le_of_lt small (fits (key, step.1)))
  refine ⟨_, _, if_pos readable, fun address => (Int.add_zero _).symm,
    fun _ _ found => .inl found, ?_⟩
  intro address small
  exact bitfieldStep_fold steps rfl small

theorem exec {command : MetricsCommand} (counts : command.Counts)
    (room : store.RoomFor command.increments)
    (bucketsFit : ∀ address, balance command.bucketIncrements address < 2 ^ 63) :
    ∃ reply after, metricsExec command store = (some (.ok reply), after) ∧
      store.Grown after command.increments command.bucketIncrements := by
  cases command with
  | hincr key field increment =>
      obtain ⟨after, ran, grown⟩ := hincr room counts
      exact ⟨(), after, ran, grown⟩
  | expire key seconds => exact ⟨(), store, rfl, refl store⟩
  | bitfield key ops =>
      obtain ⟨steps, rfl⟩ := counts
      have listed : (MetricsCommand.bitfield key (.overflowSat ::
          steps.map fun step => .incrBy step.1 step.2)).bucketIncrements =
            steps.map fun step => ((key, step.1), step.2) := by
        change (steps.map fun step => BitfieldOp.incrBy step.1 step.2).filterMap
          (BitfieldOp.increment key) = _
        rw [List.filterMap_map]
        exact congrFun List.filterMap_eq_map steps
      rw [listed] at bucketsFit ⊢
      obtain ⟨replies, after, ran, grown⟩ := bitfield store steps bucketsFit
      exact ⟨replies, after, ran, grown⟩
  | hgetall key => exact counts.elim
  | hget key field => exact counts.elim

theorem batch {commands : List MetricsCommand} (counts : ∀ command ∈ commands, command.Counts)
    (room : store.RoomFor (commands.flatMap MetricsCommand.increments))
    (bucketsFit : ∀ address,
      balance (commands.flatMap MetricsCommand.bucketIncrements) address < 2 ^ 63) :
    ∃ after, runMetrics (Program.batch commands) store = (some (.ok ()), after) ∧
      store.Grown after (commands.flatMap MetricsCommand.increments)
        (commands.flatMap MetricsCommand.bucketIncrements) := by
  unfold Program.batch
  induction commands generalizing store with
  | nil => exact ⟨store, rfl, refl store⟩
  | cons command rest ih =>
      simp only [List.flatMap_cons] at room bucketsFit ⊢
      have small : store.RoomFor command.increments := by
        intro address raised
        have whole := room address
        rw [balance_append] at whole
        omega
      have smallBuckets : ∀ address, balance command.bucketIncrements address < 2 ^ 63 := by
        intro address
        have whole := bucketsFit address
        rw [balance_append] at whole
        omega
      obtain ⟨reply, next, ran, grown⟩ :=
        exec (counts command List.mem_cons_self) small smallBuckets
      have restRoom : next.RoomFor (rest.flatMap MetricsCommand.increments) := by
        intro address raised
        have whole := room address
        have moved := grown.counter address
        rw [balance_append] at whole
        omega
      have restBuckets : ∀ address,
          balance (rest.flatMap MetricsCommand.bucketIncrements) address < 2 ^ 63 := by
        intro address
        have whole := bucketsFit address
        rw [balance_append] at whole
        omega
      obtain ⟨after, finished, later⟩ :=
        ih (fun other member => counts other (List.mem_cons_of_mem _ member)) restRoom
          restBuckets
      refine ⟨after, ?_, grown.trans later⟩
      unfold runMetrics at finished ⊢
      simp only [batchFrom, run, ran]
      exact finished

theorem congr {others : List ((String × String) × Nat)}
    {otherBuckets : List ((String × Nat) × Nat)} (grown : before.Grown after counted bucketed)
    (same : ∀ address, balance counted address = balance others address)
    (sameBuckets : ∀ address, balance bucketed address = balance otherBuckets address) :
    before.Grown after others otherBuckets where
  counter := fun address => by rw [grown.counter, same]
  listed := fun address value found => by
    rw [← same]
    exact grown.listed address value found
  bucket := fun address small => by rw [grown.bucket address small, sameBuckets]

end MetricsStore.Grown

/-! What a store holds. -/

structure MetricsStore.Tallied (store : MetricsStore)
    (counted : List ((String × String) × Nat)) (bucketed : List ((String × Nat) × Nat)) :
    Prop where
  counter : ∀ address, (store.counters.get address).getD 0 = (balance counted address : Int)
  positive : ∀ address value, store.counters.get address = some value → 0 < value
  bucket : ∀ address, store.histograms.get address = min (balance bucketed address) 65535

theorem MetricsStore.Tallied.grow {store after : MetricsStore}
    {counted more : List ((String × String) × Nat)}
    {bucketed moreBuckets : List ((String × Nat) × Nat)}
    (tallied : store.Tallied counted bucketed) (grown : store.Grown after more moreBuckets) :
    after.Tallied (counted ++ more) (bucketed ++ moreBuckets) where
  counter := by
    intro address
    rw [grown.counter, tallied.counter, balance_append]
    omega
  positive := by
    intro address value found
    rcases grown.listed address value found with kept | raised
    · exact tallied.positive address value kept
    · have reads := grown.counter address
      rw [found, Option.getD_some, tallied.counter] at reads
      omega
  bucket := by
    intro address
    have held := tallied.bucket address
    rw [grown.bucket address (by omega), held, balance_append]
    omega

/-! The commands of a flush. -/

theorem redisMetricIncrement_of_fits {value : Nat} (fits : value < 2 ^ 63) :
    redisMetricIncrement value = value :=
  if_pos fits

theorem raised_hincrPositive (select : String × String → Bool) (key field : String) {value : Nat}
    (fits : value < 2 ^ 63) :
    raised select ((hincrPositive key field value).flatMap MetricsCommand.increments) =
      if select (key, field) then value else 0 := by
  unfold hincrPositive
  split
  · simp [MetricsCommand.increments, redisMetricIncrement_of_fits fits]
  · rename_i zero
    have none : value = 0 := by omega
    simp [none]

theorem counts_hincrPositive {key field : String} {value : Nat} {command : MetricsCommand}
    (member : command ∈ hincrPositive key field value) : command.Counts := by
  unfold hincrPositive at member
  split at member
  · rw [List.mem_singleton] at member
    subst member
    change 0 < redisMetricIncrement value
    unfold redisMetricIncrement
    split <;> omega
  · cases member

theorem bucketIncrements_hincrPositive (key field : String) (value : Nat) :
    (hincrPositive key field value).flatMap MetricsCommand.bucketIncrements = [] := by
  unfold hincrPositive
  split <;> rfl

theorem filterMap_histogramArgs (key : String) (buckets : HistogramCounts) :
    (histogramBitfieldIncrementArgs buckets).filterMap (BitfieldOp.increment key) =
      (List.finRange histogramBucketCount).filterMap fun bucket =>
        if buckets bucket = 0 then none else some ((key, (bucket : Nat)), buckets bucket) := by
  unfold histogramBitfieldIncrementArgs
  rw [List.filterMap_cons_none rfl, List.filterMap_filterMap]
  apply List.filterMap_congr
  intro bucket _
  split <;> rfl

theorem raised_histogramArgs (select : String × Nat → Bool) (key : String)
    (buckets : HistogramCounts) :
    raised select ((histogramBitfieldIncrementArgs buckets).filterMap
        (BitfieldOp.increment key)) =
      raised select ((List.finRange histogramBucketCount).map fun bucket =>
        ((key, bucket.val), buckets bucket)) := by
  rw [filterMap_histogramArgs]
  induction List.finRange histogramBucketCount with
  | nil => rfl
  | cons bucket rest ih =>
      rw [List.map_cons, raised_cons, List.filterMap_cons, ← ih]
      split
      · rename_i none
        split at none
        · rename_i zero
          simp [zero]
        · cases none
      · rename_i posting found
        split at found
        · cases found
        · cases found
          rfl

section Flush

variable (storage : StorageInternal)

theorem counts_flushRecord {record : Int × MetricIdentity × PendingJobMetrics}
    {command : MetricsCommand} (member : command ∈ storage.flushRecord record) :
    command.Counts := by
  have bitfield : ∀ key, (MetricsCommand.bitfield key
      (histogramBitfieldIncrementArgs record.2.2.histogram)).Counts := by
    intro key
    refine ⟨(List.finRange histogramBucketCount).filterMap fun bucket =>
      if record.2.2.histogram bucket = 0 then none
      else some ((bucket : Nat), record.2.2.histogram bucket), ?_⟩
    unfold histogramBitfieldIncrementArgs
    rw [List.map_filterMap]
    congr 1
    apply List.filterMap_congr
    intro bucket _
    split <;> rfl
  simp only [StorageInternal.flushRecord, List.append_assoc, List.mem_append] at member
  rcases member with one | one | one | one | one | one | one | expire | rest
  case inr.inr.inr.inr.inr.inr.inr.inl =>
    rw [List.mem_singleton] at expire
    subst expire
    trivial
  case inr.inr.inr.inr.inr.inr.inr.inr =>
    split at rest
    · simp only [List.mem_cons, List.not_mem_nil, or_false] at rest
      rcases rest with rfl | rfl
      · exact bitfield _
      · trivial
    · cases rest
  all_goals exact counts_hincrPositive one

theorem counts_flushQueueRecord {record : Int × String × QueueCounterTotals}
    {command : MetricsCommand} (member : command ∈ storage.flushQueueRecord record) :
    command.Counts := by
  simp only [StorageInternal.flushQueueRecord, List.append_assoc, List.mem_append] at member
  rcases member with one | one | one | expire
  case inr.inr.inr =>
    rw [List.mem_singleton] at expire
    subst expire
    trivial
  all_goals exact counts_hincrPositive one

theorem raised_flushRecord (select : String × String → Bool) (minute : Int)
    (identity : MetricIdentity) {metrics : PendingJobMetrics}
    (fits : ∀ metric, metrics.read metric < 2 ^ 63) :
    raised select ((storage.flushRecord (minute, identity, metrics)).flatMap
        MetricsCommand.increments) =
      raised (fun place => select (place.address storage.keys)) (JobMetric.all.map fun metric =>
        (CounterPlace.job minute identity metric, metrics.read metric)) := by
  have histogram : ∀ (condition : Prop) [Decidable condition] (key : String)
      (ops : List BitfieldOp) (seconds : Int),
      (if condition then [MetricsCommand.bitfield key ops, .expire key seconds]
        else []).flatMap MetricsCommand.increments = [] := by
    intro condition _ key ops seconds
    split <;> rfl
  have processed : metrics.processed < 2 ^ 63 := fits .processed
  have failed : metrics.failed < 2 ^ 63 := fits .failed
  have panicked : metrics.panicked < 2 ^ 63 := fits .panicked
  have successful : metrics.successfulExecutions < 2 ^ 63 := fits .successfulExecutions
  have failedExecutions : metrics.failedExecutions < 2 ^ 63 := fits .failedExecutions
  have panickedExecutions : metrics.panickedExecutions < 2 ^ 63 := fits .panickedExecutions
  have executionMs : metrics.executionMs < 2 ^ 63 := fits .executionMs
  simp only [StorageInternal.flushRecord, List.flatMap_append, raised_append, histogram,
    raised_hincrPositive _ _ _ processed, raised_hincrPositive _ _ _ failed,
    raised_hincrPositive _ _ _ panicked, raised_hincrPositive _ _ _ successful,
    raised_hincrPositive _ _ _ failedExecutions, raised_hincrPositive _ _ _ panickedExecutions,
    raised_hincrPositive _ _ _ executionMs, JobMetric.all, List.map_cons, List.map_nil,
    raised_cons, raised_nil, CounterPlace.address, JobMetric.text, PendingJobMetrics.read,
    List.flatMap_cons, List.flatMap_nil, MetricsCommand.increments, List.append_nil]
  omega

theorem raised_flushQueueRecord (select : String × String → Bool) (minute : Int)
    (queue : String) {metrics : QueueCounterTotals}
    (fits : ∀ metric, metrics.read metric < 2 ^ 63) :
    raised select ((storage.flushQueueRecord (minute, queue, metrics)).flatMap
        MetricsCommand.increments) =
      raised (fun place => select (place.address storage.keys)) (QueueMetric.all.map fun metric =>
        (CounterPlace.queue minute queue metric, metrics.read metric)) := by
  have processed : metrics.processed < 2 ^ 63 := fits .processed
  have succeeded : metrics.succeeded < 2 ^ 63 := fits .succeeded
  have failed : metrics.failed < 2 ^ 63 := fits .failed
  simp only [StorageInternal.flushQueueRecord, List.flatMap_append, raised_append,
    raised_hincrPositive _ _ _ processed, raised_hincrPositive _ _ _ succeeded,
    raised_hincrPositive _ _ _ failed, QueueMetric.all, List.map_cons, List.map_nil,
    raised_cons, raised_nil, CounterPlace.address, QueueMetric.text, QueueCounterTotals.read,
    List.flatMap_cons, List.flatMap_nil, MetricsCommand.increments, List.append_nil]
  omega

theorem raised_flushRecord_buckets (select : String × Nat → Bool) (minute : Int)
    (identity : MetricIdentity) (metrics : PendingJobMetrics) :
    raised select ((storage.flushRecord (minute, identity, metrics)).flatMap
        MetricsCommand.bucketIncrements) =
      raised (fun place => select (place.address storage.keys))
        ((List.finRange histogramBucketCount).map fun bucket =>
          (BucketPlace.mk minute identity bucket, metrics.histogram bucket)) := by
  let key := storage.keys.metricsHistogramKey identity.worker minute
  let ops := histogramBitfieldIncrementArgs metrics.histogram
  have listed : (storage.flushRecord (minute, identity, metrics)).flatMap
      MetricsCommand.bucketIncrements = ops.filterMap (BitfieldOp.increment key) := by
    simp only [StorageInternal.flushRecord, List.flatMap_append,
      bucketIncrements_hincrPositive, List.nil_append, List.flatMap_cons, List.flatMap_nil,
      MetricsCommand.bucketIncrements]
    split
    · exact List.append_nil _
    · rename_i short
      -- Only the leading `OVERFLOW SAT` is there.
      have bare : ops = [.overflowSat] := by
        have length : ((List.finRange histogramBucketCount).filterMap fun bucket =>
            if metrics.histogram bucket = 0 then none
            else some (BitfieldOp.incrBy bucket (metrics.histogram bucket))).length = 0 := by
          simp only [histogramBitfieldIncrementArgs, List.length_cons] at short
          omega
        exact congrArg (List.cons BitfieldOp.overflowSat) (List.eq_nil_of_length_eq_zero length)
      rw [bare]
      rfl
  have placed : ((List.finRange histogramBucketCount).map fun bucket =>
      ((key, bucket.val), metrics.histogram bucket)) =
        ((List.finRange histogramBucketCount).map fun bucket =>
          (BucketPlace.mk minute identity bucket, metrics.histogram bucket)).map fun posting =>
            (posting.1.address storage.keys, posting.2) := by
    rw [List.map_map]
    rfl
  rw [listed, raised_histogramArgs, placed, raised_map]

theorem raised_flushQueueRecord_buckets (select : String × Nat → Bool)
    (record : Int × String × QueueCounterTotals) :
    raised select ((storage.flushQueueRecord record).flatMap
      MetricsCommand.bucketIncrements) = 0 := by
  simp only [StorageInternal.flushQueueRecord, List.flatMap_append,
    bucketIncrements_hincrPositive, List.nil_append, List.flatMap_cons, List.flatMap_nil,
    MetricsCommand.bucketIncrements, raised_nil]

def flushCommands (buffer : JobMetricsBuffer) : List MetricsCommand :=
  (buffer.records storage.order).flatMap storage.flushRecord ++
    (buffer.queueRecords storage.order).flatMap storage.flushQueueRecord

theorem flushJobMetrics_eq (buffer : JobMetricsBuffer) :
    storage.flushJobMetrics buffer = Program.batch (flushCommands storage buffer) := by
  have arranged : ∀ {α : Type}, storage.order.arrange ([] : List α) = [] :=
    (storage.order.perm []).eq_nil
  unfold StorageInternal.flushJobMetrics
  split
  · rename_i empty
    simp only [JobMetricsBuffer.isEmpty, Bool.and_eq_true, List.isEmpty_iff] at empty
    simp only [flushCommands, JobMetricsBuffer.records, JobMetricsBuffer.queueRecords, empty.1,
      empty.2, arranged, List.filterMap_nil, List.flatMap_nil, List.append_nil]
    rfl
  · rfl

theorem counts_flushCommands {buffer : JobMetricsBuffer} {command : MetricsCommand}
    (member : command ∈ flushCommands storage buffer) : command.Counts := by
  rcases List.mem_append.mp member with job | queue
  · obtain ⟨record, _, inside⟩ := List.mem_flatMap.mp job
    exact counts_flushRecord storage inside
  · obtain ⟨record, _, inside⟩ := List.mem_flatMap.mp queue
    exact counts_flushQueueRecord storage inside

section Buffer

variable {buffer : JobMetricsBuffer}

theorem raised_flushCommands (select : String × String → Bool)
    (fits : ∀ place, balance buffer.counterContents place < 2 ^ 63) :
    raised select ((flushCommands storage buffer).flatMap MetricsCommand.increments) =
      raised (fun place => select (place.address storage.keys)) buffer.counterContents := by
  unfold flushCommands JobMetricsBuffer.counterContents
  rw [List.flatMap_append, raised_append, raised_append, List.flatMap_assoc, List.flatMap_assoc]
  congr 1
  · apply raised_entries (storage.order.perm _)
    · intro key value found
      obtain ⟨metrics, present, rfl⟩ := Option.map_eq_some_iff.mp found
      have read : ∀ metric, metrics.read metric < 2 ^ 63 := by
        intro metric
        have below := fits (.job key.1 key.2 metric)
        rw [JobMetricsBuffer.balance_counterContents_job, present] at below
        exact below
      rw [raised_flushRecord storage select key.1 key.2 read, JobMetricsBuffer.jobContents,
        present]
      rfl
    · intro key found
      have none := Option.map_eq_none_iff.mp found
      rw [JobMetricsBuffer.jobContents, none]
      simp [JobMetric.all, PendingJobMetrics.read]
  · apply raised_entries (storage.order.perm _)
    · intro key value found
      obtain ⟨metrics, present, rfl⟩ := Option.map_eq_some_iff.mp found
      have read : ∀ metric, metrics.read metric < 2 ^ 63 := by
        intro metric
        have below := fits (.queue key.1 key.2 metric)
        rw [JobMetricsBuffer.balance_counterContents_queue, present] at below
        exact below
      rw [raised_flushQueueRecord storage select key.1 key.2 read,
        JobMetricsBuffer.queueContents, present]
      rfl
    · intro key found
      have none := Option.map_eq_none_iff.mp found
      rw [JobMetricsBuffer.queueContents, none]
      simp [QueueMetric.all, QueueCounterTotals.read]

theorem raised_flushCommands_buckets (select : String × Nat → Bool) :
    raised select ((flushCommands storage buffer).flatMap MetricsCommand.bucketIncrements) =
      raised (fun place => select (place.address storage.keys))
        (buffer.entries.keys.flatMap buffer.bucketContents) := by
  have queues : raised select ((buffer.queueRecords storage.order).flatMap fun record =>
      (storage.flushQueueRecord record).flatMap MetricsCommand.bucketIncrements) = 0 := by
    rw [raised_flatMap]
    apply List.sum_eq_zero
    intro amount member
    obtain ⟨record, _, rfl⟩ := List.mem_map.mp member
    exact raised_flushQueueRecord_buckets storage select record
  unfold flushCommands
  rw [List.flatMap_append, raised_append, List.flatMap_assoc, List.flatMap_assoc, queues,
    Nat.add_zero]
  apply raised_entries (storage.order.perm _)
  · intro key value found
    obtain ⟨metrics, present, rfl⟩ := Option.map_eq_some_iff.mp found
    rw [raised_flushRecord_buckets storage select key.1 key.2 metrics,
      JobMetricsBuffer.bucketContents, present]
    rfl
  · intro key found
    have none := Option.map_eq_none_iff.mp found
    rw [JobMetricsBuffer.bucketContents, none, raised]
    apply List.sum_eq_zero
    intro amount member
    simp only [List.map_map, List.mem_map] at member
    obtain ⟨bucket, _, rfl⟩ := member
    simp

end Buffer

end Flush

/-! What Redis holds after a log was flushed. -/

def recordedCounters (keys : StorageKeys) (log : MetricsLog) : List ((String × String) × Nat) :=
  (log.flatMap counterPostings).map fun posting => (posting.1.address keys, posting.2)

def recordedBuckets (keys : StorageKeys) (log : MetricsLog) : List ((String × Nat) × Nat) :=
  (log.flatMap bucketPostings).map fun posting => (posting.1.address keys, posting.2)

structure FitsCounters (log : MetricsLog) : Prop where
  counters : ∀ place, balance (log.flatMap counterPostings) place < 2 ^ 63
  buckets : ∀ place, balance (log.flatMap bucketPostings) place < 2 ^ 63

def MetricsStore.Records (store : MetricsStore) (keys : StorageKeys) (log : MetricsLog) : Prop :=
  store.Tallied (recordedCounters keys log) (recordedBuckets keys log)

theorem MetricsStore.records_empty (keys : StorageKeys) :
    MetricsStore.empty.Records keys [] where
  counter := fun _ => rfl
  positive := fun _ _ found => nomatch found
  bucket := fun _ => rfl

section Recorded

variable (given : String)

theorem balance_recordedCounters (log : MetricsLog) (place : CounterPlace) :
    balance (recordedCounters (StorageKeys.new given) log)
        (place.address (StorageKeys.new given)) =
      balance (log.flatMap counterPostings) place :=
  balance_map_of_injective (CounterPlace.address_injective given) _ place

theorem balance_recordedBuckets (log : MetricsLog) (place : BucketPlace) :
    balance (recordedBuckets (StorageKeys.new given) log)
        (place.address (StorageKeys.new given)) =
      balance (log.flatMap bucketPostings) place :=
  balance_map_of_injective (BucketPlace.address_injective given) _ place

theorem recordedCounters_append (keys : StorageKeys) (first second : MetricsLog) :
    recordedCounters keys (first ++ second) =
      recordedCounters keys first ++ recordedCounters keys second := by
  unfold recordedCounters
  rw [List.flatMap_append, List.map_append]

theorem recordedBuckets_append (keys : StorageKeys) (first second : MetricsLog) :
    recordedBuckets keys (first ++ second) =
      recordedBuckets keys first ++ recordedBuckets keys second := by
  unfold recordedBuckets
  rw [List.flatMap_append, List.map_append]

theorem FitsCounters.recordedCounters {log : MetricsLog} (fits : FitsCounters log)
    (address : String × String) :
    balance (recordedCounters (StorageKeys.new given) log) address < 2 ^ 63 := by
  by_cases placed : ∃ place : CounterPlace, place.address (StorageKeys.new given) = address
  · obtain ⟨place, rfl⟩ := placed
    rw [balance_recordedCounters]
    exact fits.counters place
  · rw [Oxana.recordedCounters,
      balance_map_eq_zero (fun place same => placed ⟨place, same⟩)]
    decide

theorem FitsCounters.recordedBuckets {log : MetricsLog} (fits : FitsCounters log)
    (address : String × Nat) :
    balance (recordedBuckets (StorageKeys.new given) log) address < 2 ^ 63 := by
  by_cases placed : ∃ place : BucketPlace, place.address (StorageKeys.new given) = address
  · obtain ⟨place, rfl⟩ := placed
    rw [balance_recordedBuckets]
    exact fits.buckets place
  · rw [Oxana.recordedBuckets,
      balance_map_eq_zero (fun place same => placed ⟨place, same⟩)]
    decide

end Recorded

theorem FitsCounters.of_append {first second : MetricsLog}
    (fits : FitsCounters (first ++ second)) : FitsCounters first ∧ FitsCounters second := by
  have counters : ∀ place, balance (first.flatMap counterPostings) place +
      balance (second.flatMap counterPostings) place < 2 ^ 63 := by
    intro place
    have whole := fits.counters place
    rw [List.flatMap_append, balance_append] at whole
    exact whole
  have buckets : ∀ place, balance (first.flatMap bucketPostings) place +
      balance (second.flatMap bucketPostings) place < 2 ^ 63 := by
    intro place
    have whole := fits.buckets place
    rw [List.flatMap_append, balance_append] at whole
    exact whole
  refine ⟨⟨?_, ?_⟩, ⟨?_, ?_⟩⟩
  · intro place
    have whole := counters place
    omega
  · intro place
    have whole := buckets place
    omega
  · intro place
    have whole := counters place
    omega
  · intro place
    have whole := buckets place
    omega

theorem flush_grows (storage : StorageInternal) {buffer : JobMetricsBuffer}
    {store : MetricsStore} {log : MetricsLog} (holds : buffer.Holds log)
    (room : store.RoomFor (recordedCounters storage.keys log)) (fits : FitsCounters log) :
    ∃ after, runMetrics (storage.flushJobMetrics buffer) store = (some (.ok ()), after) ∧
      store.Grown after (recordedCounters storage.keys log)
        (recordedBuckets storage.keys log) := by
  have contents := holds.balance_counterContents fits.counters
  have bucketContents := holds.balance_bucketContents fits.buckets
  have contentsFit : ∀ place, balance buffer.counterContents place < 2 ^ 63 := by
    intro place
    rw [contents]
    exact fits.counters place
  have added : ∀ address,
      balance ((flushCommands storage buffer).flatMap MetricsCommand.increments) address =
        balance (recordedCounters storage.keys log) address := by
    intro address
    unfold balance recordedCounters
    rw [raised_flushCommands storage _ contentsFit, raised_eq_of_balance_eq contents, raised_map]
  have addedBuckets : ∀ address,
      balance ((flushCommands storage buffer).flatMap MetricsCommand.bucketIncrements) address =
        balance (recordedBuckets storage.keys log) address := by
    intro address
    unfold balance recordedBuckets
    rw [raised_flushCommands_buckets storage, raised_eq_of_balance_eq bucketContents, raised_map]
  have commandsRoom : store.RoomFor
      ((flushCommands storage buffer).flatMap MetricsCommand.increments) := by
    intro address
    rw [added]
    exact room address
  have belowBuckets : ∀ address, balance
      ((flushCommands storage buffer).flatMap MetricsCommand.bucketIncrements) address <
        2 ^ 63 := by
    intro address
    rw [addedBuckets]
    exact fits.recordedBuckets storage.given address
  obtain ⟨after, ran, grown⟩ := MetricsStore.Grown.batch
    (fun _ member => counts_flushCommands storage member) commandsRoom belowBuckets
  refine ⟨after, ?_, grown.congr added addedBuckets⟩
  rw [flushJobMetrics_eq]
  exact ran

/-- A flush adds the results its buffer recorded to those Redis has. -/
theorem flush_records (storage : StorageInternal) {buffer : JobMetricsBuffer}
    {store : MetricsStore} {before log : MetricsLog} (holds : buffer.Holds log)
    (records : store.Records storage.keys before) (fits : FitsCounters (before ++ log)) :
    ∃ after, runMetrics (storage.flushJobMetrics buffer) store = (some (.ok ()), after) ∧
      after.Records storage.keys (before ++ log) := by
  have room : store.RoomFor (recordedCounters storage.keys log) := by
    intro address _
    have whole := fits.recordedCounters storage.given address
    rw [recordedCounters_append, balance_append] at whole
    rw [records.counter]
    exact ⟨by omega, by exact_mod_cast whole⟩
  obtain ⟨after, ran, grown⟩ := flush_grows storage holds room fits.of_append.2
  refine ⟨after, ran, ?_⟩
  unfold MetricsStore.Records
  rw [recordedCounters_append, recordedBuckets_append]
  exact records.grow grown

theorem flushBatches_records (storage : StorageInternal) (batches : List MetricsLog)
    {store : MetricsStore} {before : MetricsLog} (records : store.Records storage.keys before)
    (fits : FitsCounters (before ++ batches.flatten)) :
    ∃ after, runMetrics (storage.flushBatches batches) store = (some (.ok ()), after) ∧
      after.Records storage.keys (before ++ batches.flatten) := by
  induction batches generalizing store before with
  | nil =>
      refine ⟨store, rfl, ?_⟩
      rw [List.flatten_nil, List.append_nil]
      exact records
  | cons log rest ih =>
      rw [List.flatten_cons, ← List.append_assoc] at fits ⊢
      obtain ⟨next, ran, recorded⟩ := flush_records storage
        (JobMetricsBuffer.recordAll_holds log) records fits.of_append.1
      obtain ⟨after, finished, final⟩ := ih recorded fits
      refine ⟨after, ?_, final⟩
      unfold runMetrics at ran finished ⊢
      rw [StorageInternal.flushBatches, bind_eq, run_bind, ran, resume_ok]
      exact finished

end Oxana
