import Oxana.KeyedList
import Oxana.QueueDiscovery
import Oxana.MetricsCore

/-!
The queue statistics of `stats.rs` and `build_queue_stats` of `storage_internal.rs`.  A
reading of the stats hash is the map `hgetall` returns; `LLEN` and `LINDEX` are read off the
whole list.  Latencies are in microseconds, before they become floating point numbers, and
the rates, which are such numbers only, are left out.
-/

namespace Oxana

abbrev StatsHash := SparseMap String (Option Int64) none

def queueLengthSnapshotTtlSecs : Int := 120

structure QueueCounters where
  processed : Int64
  succeeded : Int64
  panicked : Int64
  failed : Int64

def QueueCounters.zero : QueueCounters := ⟨0, 0, 0, 0⟩

-- A sum that leaves `i64` wraps, as it does in a release build.
def QueueCounters.add (counters : QueueCounters) (statKey : String) (value : Int64) :
    QueueCounters :=
  match statKey with
  | "processed" => { counters with processed := counters.processed + value }
  | "succeeded" => { counters with succeeded := counters.succeeded + value }
  | "panicked" => { counters with panicked := counters.panicked + value }
  | "failed" => { counters with failed := counters.failed + value }
  | _ => counters

structure DynamicQueueStats where
  suffix : String
  enqueued : Nat
  counters : QueueCounters
  latencyMicros : Int

structure QueueStats where
  key : String
  enqueued : Nat
  counters : QueueCounters
  latencyMicros : Int
  queues : List DynamicQueueStats

def DynamicQueueStats.new (suffix : String) : DynamicQueueStats where
  suffix := suffix
  enqueued := 0
  counters := .zero
  latencyMicros := 0

def QueueStats.new (key : String) : QueueStats where
  key := key
  enqueued := 0
  counters := .zero
  latencyMicros := 0
  queues := []

structure QueueLengthSnapshot where
  enqueued : Option Int64
  refreshedAt : Option Int64
  deriving DecidableEq

abbrev QueueLengthSnapshots := SparseMap String QueueLengthSnapshot ⟨none, none⟩

/-! The keys. -/

def statsKeyParts (key : String) : Option (String × String) := rsplitOnce ':' key

/-- `splitn(2, '#')`, whose first part always exists. -/
def splitQueueStatsKey (queueFullKey : String) : String × Option String :=
  match splitOnce '#' queueFullKey with
  | some (queueKey, queueDynamicKey) => (queueKey, some queueDynamicKey)
  | none => (queueFullKey, none)

def statsKeyMatchesFilter (queueFullKey : String) (queues : List String) : Bool :=
  let baseKey := ((splitOnce '#' queueFullKey).map Prod.fst).getD queueFullKey
  queues.any fun queue =>
    let queueBase := ((splitOnce '#' queue).map Prod.fst).getD queue
    queueBase == baseKey || queue == queueFullKey

/-! Reading the hash. -/

structure StatsReadings where
  values : List (String × String × Int64)
  snapshots : QueueLengthSnapshots

def StatsReadings.note (filter : Bool) (queues : List String) (readings : StatsReadings)
    (field : String × Int64) : StatsReadings :=
  match statsKeyParts field.1 with
  | none => readings
  | some (queueFullKey, statKey) =>
      if filter && !statsKeyMatchesFilter queueFullKey queues then readings
      else
        let snapshot := readings.snapshots.get queueFullKey
        match statKey with
        | "enqueued" => { readings with
            snapshots := readings.snapshots.set queueFullKey
              { snapshot with enqueued := some field.2 } }
        | "enqueued_at" => { readings with
            snapshots := readings.snapshots.set queueFullKey
              { snapshot with refreshedAt := some field.2 } }
        | _ => { readings with
            values := readings.values ++ [(queueFullKey, statKey, field.2)] }

-- The difference saturates in the source; the bound is far from both ends of `i64`.
def QueueLengthSnapshot.fresh (snapshot : QueueLengthSnapshot) (now : Int64) : Option Nat :=
  match snapshot.refreshedAt with
  | none => none
  | some refreshedAt =>
      if queueLengthSnapshotTtlSecs < now.toInt - refreshedAt.toInt then none
      else
        match snapshot.enqueued with
        | none => none
        | some enqueued => if 0 ≤ enqueued.toInt then some enqueued.toInt.toNat else none

def freshQueueLengthSnapshot (snapshots : QueueLengthSnapshots) (queue : String) (now : Int64) :
    Option Nat :=
  (snapshots.get queue).fresh now

/-! The entries. -/

def DynamicQueueStats.addValue (statKey : String) (value : Int64) (stats : DynamicQueueStats) :
    DynamicQueueStats :=
  { stats with counters := stats.counters.add statKey value }

def QueueStats.addValue (queueDynamicKey : Option String) (statKey : String) (value : Int64)
    (stats : QueueStats) : QueueStats :=
  { stats with
    counters := stats.counters.add statKey value
    queues := match queueDynamicKey with
      | none => stats.queues
      | some suffix => KeyedList.upsert DynamicQueueStats.suffix suffix (.new suffix)
          (DynamicQueueStats.addValue statKey value) stats.queues }

def addQueueValue (map : List QueueStats) (entry : String × String × Int64) : List QueueStats :=
  let (queueKey, queueDynamicKey) := splitQueueStatsKey entry.1
  KeyedList.upsert QueueStats.key queueKey (.new queueKey)
    (QueueStats.addValue queueDynamicKey entry.2.1 entry.2.2) map

def QueueStats.ensureDynamic (queueDynamicKey : Option String) (stats : QueueStats) : QueueStats :=
  { stats with
    queues := match queueDynamicKey with
      | none => stats.queues
      | some suffix =>
          if stats.queues.any fun queue => queue.suffix == suffix then stats.queues
          else stats.queues ++ [.new suffix] }

def ensureQueueStatsEntry (map : List QueueStats) (queueFullKey : String) : List QueueStats :=
  let (queueKey, queueDynamicKey) := splitQueueStatsKey queueFullKey
  KeyedList.upsert QueueStats.key queueKey (.new queueKey)
    (QueueStats.ensureDynamic queueDynamicKey) map

namespace StorageInternal

def enqueuedCountWConn (storage : StorageInternal) (queue : String) : Redis Nat := do
  let ids : List JobId ← ask (.lrange (storage.namespaceQueue queue))
  pure ids.length

def latencyMicrosWConn (storage : StorageInternal) (now : Int) (queue : String) : Redis Int := do
  let ids : List JobId ← ask (.lrange (storage.namespaceQueue queue))
  match ids.getLast? with
  | none => pure 0
  | some id => do
      let envelope ← getJob id
      match envelope with
      | none => pure 0
      | some found =>
          pure (now - (if 0 < found.metadata.scheduledAt then found.metadata.scheduledAt
            else found.metadata.createdAt))

def enqueuedOrSnapshot (storage : StorageInternal) (now : Int64)
    (snapshots : QueueLengthSnapshots) (queue : String) : Redis Nat :=
  match freshQueueLengthSnapshot snapshots queue now with
  | some enqueued => pure enqueued
  | none => storage.enqueuedCountWConn queue

/-- `clock` is the time in microseconds when the latency of a queue is read. -/
def measureQueue (storage : StorageInternal) (clock : String → Int) (now : Int64)
    (snapshots : QueueLengthSnapshots) (queue : String) : Redis (Nat × Int) := do
  let enqueued ← storage.enqueuedOrSnapshot now snapshots queue
  let latency ← storage.latencyMicrosWConn (clock queue) queue
  pure (enqueued, latency)

def measureDynamic (storage : StorageInternal) (clock : String → Int) (now : Int64)
    (snapshots : QueueLengthSnapshots) (key : String) :
    List DynamicQueueStats → Redis (List DynamicQueueStats)
  | [] => pure []
  | queue :: rest => do
      let measured ← storage.measureQueue clock now snapshots (key ++ "#" ++ queue.suffix)
      let others ← measureDynamic storage clock now snapshots key rest
      pure ({ queue with enqueued := measured.1, latencyMicros := measured.2 } :: others)

def measure (storage : StorageInternal) (clock : String → Int) (now : Int64)
    (snapshots : QueueLengthSnapshots) (value : QueueStats) : Redis QueueStats :=
  if value.queues.isEmpty then do
    let measured ← storage.measureQueue clock now snapshots value.key
    pure { value with enqueued := measured.1, latencyMicros := measured.2 }
  else do
    let queues ← storage.measureDynamic clock now snapshots value.key value.queues
    pure { value with
      enqueued := queues.foldl (fun total queue => total + queue.enqueued) value.enqueued
      latencyMicros := queues.foldl (fun longest queue => max longest queue.latencyMicros)
        value.latencyMicros
      queues := KeyedList.sortBy DynamicQueueStats.suffix queues }

def measureAll (storage : StorageInternal) (clock : String → Int) (now : Int64)
    (snapshots : QueueLengthSnapshots) : List QueueStats → Redis (List QueueStats)
  | [] => pure []
  | value :: rest => do
      let measured ← storage.measure clock now snapshots value
      let others ← measureAll storage clock now snapshots rest
      pure (measured :: others)

def statsReadings (storage : StorageInternal) (stats : StatsHash) (queues : List String)
    (filter : Bool) : StatsReadings :=
  ((storage.order.arrange stats.keys).filterMap fun key =>
    (stats.get key).map fun value => (key, value)).foldl (StatsReadings.note filter queues)
    { values := queues.map fun queue => (queue, "processed", 0), snapshots := .empty }

def queueEntries (storage : StorageInternal) (now : Int64) (readings : StatsReadings) :
    List QueueStats :=
  ((storage.order.arrange readings.snapshots.keys).filter fun queue =>
    (freshQueueLengthSnapshot readings.snapshots queue now).any fun enqueued =>
      decide (0 < enqueued)).foldl ensureQueueStatsEntry (readings.values.foldl addQueueValue [])

def buildQueueStats (storage : StorageInternal) (now : Int64) (clock : String → Int)
    (stats : StatsHash) (queues : List String) (filter : Bool) : Redis (List QueueStats) := do
  let readings := storage.statsReadings stats queues filter
  let values ← storage.measureAll clock now readings.snapshots
    (storage.order.arrange (storage.queueEntries now readings))
  pure (KeyedList.sortBy QueueStats.key values)

def statsQueues (storage : StorageInternal) (now : Int64) (clock : String → Int)
    (stats : StatsHash) : Redis (List QueueStats) := do
  let queues ← storage.queues "*"
  storage.buildQueueStats now clock stats queues false

end StorageInternal

structure StatsTotals where
  enqueued : Nat
  processed : Int64
  failed : Int64
  latencyMicrosMax : Int

def StatsTotals.add (totals : StatsTotals) (value : QueueStats) : StatsTotals where
  enqueued := totals.enqueued + value.enqueued
  processed := totals.processed + value.counters.processed
  failed := totals.failed + value.counters.failed
  latencyMicrosMax := value.queues.foldl (fun longest queue => max longest queue.latencyMicros)
    (max totals.latencyMicrosMax value.latencyMicros)

def StorageInternal.stats (storage : StorageInternal) (now : Int64) (clock : String → Int)
    (stats : StatsHash) : Redis (StatsTotals × List QueueStats) := do
  let values ← storage.statsQueues now clock stats
  pure (values.foldl StatsTotals.add ⟨0, 0, 0, 0⟩, values)

end Oxana
