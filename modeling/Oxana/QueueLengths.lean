import Mathlib
import Oxana.DashboardCounts
import Oxana.LastWrites

/-!
The lengths of the queues over the minutes of a window: what the collectors of all processes
write of them and what the dashboard makes of it.
-/

namespace Oxana

open LastWrites

/-! The series of the dashboard. -/

structure QueueLengthMetricsPoint where
  timestamp : Int
  enqueued : Nat
  deriving DecidableEq

structure QueueLengthMetricsSeries where
  queue : String
  series : List QueueLengthMetricsPoint
  deriving DecidableEq

structure QueueLengthMetricsSnapshot where
  startsAt : Int
  endsAt : Int
  minutes : Nat
  queues : List QueueLengthMetricsSeries

def QueueLengthMetricsSeries.peak (series : QueueLengthMetricsSeries) : Nat :=
  ((series.series.map QueueLengthMetricsPoint.enqueued).max?).getD 0

def QueueLengthMetricsSeries.sortsBefore (first second : QueueLengthMetricsSeries) : Bool :=
  ((compare second.peak first.peak).then (compare first.queue second.queue)).isLE

abbrev LengthSeries := SparseMap String (Option (List QueueLengthMetricsPoint)) none

-- `u64::try_from(raw_value).unwrap_or_default()` is `toNat`.
def recordLength (template : List QueueLengthMetricsPoint) (idx : Nat) (queues : LengthSeries)
    (entry : String × Int) : LengthSeries :=
  let series := (queues.get entry.1).getD template
  queues.set entry.1 (some (series.modify idx fun point =>
    { point with enqueued := entry.2.toNat }))

def seriesTemplate (minutes : List Int) : List QueueLengthMetricsPoint :=
  minutes.map fun minute => { timestamp := minute * 60, enqueued := 0 }

def queueLengthSeriesFromHashes (order : IterationOrder) (minutes : List Int)
    (hashes : List CounterHash) : List QueueLengthMetricsSeries :=
  let queues := hashes.zipIdx.foldl (fun queues indexed =>
    (order.arrange indexed.1).foldl (recordLength (seriesTemplate minutes) indexed.2) queues)
    (.empty : LengthSeries)
  ((order.arrange queues.keys).filterMap fun queue =>
    (queues.get queue).map fun series => { queue := queue, series := series }).mergeSort
      QueueLengthMetricsSeries.sortsBefore

namespace StorageInternal

variable (storage : StorageInternal)

def queueLengthMetricHashes (minutes : List Int) : Metrics (List CounterHash) :=
  Program.collect (fun minute => .hgetall (storage.keys.metricsQueueLengthKey minute))
    (fun _ reply => reply) minutes

def queueLengthMetrics (now : Int) (query : JobMetricsQuery) :
    Metrics QueueLengthMetricsSnapshot := do
  let minutes := metricMinutes now query
  let hashes ← storage.queueLengthMetricHashes minutes
  pure {
    startsAt := minutes.head?.getD 0 * 60
    endsAt := minutes.getLast?.getD 0 * 60
    minutes := minutes.length
    queues := queueLengthSeriesFromHashes storage.order minutes hashes }

end StorageInternal

/-! What the series show. -/

/-- Every queue with a length in the window once, a point for each minute, the queue that was
longest first. -/
structure ShowsLengths (minutes : List Int) (lengthAt : Int → String → Option Int)
    (shown : List QueueLengthMetricsSeries) : Prop where
  listed : ∀ queue, queue ∈ shown.map QueueLengthMetricsSeries.queue ↔
    ∃ minute ∈ minutes, (lengthAt minute queue).isSome
  points : ∀ series ∈ shown, series.series = minutes.map fun minute =>
    { timestamp := minute * 60, enqueued := ((lengthAt minute series.queue).getD 0).toNat }
  sorted : shown.Pairwise fun first second => second.peak < first.peak ∨
    second.peak = first.peak ∧ first.queue < second.queue

def lengthReadings (order : IterationOrder) (hashes : List (CounterHash × Nat)) :
    List ((String × Nat) × Int) :=
  hashes.flatMap fun indexed =>
    (order.arrange indexed.1).map fun entry => ((entry.1, indexed.2), entry.2)

def pointsOf (minutes : List Int) (readings : List ((String × Nat) × Int)) (queue : String) :
    List QueueLengthMetricsPoint :=
  minutes.mapIdx fun idx minute =>
    { timestamp := minute * 60, enqueued := ((last (queue, idx) readings).getD 0).toNat }

structure RecordedLengths (minutes : List Int) (readings : List ((String × Nat) × Int))
    (queues : LengthSeries) : Prop where
  present : ∀ queue, (∃ reading ∈ readings, reading.1.1 = queue) →
    queues.get queue = some (pointsOf minutes readings queue)
  absent : ∀ queue, (∀ reading ∈ readings, reading.1.1 ≠ queue) → queues.get queue = none

variable {minutes : List Int} {readings : List ((String × Nat) × Int)} {queues : LengthSeries}

theorem pointsOf_absent {queue : String} (absent : ∀ reading ∈ readings, reading.1.1 ≠ queue) :
    pointsOf minutes readings queue = seriesTemplate minutes := by
  have none : ∀ idx, last (queue, idx) readings = none := by
    intro idx
    cases found : last (queue, idx) readings with
    | none => rfl
    | some value => exact absurd rfl (absent _ (mem_of_last found))
  unfold pointsOf seriesTemplate
  apply List.ext_getElem?
  intro idx
  rw [List.getElem?_mapIdx, List.getElem?_map, none]
  rfl

theorem pointsOf_concat (idx : Nat) (queue : String) (value : Int) :
    pointsOf minutes (readings ++ [((queue, idx), value)]) queue =
      (pointsOf minutes readings queue).modify idx fun point =>
        { point with enqueued := value.toNat } := by
  apply List.ext_getElem?
  intro place
  rw [List.getElem?_modify]
  unfold pointsOf
  simp only [List.getElem?_mapIdx, last_concat, Prod.mk.injEq, true_and]
  by_cases here : idx = place
  · subst here
    cases minutes[idx]? with
    | none => rfl
    | some minute => simp
  · cases minutes[place]? with
    | none => rfl
    | some minute => simp [here]

theorem pointsOf_concat_of_ne {queue other : String} (idx : Nat) (value : Int)
    (different : other ≠ queue) :
    pointsOf minutes (readings ++ [((other, idx), value)]) queue =
      pointsOf minutes readings queue := by
  unfold pointsOf
  simp only [last_concat, Prod.mk.injEq, different, false_and, if_false]

theorem RecordedLengths.getD (recorded : RecordedLengths minutes readings queues)
    (queue : String) :
    (queues.get queue).getD (seriesTemplate minutes) = pointsOf minutes readings queue := by
  by_cases seen : ∃ reading ∈ readings, reading.1.1 = queue
  · rw [recorded.present queue seen, Option.getD_some]
  · have fresh : ∀ reading ∈ readings, reading.1.1 ≠ queue :=
      fun reading member same => seen ⟨reading, member, same⟩
    rw [recorded.absent queue fresh, Option.getD_none, pointsOf_absent fresh]

theorem RecordedLengths.record (recorded : RecordedLengths minutes readings queues) (idx : Nat)
    (entry : String × Int) :
    RecordedLengths minutes (readings ++ [((entry.1, idx), entry.2)])
      (recordLength (seriesTemplate minutes) idx queues entry) where
  present := by
    intro queue seen
    unfold recordLength
    by_cases same : queue = entry.1
    · subst same
      dsimp only
      rw [SparseMap.get_set_self, recorded.getD, pointsOf_concat]
    · dsimp only
      rw [SparseMap.get_set_of_ne _ _ same, pointsOf_concat_of_ne _ _ (Ne.symm same)]
      apply recorded.present
      obtain ⟨reading, member, own⟩ := seen
      rcases List.mem_append.mp member with before | new
      · exact ⟨reading, before, own⟩
      · rw [List.mem_singleton.mp new] at own
        exact absurd own.symm same
  absent := by
    intro queue fresh
    have same : queue ≠ entry.1 := fun same =>
      fresh _ (List.mem_append_right _ List.mem_cons_self) same.symm
    unfold recordLength
    dsimp only
    rw [SparseMap.get_set_of_ne _ _ same]
    exact recorded.absent queue fun reading member =>
      fresh reading (List.mem_append_left _ member)

theorem RecordedLengths.hash (recorded : RecordedLengths minutes readings queues) (idx : Nat)
    (entries : CounterHash) :
    RecordedLengths minutes
      (readings ++ entries.map fun entry => ((entry.1, idx), entry.2))
      (entries.foldl (recordLength (seriesTemplate minutes) idx) queues) := by
  induction entries generalizing readings queues with
  | nil =>
      rw [List.map_nil, List.append_nil]
      exact recorded
  | cons entry rest ih =>
      have next := ih (recorded.record idx entry)
      rw [List.append_assoc] at next
      exact next

theorem RecordedLengths.hashes (recorded : RecordedLengths minutes readings queues)
    (order : IterationOrder) (hashes : List (CounterHash × Nat)) :
    RecordedLengths minutes (readings ++ lengthReadings order hashes)
      (hashes.foldl (fun queues indexed => (order.arrange indexed.1).foldl
        (recordLength (seriesTemplate minutes) indexed.2) queues) queues) := by
  induction hashes generalizing readings queues with
  | nil =>
      unfold lengthReadings
      rw [List.flatMap_nil, List.append_nil]
      exact recorded
  | cons indexed rest ih =>
      have next := ih (recorded.hash indexed.2 (order.arrange indexed.1))
      rw [List.append_assoc] at next
      exact next

theorem recordedLengths_empty (minutes : List Int) : RecordedLengths minutes [] .empty where
  present := by
    rintro queue ⟨reading, member, _⟩
    cases member
  absent := fun _ _ => rfl

/-! The order of the series. -/

theorem sortsBefore_iff {first second : QueueLengthMetricsSeries} :
    first.sortsBefore second = true ↔
      second.peak < first.peak ∨ second.peak = first.peak ∧ first.queue ≤ second.queue := by
  unfold QueueLengthMetricsSeries.sortsBefore
  rcases lt_trichotomy second.peak first.peak with less | same | more
  · rw [compare_lt_iff_lt.mpr less]
    simp [less]
  · rw [compare_eq_iff_eq.mpr same]
    simp [same, Ordering.isLE_iff_ne_gt, compare_le_iff_le]
  · rw [compare_gt_iff_gt.mpr more]
    simp [Nat.not_lt.mpr (Nat.le_of_lt more), (Nat.ne_of_lt more).symm]

theorem sortsBefore_trans {first second third : QueueLengthMetricsSeries}
    (one : first.sortsBefore second = true) (two : second.sortsBefore third = true) :
    first.sortsBefore third = true := by
  rw [sortsBefore_iff] at one two ⊢
  rcases one with one | ⟨one, named⟩
  · rcases two with two | ⟨two, _⟩
    · exact Or.inl (Nat.lt_trans two one)
    · exact Or.inl (two ▸ one)
  · rcases two with two | ⟨two, other⟩
    · exact Or.inl (one ▸ two)
    · exact Or.inr ⟨two.trans one, le_trans named other⟩

theorem sortsBefore_total (first second : QueueLengthMetricsSeries) :
    (first.sortsBefore second || second.sortsBefore first) = true := by
  rw [Bool.or_eq_true, sortsBefore_iff, sortsBefore_iff]
  rcases lt_trichotomy first.peak second.peak with less | same | more
  · exact Or.inr (Or.inl less)
  · rcases le_total first.queue second.queue with named | named
    · exact Or.inl (Or.inr ⟨same.symm, named⟩)
    · exact Or.inr (Or.inr ⟨same, named⟩)
  · exact Or.inl (Or.inl more)

theorem mergeSort_sortsBefore {series : List QueueLengthMetricsSeries}
    (distinct : (series.map QueueLengthMetricsSeries.queue).Nodup) :
    (series.mergeSort QueueLengthMetricsSeries.sortsBefore).Pairwise fun first second =>
      second.peak < first.peak ∨ second.peak = first.peak ∧ first.queue < second.queue := by
  have ordered : (series.mergeSort QueueLengthMetricsSeries.sortsBefore).Pairwise
      fun first second => first.sortsBefore second = true := by
    apply List.pairwise_mergeSort
    · exact fun _ _ _ => sortsBefore_trans
    · exact sortsBefore_total
  have apart : (series.mergeSort QueueLengthMetricsSeries.sortsBefore).Pairwise
      fun first second => first.queue ≠ second.queue :=
    List.pairwise_map.mp (((List.mergeSort_perm series _).map _).nodup_iff.mpr distinct)
  refine (ordered.and apart).imp ?_
  rintro first second ⟨before, different⟩
  rcases sortsBefore_iff.mp before with longer | ⟨same, named⟩
  · exact Or.inl longer
  · exact Or.inr ⟨same, lt_of_le_of_ne named different⟩

/-! What the series show of the hashes. -/

section Hashes

variable {store : MetricsStore} {keyOf : Int → String}

theorem MetricsStore.mem_hash {key : String} {entry : String × Int} :
    entry ∈ store.hash key ↔ store.counters.get (key, entry.1) = some entry.2 := by
  unfold MetricsStore.hash
  rw [List.mem_filterMap]
  constructor
  · rintro ⟨address, member, found⟩
    have own := of_decide_eq_true (List.mem_filter.mp member).2
    obtain ⟨value, present, rfl⟩ := Option.map_eq_some_iff.mp found
    rw [← own]
    exact present
  · intro present
    refine ⟨(key, entry.1), List.mem_filter.mpr ⟨?_, decide_eq_true rfl⟩, ?_⟩
    · rw [store.counters.mem_keys, present]
      exact Option.some_ne_none _
    · rw [present]
      rfl

theorem mem_lengthReadings (order : IterationOrder) {queue : String} {idx : Nat} {value : Int} :
    ((queue, idx), value) ∈ lengthReadings order
        ((minutes.map fun minute => store.hash (keyOf minute)).zipIdx) ↔
      minutes[idx]?.bind (fun minute => store.counters.get (keyOf minute, queue)) = some value := by
  unfold lengthReadings
  rw [List.mem_flatMap, Option.bind_eq_some_iff]
  constructor
  · rintro ⟨⟨hash, place⟩, listed, inside⟩
    obtain ⟨entry, member, same⟩ := List.mem_map.mp inside
    cases same
    have found := List.mk_mem_zipIdx_iff_getElem?.mp listed
    rw [List.getElem?_map, Option.map_eq_some_iff] at found
    obtain ⟨minute, here, rfl⟩ := found
    exact ⟨minute, here, MetricsStore.mem_hash.mp ((order.perm _).mem_iff.mp member)⟩
  · rintro ⟨minute, here, stored⟩
    refine ⟨(store.hash (keyOf minute), idx), ?_, List.mem_map.mpr ⟨(queue, value), ?_, rfl⟩⟩
    · rw [List.mk_mem_zipIdx_iff_getElem?, List.getElem?_map, here]
      rfl
    · exact (order.perm _).mem_iff.mpr (MetricsStore.mem_hash.mpr stored)

theorem last_lengthReadings (order : IterationOrder) (queue : String) (idx : Nat) :
    last (queue, idx) (lengthReadings order
        ((minutes.map fun minute => store.hash (keyOf minute)).zipIdx)) =
      minutes[idx]?.bind fun minute => store.counters.get (keyOf minute, queue) := by
  let written : String × Nat → Option Int := fun place =>
    minutes[place.2]?.bind fun minute => store.counters.get (keyOf minute, place.1)
  change _ = written (queue, idx)
  exact last_of_functional fun value => mem_lengthReadings order

theorem pointsOf_lengthReadings (order : IterationOrder) (queue : String) :
    pointsOf minutes (lengthReadings order
        ((minutes.map fun minute => store.hash (keyOf minute)).zipIdx)) queue =
      minutes.map fun minute =>
        { timestamp := minute * 60
          enqueued := ((store.counters.get (keyOf minute, queue)).getD 0).toNat } := by
  apply List.ext_getElem?
  intro idx
  unfold pointsOf
  rw [List.getElem?_mapIdx, List.getElem?_map, last_lengthReadings]
  cases minutes[idx]? with
  | none => rfl
  | some minute => rfl

theorem exists_lengthReading (order : IterationOrder) {queue : String} :
    (∃ reading ∈ lengthReadings order
        ((minutes.map fun minute => store.hash (keyOf minute)).zipIdx), reading.1.1 = queue) ↔
      ∃ minute ∈ minutes, (store.counters.get (keyOf minute, queue)).isSome := by
  constructor
  · rintro ⟨⟨⟨name, idx⟩, value⟩, member, rfl⟩
    obtain ⟨minute, here, found⟩ :=
      Option.bind_eq_some_iff.mp ((mem_lengthReadings order).mp member)
    exact ⟨minute, List.mem_of_getElem? here, by rw [found]; rfl⟩
  · rintro ⟨minute, member, some⟩
    obtain ⟨value, found⟩ := Option.isSome_iff_exists.mp some
    obtain ⟨idx, here⟩ := List.mem_iff_getElem?.mp member
    exact ⟨((queue, idx), value), (mem_lengthReadings order).mpr
      (Option.bind_eq_some_iff.mpr ⟨minute, here, found⟩), rfl⟩

end Hashes

/-! The series as they are listed. -/

def LengthSeries.listing (queues : LengthSeries) (order : IterationOrder) :
    List QueueLengthMetricsSeries :=
  (order.arrange queues.keys).filterMap fun queue =>
    (queues.get queue).map fun series => { queue := queue, series := series }

theorem LengthSeries.mem_listing (queues : LengthSeries) (order : IterationOrder)
    {series : QueueLengthMetricsSeries} :
    series ∈ queues.listing order ↔ queues.get series.queue = some series.series := by
  unfold listing
  rw [List.mem_filterMap]
  constructor
  · rintro ⟨queue, _, found⟩
    obtain ⟨points, present, rfl⟩ := Option.map_eq_some_iff.mp found
    exact present
  · intro present
    refine ⟨series.queue, (order.perm _).mem_iff.mpr ?_, ?_⟩
    · rw [queues.mem_keys, present]
      exact Option.some_ne_none _
    · rw [present]
      rfl

theorem LengthSeries.listing_names (queues : LengthSeries) (order : IterationOrder) :
    (queues.listing order).map QueueLengthMetricsSeries.queue = order.arrange queues.keys := by
  have present : ∀ queue ∈ order.arrange queues.keys, queues.get queue ≠ none :=
    fun queue member => (queues.mem_keys queue).mp ((order.perm _).mem_iff.mp member)
  unfold listing
  generalize order.arrange queues.keys = names at present
  induction names with
  | nil => rfl
  | cons queue rest ih =>
      rw [List.forall_mem_cons] at present
      cases found : queues.get queue with
      | none => exact absurd found present.1
      | some points =>
          rw [List.filterMap_cons, found, Option.map_some]
          exact congrArg (queue :: ·) (ih present.2)

theorem queueLengthSeriesFromHashes_shows (order : IterationOrder) (minutes : List Int)
    (store : MetricsStore) (keyOf : Int → String) :
    ShowsLengths minutes (fun minute queue => store.counters.get (keyOf minute, queue))
      (queueLengthSeriesFromHashes order minutes
        (minutes.map fun minute => store.hash (keyOf minute))) := by
  let hashes := minutes.map fun minute => store.hash (keyOf minute)
  let queues := hashes.zipIdx.foldl (fun queues indexed => (order.arrange indexed.1).foldl
    (recordLength (seriesTemplate minutes) indexed.2) queues) (.empty : LengthSeries)
  have recorded := (recordedLengths_empty minutes).hashes order hashes.zipIdx
  rw [List.nil_append] at recorded
  change RecordedLengths minutes _ queues at recorded
  have sorted := List.mergeSort_perm (queues.listing order) QueueLengthMetricsSeries.sortsBefore
  have names := queues.listing_names order
  change ShowsLengths _ _
    ((queues.listing order).mergeSort QueueLengthMetricsSeries.sortsBefore)
  refine ⟨?_, ?_, ?_⟩
  · intro queue
    rw [(sorted.map _).mem_iff, names, (order.perm _).mem_iff, queues.mem_keys,
      ← exists_lengthReading order]
    constructor
    · intro present
      by_contra none
      exact present (recorded.absent queue fun reading member same =>
        none ⟨reading, member, same⟩)
    · intro seen
      rw [recorded.present queue seen]
      exact Option.some_ne_none _
  · intro series member
    have held := (queues.mem_listing order).mp (sorted.mem_iff.mp member)
    have seen : ∃ reading ∈ lengthReadings order hashes.zipIdx,
        reading.1.1 = series.queue := by
      by_contra none
      rw [recorded.absent series.queue fun reading member same =>
        none ⟨reading, member, same⟩] at held
      cases held
    rw [recorded.present series.queue seen, Option.some.injEq] at held
    rw [← held]
    exact pointsOf_lengthReadings order series.queue
  · apply mergeSort_sortsBefore
    rw [names]
    exact (order.perm _).nodup_iff.mpr queues.nodup

/-! What the collectors write. -/

def MetricsCommand.Spares (key : String) : MetricsCommand → Prop
  | .hincr other _ _ => other ≠ key
  | _ => True

theorem runMetrics_spares {key : String} {program : Metrics α}
    (spares : program.Sends (MetricsCommand.Spares key)) (store : MetricsStore)
    (field : String) :
    (runMetrics program store).2.counters.get (key, field) = store.counters.get (key, field) := by
  let keeps : MetricsStore → Prop := fun state =>
    state.counters.get (key, field) = store.counters.get (key, field)
  change keeps (program.run metricsExec store).2
  refine Program.run_keeps metricsExec ?_ spares rfl
  intro command state allowed kept
  change _ = _
  rw [← kept]
  cases command with
  | hincr other name increment =>
      unfold metricsExec
      dsimp only
      split
      · exact SparseMap.get_set_of_ne _ _ fun same => allowed (congrArg Prod.fst same).symm
      · rfl
  | expire other seconds => rfl
  | bitfield other ops =>
      unfold metricsExec
      dsimp only
      split
      · rfl
      · rfl
  | hgetall other => rfl
  | hget other name => rfl

theorem spares_hincrPositive {key other field : String} {value : Nat} (different : other ≠ key) :
    ∀ command ∈ hincrPositive other field value, command.Spares key := by
  intro command member
  unfold hincrPositive at member
  split at member
  · rw [List.mem_singleton.mp member]
    exact different
  · cases member

section Writes

variable (storage : StorageInternal)

theorem lengthsKey_injective {given : String} {first second : Int}
    (same : (StorageKeys.new given).metricsQueueLengthKey first =
      (StorageKeys.new given).metricsQueueLengthKey second) : first = second := by
  cases scopedKey_injective given (.metricsQueueLength first) (.metricsQueueLength second)
    rfl rfl same
  rfl

theorem spares_flushRecord (record : Int × MetricIdentity × PendingJobMetrics) (minute : Int) :
    ∀ command ∈ storage.flushRecord record,
      command.Spares (storage.keys.metricsQueueLengthKey minute) := by
  have different : storage.keys.metricsCounterKey record.1 ≠
      storage.keys.metricsQueueLengthKey minute := by
    intro same
    cases scopedKey_injective storage.given (.metricsCounter record.1)
      (.metricsQueueLength minute) rfl rfl same
  unfold StorageInternal.flushRecord
  dsimp only
  simp only [List.forall_mem_append]
  have spares : ∀ field value, ∀ command ∈ hincrPositive
      (storage.keys.metricsCounterKey record.1) field value,
      command.Spares (storage.keys.metricsQueueLengthKey minute) :=
    fun _ _ => spares_hincrPositive different
  refine ⟨⟨⟨⟨⟨⟨⟨⟨spares _ _, spares _ _⟩, spares _ _⟩, spares _ _⟩, spares _ _⟩, spares _ _⟩,
    spares _ _⟩, ?_⟩, ?_⟩
  · simp [MetricsCommand.Spares]
  · split
    · simp [MetricsCommand.Spares]
    · simp

theorem spares_flushQueueRecord (record : Int × String × QueueCounterTotals) (minute : Int) :
    ∀ command ∈ storage.flushQueueRecord record,
      command.Spares (storage.keys.metricsQueueLengthKey minute) := by
  have different : storage.keys.metricsQueueCounterKey record.1 ≠
      storage.keys.metricsQueueLengthKey minute := by
    intro same
    cases scopedKey_injective storage.given (.metricsQueueCounter record.1)
      (.metricsQueueLength minute) rfl rfl same
  unfold StorageInternal.flushQueueRecord
  dsimp only
  simp only [List.forall_mem_append]
  refine ⟨⟨⟨spares_hincrPositive different, spares_hincrPositive different⟩,
    spares_hincrPositive different⟩, ?_⟩
  simp [MetricsCommand.Spares]

theorem flushJobMetrics_spares (buffer : JobMetricsBuffer) (minute : Int) :
    (storage.flushJobMetrics buffer).Sends
      (MetricsCommand.Spares (storage.keys.metricsQueueLengthKey minute)) := by
  rw [flushJobMetrics_eq]
  refine Program.sends_batch (List.forall_mem_append.mpr ⟨?_, ?_⟩)
  · intro command member
    obtain ⟨record, _, inside⟩ := List.mem_flatMap.mp member
    exact spares_flushRecord storage record minute command inside
  · intro command member
    obtain ⟨record, _, inside⟩ := List.mem_flatMap.mp member
    exact spares_flushQueueRecord storage record minute command inside

theorem flushResultStats_spares (stats : PendingStats) (minute : Int) :
    (storage.flushResultStats stats).Sends
      (MetricsCommand.Spares (storage.keys.metricsQueueLengthKey minute)) := by
  have hincr : ∀ (queue field : String) (value : Nat),
      ∀ command ∈ storage.hincrStat queue field value,
        command.Spares (storage.keys.metricsQueueLengthKey minute) := by
    intro queue field value command member
    unfold StorageInternal.hincrStat at member
    split at member
    · rw [List.mem_singleton.mp member]
      exact statsKey_ne_lengths storage.given minute
    · cases member
  unfold StorageInternal.flushResultStats
  split
  · trivial
  · refine Program.sends_batch ?_
    intro command member
    obtain ⟨queue, _, inside⟩ := List.mem_flatMap.mp member
    split at inside
    · cases inside
    · unfold StorageInternal.queueStatsCommands at inside
      simp only [List.mem_append] at inside
      rcases inside with ((one | two) | three) | four
      · exact hincr _ _ _ _ one
      · exact hincr _ _ _ _ two
      · exact hincr _ _ _ _ three
      · exact hincr _ _ _ _ four

def lengthWrites (lengths : List (String × Int)) (refreshedAt : Int) :
    List ((Int × String) × Int) :=
  lengths.map fun entry => ((refreshedAt / 60, entry.1), entry.2)

theorem writeQueueLengthStats_lengths (lengths : List (String × Int)) (refreshedAt minute : Int)
    (queue : String) (store : MetricsStore) :
    (storage.writeQueueLengthStats lengths refreshedAt store).counters.get
        (storage.keys.metricsQueueLengthKey minute, queue) =
      (last (minute, queue) (lengthWrites lengths refreshedAt)).or
        (store.counters.get (storage.keys.metricsQueueLengthKey minute, queue)) := by
  have statsKey : ∀ field, (storage.keys.metricsQueueLengthKey minute, queue) ≠
      (storage.keys.stats, field) :=
    fun field same => statsKey_ne_lengths storage.given minute (congrArg Prod.fst same).symm
  unfold StorageInternal.writeQueueLengthStats lengthWrites
  induction lengths generalizing store with
  | nil => rfl
  | cons entry rest ih =>
      rw [List.foldl_cons, ih, List.map_cons, last, Option.or_assoc]
      congr 1
      unfold MetricsStore.hset
      dsimp only
      rw [SparseMap.get_set, SparseMap.get_set_of_ne _ _ (statsKey _),
        SparseMap.get_set_of_ne _ _ (statsKey _)]
      by_cases same : (refreshedAt / 60, entry.1) = (minute, queue)
      · cases same
        simp
      · have apart : (storage.keys.metricsQueueLengthKey minute, queue) ≠
            (storage.keys.metricsQueueLengthKey (refreshedAt / 60), entry.1) := by
          intro equal
          rw [Prod.mk.injEq] at equal
          exact same (Prod.ext (lengthsKey_injective equal.1).symm equal.2.symm)
        rw [if_neg apart, if_neg same, Option.none_or]

end Writes

/-! What an event of a collector does. -/

section Collectors

variable (storage : StorageInternal) (settings : CollectorSettings)

def Collector.writesLengths (collector : Collector) :
    CollectorEvent → List ((Int × String) × Int)
  | .lengthsTick call lengths refreshedAt =>
      if call.applied then
        lengthWrites (collector.activeQueues.map fun queue => (queue, lengths queue)) refreshedAt
      else []
  | _ => []

variable {storage settings} {collector next : Collector}

theorem Collector.track_redis {call : TrackedCall} {sent : Except OxanaError α × MetricsStore}
    {settle : Collector → Collector} (settles : ∀ given, (settle given).redis = given.redis)
    (ran : collector.track settings call sent settle = .ok next) : next.redis = sent.2 := by
  unfold track at ran
  dsimp only at ran
  split at ran
  · cases ran
  · cases ran
    rfl
  · cases ran
    exact settles _

theorem TrackedCall.send_spares {call : TrackedCall} {program : Metrics α} {key : String}
    (spares : program.Sends (MetricsCommand.Spares key)) (store : MetricsStore)
    (field : String) :
    (call.send program store).2.counters.get (key, field) = store.counters.get (key, field) := by
  unfold send
  split
  · exact runMetrics_spares spares store field
  · rfl

theorem Collector.step_lengths {event : CollectorEvent}
    (ran : collector.step storage settings event = .ok next) (minute : Int) (queue : String) :
    next.redis.counters.get (storage.keys.metricsQueueLengthKey minute, queue) =
      (last (minute, queue) (collector.writesLengths event)).or
        (collector.redis.counters.get (storage.keys.metricsQueueLengthKey minute, queue)) := by
  cases event with
  | result now result =>
      cases ran
      rfl
  | metricsTick call =>
      unfold step flushMetrics at ran
      dsimp only at ran
      split at ran
      · cases ran
        rfl
      · rw [track_redis (by exact fun _ => rfl) ran]
        exact call.send_spares (flushJobMetrics_spares storage _ minute) _ queue
  | statsTick call =>
      unfold step flushPendingStats at ran
      dsimp only at ran
      split at ran
      · cases ran
        rfl
      · rw [track_redis (by exact fun _ => rfl) ran]
        exact call.send_spares (flushResultStats_spares storage _ minute) _ queue
  | lengthsTick call lengths refreshedAt =>
      have writes : collector.writesLengths (.lengthsTick call lengths refreshedAt) =
          if call.applied then lengthWrites
            (collector.activeQueues.map fun queue => (queue, lengths queue)) refreshedAt
          else [] := rfl
      unfold step refreshActiveQueueLengths at ran
      dsimp only at ran
      rw [writes]
      by_cases idle : collector.activeQueues.isEmpty = true
      · rw [if_pos idle] at ran
        cases ran
        rw [List.isEmpty_iff.mp idle]
        split
        · rfl
        · rfl
      · rw [if_neg idle] at ran
        rw [track_redis (by exact fun _ => rfl) ran]
        split
        · exact writeQueueLengthStats_lengths storage _ refreshedAt minute queue _
        · rfl

end Collectors

/-! Runs of the fleet. -/

section Fleet

variable {ι : Type} [DecidableEq ι]

inductive FleetMeasures (node : ι → StorageInternal) (settings : ι → CollectorSettings)
    (start : MetricsStore) : CollectorFleet ι → List ((Int × String) × Int) → Prop
  | start (failures : ι → Nat) : FleetMeasures node settings start (.start failures start) []
  | act {fleet : CollectorFleet ι} {written : List ((Int × String) × Int)} (process : ι)
      (event : CollectorEvent) {next : Collector}
      (earlier : FleetMeasures node settings start fleet written)
      (ran : (fleet.collector process).step (node process) (settings process) event = .ok next) :
      FleetMeasures node settings start (fleet.put process next)
        (written ++ (fleet.collector process).writesLengths event)
  | restart {fleet : CollectorFleet ι} {written : List ((Int × String) × Int)} (process : ι)
      (failures : Nat) (earlier : FleetMeasures node settings start fleet written) :
      FleetMeasures node settings start (fleet.put process (.start failures fleet.store)) written

variable {node : ι → StorageInternal} {settings : ι → CollectorSettings} {start : MetricsStore}
  {fleet : CollectorFleet ι} {written : List ((Int × String) × Int)} {reader : StorageInternal}

theorem FleetMeasures.lengths (run : FleetMeasures node settings start fleet written)
    (shared : ∀ process, (node process).given = reader.given) (minute : Int) (queue : String) :
    fleet.store.counters.get (reader.keys.metricsQueueLengthKey minute, queue) =
      (last (minute, queue) written).or
        (start.counters.get (reader.keys.metricsQueueLengthKey minute, queue)) := by
  induction run with
  | start failures => rfl
  | @act fleet written process event next earlier ran ih =>
      have step := Collector.step_lengths ran minute queue
      have keys : (node process).keys = reader.keys :=
        congrArg StorageKeys.new (shared process)
      rw [keys] at step
      change next.redis.counters.get _ = _
      rw [step, last_append, Option.or_assoc, ← ih]
      rfl
  | restart process failures earlier ih => exact ih

theorem run_queueLengthMetricHashes (reader : StorageInternal) (minutes : List Int)
    (store : MetricsStore) :
    runMetrics (reader.queueLengthMetricHashes minutes) store =
      (some (.ok (minutes.map fun minute =>
        store.hash (reader.keys.metricsQueueLengthKey minute))), store) :=
  run_collect_reads minutes fun _ _ => rfl

/-- The chart of the queues shows the last length that any collector wrote in a minute. -/
theorem queue_lengths_shown (shared : ∀ process, (node process).given = reader.given)
    (run : FleetMeasures node settings start fleet written) (now : Int)
    (query : JobMetricsQuery) :
    ∃ snapshot,
      runMetrics (reader.queueLengthMetrics now query) fleet.store =
        (some (.ok snapshot), fleet.store) ∧
      ShowsLengths (metricMinutes now query) (fun minute queue =>
        (last (minute, queue) written).or
          (start.counters.get (reader.keys.metricsQueueLengthKey minute, queue)))
        snapshot.queues := by
  have shows := queueLengthSeriesFromHashes_shows reader.order (metricMinutes now query)
    fleet.store reader.keys.metricsQueueLengthKey
  have lengths : (fun minute queue =>
      fleet.store.counters.get (reader.keys.metricsQueueLengthKey minute, queue)) =
        fun minute queue => (last (minute, queue) written).or
          (start.counters.get (reader.keys.metricsQueueLengthKey minute, queue)) := by
    funext minute queue
    exact run.lengths shared minute queue
  rw [lengths] at shows
  have hashes := run_queueLengthMetricHashes reader (metricMinutes now query) fleet.store
  unfold runMetrics at hashes ⊢
  rw [StorageInternal.queueLengthMetrics, Program.bind_eq, Program.run_bind, hashes,
    Program.resume_ok]
  exact ⟨_, rfl, shows⟩

theorem queue_lengths_shown_refreshed :
    ∃ (fleet : CollectorFleet Bool) (snapshot : QueueLengthMetricsSnapshot),
      FleetMeasures (fun _ => workerNode 1) (fun _ => ⟨30, none⟩) .empty fleet
        [((1, collectedResult.queue), 5), ((1, collectedResult.queue), 2)] ∧
      runMetrics ((workerNode 2).queueLengthMetrics 90 ⟨2⟩) fleet.store =
        (some (.ok snapshot), fleet.store) ∧
      ShowsLengths (metricMinutes 90 ⟨2⟩) (fun minute queue =>
        (last (minute, queue)
          [((1, collectedResult.queue), 5), ((1, collectedResult.queue), 2)]).or
            (MetricsStore.empty.counters.get
              ((workerNode 2).keys.metricsQueueLengthKey minute, queue)))
        snapshot.queues := by
  have begun : FleetMeasures (fun _ : Bool => workerNode 1) (fun _ => ⟨30, none⟩) .empty
      (.start (fun _ => 0) .empty) [] := .start fun _ => 0
  have arrived := begun.act false (.result 0 collectedResult) rfl
  have measured := arrived.act false (.lengthsTick ⟨[], true⟩ (fun _ => 5) 60) rfl
  have again := measured.act false (.lengthsTick ⟨[], true⟩ (fun _ => 2) 61) rfl
  obtain ⟨snapshot, ran, shows⟩ := queue_lengths_shown (fun _ => rfl) again 90 ⟨2⟩
  exact ⟨_, snapshot, again, ran, shows⟩

end Fleet

end Oxana
