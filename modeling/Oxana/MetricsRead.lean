import Mathlib.Algebra.GroupWithZero.Nat
import Oxana.MetricsFlush
import Oxana.MetricsReport

/-!
What the two reads of the dashboard find in Redis: the amounts that were recorded in the
minutes they ask for, of every worker or of one.
-/

namespace Oxana

open Postings Program StorageInternal

/-! Pipelines that only read. -/

theorem run_collect_reads {ι β : Type} {command : ι → MetricsCommand}
    {read : (item : ι) → (command item).Reply → β} {store : MetricsStore} (items : List ι)
    {answer : (item : ι) → (command item).Reply}
    (answers : ∀ item ∈ items,
      metricsExec (command item) store = (some (.ok (answer item)), store)) :
    runMetrics (collect command read items) store =
      (some (.ok (items.map fun item => read item (answer item))), store) := by
  unfold runMetrics collect
  induction items with
  | nil => rfl
  | cons item rest ih =>
      have later := ih fun other member => answers other (List.mem_cons_of_mem _ member)
      simp only [collectFrom, run, answers item List.mem_cons_self, run_bind, later, resume_ok,
        List.map_cons]

/-! The contents of the counters. -/

def storeContents (store : MetricsStore) : List ((String × String) × Nat) :=
  store.counters.keys.map fun address => (address, ((store.counters.get address).getD 0).toNat)

theorem balance_storeContents (store : MetricsStore) (address : String × String) :
    balance (storeContents store) address = ((store.counters.get address).getD 0).toNat := by
  by_cases member : address ∈ store.counters.keys
  · exact balance_listing store.counters.nodup Function.injective_id _ member
  · rw [JobMetricsBuffer.absent_of_notMem member]
    apply balance_eq_zero
    intro posting listed
    obtain ⟨other, inside, rfl⟩ := List.mem_map.mp listed
    intro same
    exact member (same ▸ inside)

theorem MetricsStore.Tallied.raised_contents {store : MetricsStore}
    {counted : List ((String × String) × Nat)} {bucketed : List ((String × Nat) × Nat)}
    (tallied : store.Tallied counted bucketed) (select : String × String → Bool) :
    raised select (storeContents store) = raised select counted := by
  apply raised_eq_of_balance_eq
  intro address
  rw [balance_storeContents, tallied.counter, Int.toNat_natCast]

theorem raised_hash {β : Type} (select : β → Bool) (read : String → Option β)
    (store : MetricsStore) (key : String) :
    raised select ((store.hash key).filterMap fun entry =>
        (read entry.1).map fun found => (found, entry.2.toNat)) =
      raised (fun address => decide (address.1 = key) && (read address.2).any select)
        (storeContents store) := by
  unfold MetricsStore.hash storeContents
  induction store.counters.keys with
  | nil => rfl
  | cons address rest ih =>
      rw [List.map_cons, raised_cons, ← ih]
      by_cases own : address.1 = key
      · rw [List.filter_cons_of_pos (by simp [own])]
        cases found : store.counters.get address with
        | none =>
            rw [List.filterMap_cons_none (by rw [found]; rfl)]
            simp
        | some value =>
            rw [List.filterMap_cons_some (b := (address.2, value)) (by rw [found]; rfl)]
            cases readable : read address.2 with
            | none =>
                rw [List.filterMap_cons_none (by rw [readable]; rfl)]
                simp
            | some place =>
                rw [List.filterMap_cons_some (b := (place, value.toNat)) (by rw [readable]; rfl)]
                simp [own]
      · rw [List.filter_cons_of_neg (by simp [own])]
        simp [own]

theorem MetricsStore.hash_positive {store : MetricsStore}
    (positive : ∀ address value, store.counters.get address = some value → 0 < value)
    {key : String} {entry : String × Int} (member : entry ∈ store.hash key) : 0 < entry.2 := by
  obtain ⟨address, _, found⟩ := List.mem_filterMap.mp member
  obtain ⟨value, present, rfl⟩ := Option.map_eq_some_iff.mp found
  exact positive address value present

/-! The fields of the log. -/

def readPlace (filter : Option MetricIdentity) (idx : Nat) (field : String) : Option ReadPlace :=
  ((readField field).filter fun found => passes filter found.1).map fun found =>
    { idx := idx, identity := found.1, metric := found.2 }

theorem readEntry_eq (filter : Option MetricIdentity) (idx : Nat) (entry : String × Int) :
    readEntry filter idx entry =
      (readPlace filter idx entry.1).map fun place => (place, entry.2.toNat) := by
  unfold readEntry readPlace
  rw [Option.map_map]
  rfl

theorem readField_metricField {identity : MetricIdentity}
    (fits : identity.worker.utf8ByteSize < 2 ^ 64) (metric : JobMetric) :
    readField (identity.metricField metric.text) = some (identity, metric) := by
  unfold readField
  rw [splitMetricField_metricField fits, Option.bind_some, find_text]
  rfl

theorem readQueueField_queueMetricField {queue : String} (fits : queue.utf8ByteSize < 2 ^ 64)
    (metric : QueueMetric) :
    readQueueField (queueMetricField queue metric.text) = some (queue, metric) := by
  unfold readQueueField
  rw [splitQueueMetricField_queueMetricField fits, Option.bind_some, find_queueText]
  rfl

def CounterPlace.Fits : CounterPlace → Prop
  | job _ identity _ => identity.worker.utf8ByteSize < 2 ^ 64
  | queue _ name _ => name.utf8ByteSize < 2 ^ 64

theorem fits_of_posted {log : MetricsLog} {posting : CounterPlace × Nat}
    (member : posting ∈ log.flatMap counterPostings) : posting.1.Fits := by
  obtain ⟨entry, _, listed⟩ := List.mem_flatMap.mp member
  have worker := entry.2.workerFits
  have queue := entry.2.queueFits
  rcases List.mem_append.mp listed with job | other
  · obtain ⟨metric, _, rfl⟩ := List.mem_map.mp job
    change entry.2.workerName.utf8ByteSize < 2 ^ 64
    omega
  · obtain ⟨metric, _, rfl⟩ := List.mem_map.mp other
    change entry.2.queue.utf8ByteSize < 2 ^ 64
    omega

section Hashes

variable (given : String)

theorem counterKey_eq_iff {first second : Int} :
    (StorageKeys.new given).metricsCounterKey first =
      (StorageKeys.new given).metricsCounterKey second ↔ first = second := by
  constructor
  · intro same
    have objects := metricKey_injective given (.metricsCounter first) (.metricsCounter second)
      rfl rfl same
    cases objects
    rfl
  · rintro rfl
    rfl

theorem queueCounterKey_eq_iff {first second : Int} :
    (StorageKeys.new given).metricsQueueCounterKey first =
      (StorageKeys.new given).metricsQueueCounterKey second ↔ first = second := by
  constructor
  · intro same
    have objects := metricKey_injective given (.metricsQueueCounter first)
      (.metricsQueueCounter second) rfl rfl same
    cases objects
    rfl
  · rintro rfl
    rfl

theorem counterKey_ne_queueCounterKey (first second : Int) :
    (StorageKeys.new given).metricsCounterKey first ≠
      (StorageKeys.new given).metricsQueueCounterKey second := by
  intro same
  have objects := metricKey_injective given (.metricsCounter first)
    (.metricsQueueCounter second) rfl rfl same
  cases objects

structure HashReads (filter : Option MetricIdentity) (log : MetricsLog) (minute : Int)
    (hash : CounterHash) : Prop where
  balance : ∀ idx identity metric,
    balance (hash.filterMap (readEntry filter idx))
        { idx := idx, identity := identity, metric := metric } =
      if passes filter identity then
        balance (log.flatMap counterPostings) (.job minute identity metric)
      else 0
  positive : ∀ entry ∈ hash, 0 < entry.2

theorem hash_reads {store : MetricsStore} {log : MetricsLog}
    (records : store.Records (StorageKeys.new given) log) (filter : Option MetricIdentity)
    (minute : Int) :
    HashReads filter log minute (store.hash ((StorageKeys.new given).metricsCounterKey minute)) where
  balance := by
    intro idx identity metric
    have entries : readEntry filter idx = fun entry : String × Int =>
        (readPlace filter idx entry.1).map fun place => (place, entry.2.toNat) := by
      funext entry
      exact readEntry_eq filter idx entry
    unfold Postings.balance
    rw [entries, raised_hash, records.raised_contents, recordedCounters, raised_map]
    let wanted : CounterPlace → Bool := fun place =>
      decide (place = .job minute identity metric) && passes filter identity
    have chosen : ∀ posting ∈ log.flatMap counterPostings,
        (decide ((posting.1.address (StorageKeys.new given)).1 =
            (StorageKeys.new given).metricsCounterKey minute) &&
          (readPlace filter idx (posting.1.address (StorageKeys.new given)).2).any fun other =>
            decide (other = { idx := idx, identity := identity, metric := metric })) =
          wanted posting.1 := by
      intro posting member
      have fits := fits_of_posted member
      unfold wanted
      cases place : posting.1 with
      | job otherMinute otherIdentity otherMetric =>
          rw [place] at fits
          simp only [CounterPlace.address, counterKey_eq_iff, readPlace,
            readField_metricField fits, Option.filter_some, CounterPlace.job.injEq]
          by_cases same : otherIdentity = identity
          · subst same
            cases passing : passes filter otherIdentity <;> simp
          · cases passing : passes filter otherIdentity <;> simp [same]
      | queue otherMinute name otherMetric =>
          have apart := (counterKey_ne_queueCounterKey given minute otherMinute).symm
          simp [CounterPlace.address, apart]
    rw [raised_congr chosen]
    unfold wanted
    cases passes filter identity <;> simp [raised]
  positive := fun entry member => MetricsStore.hash_positive records.positive member

def workerHash (store : MetricsStore) (identity : MetricIdentity) (minute : Int) : CounterHash :=
  JobMetric.all.filterMap fun metric =>
    (store.counters.get ((StorageKeys.new given).metricsCounterKey minute,
      identity.metricField metric.text)).map fun value => (identity.metricField metric.text, value)

theorem workerHash_reads {store : MetricsStore} {log : MetricsLog}
    (records : store.Records (StorageKeys.new given) log) {identity : MetricIdentity}
    (fits : identity.worker.utf8ByteSize < 2 ^ 64) (minute : Int) :
    HashReads (some identity) log minute (workerHash given store identity minute) where
  balance := by
    intro idx other metric
    have listed : (workerHash given store identity minute).filterMap
        (readEntry (some identity) idx) =
          JobMetric.all.filterMap fun metric =>
            (store.counters.get ((StorageKeys.new given).metricsCounterKey minute,
              identity.metricField metric.text)).map fun value =>
                ({ idx := idx, identity := identity, metric := metric }, value.toNat) := by
      unfold workerHash
      rw [List.filterMap_filterMap]
      apply List.filterMap_congr
      intro metric _
      cases store.counters.get ((StorageKeys.new given).metricsCounterKey minute,
          identity.metricField metric.text) with
      | none => rfl
      | some value =>
          simp [readEntry, readField_metricField fits, passes]
    have counted : ∀ metric, (store.counters.get
        ((StorageKeys.new given).metricsCounterKey minute,
          identity.metricField metric.text)).getD 0 =
            (balance (log.flatMap counterPostings) (.job minute identity metric) : Int) := by
      intro metric
      rw [← balance_recordedCounters given]
      exact records.counter _
    have amounts : ∀ (select : ReadPlace → Bool) (metrics : List JobMetric),
        raised select (metrics.filterMap fun metric =>
          (store.counters.get ((StorageKeys.new given).metricsCounterKey minute,
            identity.metricField metric.text)).map fun value =>
              (({ idx := idx, identity := identity, metric := metric } : ReadPlace),
                value.toNat)) =
          raised select (metrics.map fun metric =>
            ({ idx := idx, identity := identity, metric := metric },
              balance (log.flatMap counterPostings) (.job minute identity metric))) := by
      intro select metrics
      induction metrics with
      | nil => rfl
      | cons metric rest ih =>
          have total := counted metric
          rw [List.map_cons, raised_cons, ← ih]
          cases found : store.counters.get ((StorageKeys.new given).metricsCounterKey minute,
              identity.metricField metric.text) with
          | none =>
              rw [found, Option.getD_none] at total
              have zero : Postings.balance (log.flatMap counterPostings)
                  (.job minute identity metric) = 0 := by omega
              rw [List.filterMap_cons_none (by rw [found]; rfl), zero]
              simp
          | some value =>
              rw [found, Option.getD_some] at total
              rw [List.filterMap_cons_some (by rw [found]; rfl), raised_cons, total]
              rfl
    rw [listed]
    unfold Postings.balance
    rw [amounts]
    by_cases same : other = identity
    · subst same
      have passing : passes (some other) other = true := by simp [passes]
      rw [if_pos passing]
      apply balance_listing (by decide) _ _ metric.mem_all
      intro first second equal
      cases equal
      rfl
    · have stopped : passes (some identity) other = false := by simp [passes, Ne.symm same]
      rw [stopped, if_neg Bool.false_ne_true]
      apply balance_eq_zero
      intro posting member
      obtain ⟨_, _, rfl⟩ := List.mem_map.mp member
      intro equal
      cases equal
      exact same rfl
  positive := by
    intro entry member
    obtain ⟨metric, _, found⟩ := List.mem_filterMap.mp member
    obtain ⟨value, present, rfl⟩ := Option.map_eq_some_iff.mp found
    exact records.positive _ value present

theorem queueHash_reads {store : MetricsStore} {log : MetricsLog}
    (records : store.Records (StorageKeys.new given) log) (minute : Int) (queue : String)
    (metric : QueueMetric) :
    balance ((store.hash ((StorageKeys.new given).metricsQueueCounterKey minute)).filterMap
        readQueueEntry) (queue, metric) =
      balance (log.flatMap counterPostings) (.queue minute queue metric) := by
  unfold balance
  unfold readQueueEntry
  rw [raised_hash, records.raised_contents, recordedCounters, raised_map]
  apply raised_congr
  intro posting member
  have fits := fits_of_posted member
  cases place : posting.1 with
  | job otherMinute identity otherMetric =>
      have apart := counterKey_ne_queueCounterKey given otherMinute minute
      simp [CounterPlace.address, apart]
  | queue otherMinute name otherMetric =>
      rw [place] at fits
      simp only [CounterPlace.address, queueCounterKey_eq_iff,
        readQueueField_queueMetricField fits, Option.any_some, Prod.mk.injEq,
        CounterPlace.queue.injEq, Bool.decide_and]

end Hashes

/-! The hashes of a window. -/

theorem balance_readHashes (order : IterationOrder) {filter : Option MetricIdentity}
    {log : MetricsLog} {minutes : List Int} {hashOf : Int → CounterHash}
    (reads : ∀ minute, HashReads filter log minute (hashOf minute)) (place : ReadPlace) :
    balance (readHashes order filter 0 (minutes.map hashOf)) place =
      if passes filter place.identity then
        match minutes[place.idx]? with
        | some minute =>
            balance (log.flatMap counterPostings) (.job minute place.identity place.metric)
        | none => 0
      else 0 := by
  obtain ⟨idx, identity, metric⟩ := place
  have shape : readHashes order filter 0 (minutes.map hashOf) =
      minutes.zipIdx.flatMap fun indexed =>
        (order.arrange (hashOf indexed.1)).filterMap (readEntry filter indexed.2) := by
    unfold readHashes
    rw [List.zipIdx_map, List.flatMap_map]
    rfl
  have elsewhere : ∀ indexed : Int × Nat, indexed.2 ≠ idx →
      balance ((order.arrange (hashOf indexed.1)).filterMap (readEntry filter indexed.2))
        { idx := idx, identity := identity, metric := metric } = 0 := by
    intro indexed apart
    apply balance_eq_zero
    intro reading member same
    obtain ⟨entry, _, found⟩ := List.mem_filterMap.mp member
    obtain ⟨_, _, rfl⟩ := Option.map_eq_some_iff.mp found
    exact apart (congrArg ReadPlace.idx same)
  have distinct : (minutes.zipIdx).Nodup := List.Nodup.of_map Prod.snd (by
    rw [List.zipIdx_map_snd]
    exact List.nodup_range')
  rw [shape]
  cases found : minutes[idx]? with
  | none =>
      rw [balance_flatMap_eq_zero]
      · simp
      · intro indexed member
        apply elsewhere
        rintro rfl
        rw [List.mem_zipIdx_iff_getElem?] at member
        rw [member] at found
        cases found
  | some minute =>
      rw [balance_flatMap_of_key (minute, idx) distinct]
      · rw [← (reads minute).balance idx identity metric]
        exact raised_perm ((order.perm _).filterMap _)
      · rintro ⟨otherMinute, otherIdx⟩ member apart
        apply elsewhere
        rintro rfl
        rw [List.mem_zipIdx_iff_getElem?] at member
        rw [member] at found
        cases found
        exact apart rfl
      · intro outside
        exact absurd (List.mem_zipIdx_iff_getElem?.mpr found) outside

/-! The reads themselves. -/

section Reads

variable (storage : StorageInternal) (store : MetricsStore) (minutes : List Int)

theorem run_metricsCounterHashes :
    runMetrics (storage.metricsCounterHashes minutes) store =
      (some (.ok (minutes.map fun minute => store.hash (storage.keys.metricsCounterKey minute))),
        store) :=
  run_collect_reads minutes fun _ _ => rfl

theorem run_queueCounterMetricHashes :
    runMetrics (storage.queueCounterMetricHashes minutes) store =
      (some (.ok (minutes.map fun minute =>
        store.hash (storage.keys.metricsQueueCounterKey minute))), store) :=
  run_collect_reads minutes fun _ _ => rfl

theorem chunkAt_flatMap {α β : Type} {size : Nat} {block : α → List β}
    (sized : ∀ item, (block item).length = size) (items : List α) {idx : Nat} {item : α}
    (found : items[idx]? = some item) : chunkAt size idx (items.flatMap block) = block item := by
  unfold chunkAt
  induction items generalizing idx with
  | nil => cases found
  | cons first rest ih =>
      rw [List.flatMap_cons]
      cases idx with
      | zero =>
          have same : first = item := Option.some.inj found
          subst same
          rw [Nat.mul_zero, List.drop_zero, List.take_left' (sized first)]
      | succ idx =>
          have past : size * (idx + 1) = (block first).length + size * idx := by
            rw [sized, Nat.mul_succ]
            omega
          rw [past, List.drop_length_add_append]
          exact ih found

theorem run_metricsCounterHashesFor (identity : MetricIdentity) :
    runMetrics (storage.metricsCounterHashesFor minutes identity) store =
      (some (.ok (minutes.map (workerHash storage.given store identity))), store) := by
  let fields := StorageInternal.metricFields identity
  let block : Int → List (Option Int) := fun minute =>
    fields.map fun field => store.counters.get (storage.keys.metricsCounterKey minute, field)
  let wanted := minutes.flatMap fun minute => fields.map fun field =>
    (storage.keys.metricsCounterKey minute, field)
  have blocks : wanted.map (fun item => store.counters.get item) = minutes.flatMap block := by
    unfold wanted
    rw [List.map_flatMap]
    simp only [List.map_map]
    rfl
  have values : runMetrics (collect (fun item : String × String => .hget item.1 item.2)
      (fun _ reply => reply) wanted) store = (some (.ok (minutes.flatMap block)), store) := by
    rw [← blocks]
    exact run_collect_reads wanted fun _ _ => rfl
  have hashes : (List.range minutes.length).map (fun idx =>
      (fields.zip (chunkAt fields.length idx (minutes.flatMap block))).filterMap fun entry =>
        entry.2.map fun value => (entry.1, value)) =
          minutes.map (workerHash storage.given store identity) := by
    apply List.ext_getElem?
    intro idx
    rw [List.getElem?_map, List.getElem?_map]
    cases found : minutes[idx]? with
    | none =>
        have outside := List.getElem?_eq_none_iff.mp found
        rw [List.getElem?_eq_none (by simpa using outside)]
        rfl
    | some minute =>
        have inside := (List.getElem?_eq_some_iff.mp found).1
        rw [List.getElem?_range inside, Option.map_some, Option.map_some,
          chunkAt_flatMap (fun _ => List.length_map _) minutes found]
        rfl
  unfold runMetrics at values ⊢
  rw [StorageInternal.metricsCounterHashesFor, bind_eq, run_bind, values, resume_ok]
  exact congrArg (fun found => (some (Except.ok found), store)) hashes

/-! Histograms. -/

theorem fetchArgs_fold (key : String) (indices : List Nat) (state : BitfieldState) :
    (indices.map BitfieldOp.get).foldl (bitfieldStep key) state =
      { state with
        replies := state.replies ++ indices.map fun index =>
          some (state.fields.get (key, index)) } := by
  induction indices generalizing state with
  | nil => simp
  | cons index rest ih =>
      rw [List.map_cons, List.foldl_cons, ih]
      simp [bitfieldStep]

theorem exec_fetch (key : String) :
    metricsExec (.bitfield key histogramBitfieldFetchArgs) store =
      (some (.ok ((List.range histogramBucketCount).map fun index =>
        some (store.histograms.get (key, index)))), store) := by
  have readable : histogramBitfieldFetchArgs.all BitfieldOp.readable = true := by decide
  simp only [metricsExec, readable, if_true]
  rw [histogramBitfieldFetchArgs, fetchArgs_fold]
  rfl

theorem addBucketValues_fold {α : Type} (items : List α) (value : α → Nat → Nat)
    (start : HistogramCounts) (index : Fin histogramBucketCount)
    (fits : start index + (items.map fun item => value item index).sum ≤ u64Max) :
    (items.map fun item => (List.range histogramBucketCount).map fun index =>
        some (value item index)).foldl addBucketValues start index =
      start index + (items.map fun item => value item index).sum := by
  induction items generalizing start with
  | nil => rfl
  | cons item rest ih =>
      rw [List.map_cons, List.sum_cons] at fits
      have listed : ((List.range histogramBucketCount).map fun index =>
          some (value item index))[index.val]? = some (some (value item index)) := by
        rw [List.getElem?_map, List.getElem?_range index.isLt]
        rfl
      have next : addBucketValues start ((List.range histogramBucketCount).map fun index =>
          some (value item index)) index = start index + value item index := by
        rw [addBucketValues, listed]
        change saturatingAdd (start index) (value item index) = _
        exact Nat.min_eq_left (by omega)
      rw [List.map_cons, List.foldl_cons, ih _ (by rw [next]; omega), next, List.map_cons,
        List.sum_cons, Nat.add_assoc]

end Reads

end Oxana
