import Mathlib.Algebra.GroupWithZero.Nat
import Oxana.QueueStatsSound

/-!
The enqueued counts of the statistics against the lists of the queues: what an entry counts,
what it overlooks, and when the counts add up.
-/

namespace Oxana

open GlobPattern (SelfMatching glob_self glob_star)

def isOf (base queue : String) : Bool := (splitQueueStatsKey queue).1 == base

section Jobs

variable (storage : StorageInternal) (store : Store)

def queueWeight (select : String → Bool) (key : String) (ids : List JobId) : Nat :=
  match stripPrefix (storage.keys.queuePrefix ++ ":") key with
  | none => 0
  | some queue => if select queue then ids.length else 0

def queuedJobs (select : String → Bool) : Nat :=
  store.lists.total (queueWeight storage select)

theorem queueWeight_nil (select : String → Bool) (key : String) :
    queueWeight storage select key [] = 0 := by
  unfold queueWeight
  split
  · rfl
  · simp

@[simp] theorem queueWeight_queueKey (select : String → Bool) (queue : String)
    (ids : List JobId) :
    queueWeight storage select (storage.queueKey queue) ids =
      if select queue then ids.length else 0 := by
  have stripped : stripPrefix (storage.keys.queuePrefix ++ ":") (storage.queueKey queue) =
      some queue := stripPrefix_eq_some.mpr rfl
  unfold queueWeight
  rw [stripped]

theorem queueWeight_cases (key : String) :
    (∃ queue, key = storage.queueKey queue) ∨
      ∀ select ids, queueWeight storage select key ids = 0 := by
  unfold queueWeight
  cases stripped : stripPrefix (storage.keys.queuePrefix ++ ":") key with
  | none => exact Or.inr fun _ _ => rfl
  | some queue => exact Or.inl ⟨queue, stripPrefix_eq_some.mp stripped⟩

theorem queuedJobs_add {select first second : String → Bool}
    (both : ∀ queue, select queue = (first queue || second queue))
    (apart : ∀ queue, first queue = true → second queue = false) :
    queuedJobs storage store select =
      queuedJobs storage store first + queuedJobs storage store second := by
  unfold queuedJobs SparseMap.total
  rw [← Finset.sum_add_distrib]
  refine Finset.sum_congr rfl fun key _ => ?_
  rcases queueWeight_cases storage key with ⟨queue, rfl⟩ | weightless
  · rw [queueWeight_queueKey, queueWeight_queueKey, queueWeight_queueKey, both]
    cases chosen : first queue with
    | true => simp [apart queue chosen]
    | false => simp
  · rw [weightless, weightless, weightless]

theorem queuedJobs_eq_zero {select : String → Bool} :
    queuedJobs storage store select = 0 ↔
      ∀ queue, select queue = true → store.lists.get (storage.queueKey queue) = [] := by
  constructor
  · intro zero queue chosen
    have bound := store.lists.weight_le_total (queueWeight_nil storage select)
      (storage.queueKey queue)
    rw [queueWeight_queueKey, if_pos chosen] at bound
    unfold queuedJobs at zero
    exact List.length_eq_zero_iff.mp (by omega)
  · intro empty
    unfold queuedJobs SparseMap.total
    refine Finset.sum_eq_zero fun key _ => ?_
    rcases queueWeight_cases storage key with ⟨queue, rfl⟩ | weightless
    · rw [queueWeight_queueKey]
      split
      · rename_i chosen
        exact List.length_eq_zero_iff.mpr (empty queue chosen)
      · rfl
    · rw [weightless]

theorem queuedJobs_single (queue : String) :
    queuedJobs storage store (fun other => other == queue) =
      (store.lists.get (storage.queueKey queue)).length := by
  have weight : ∀ key ids, queueWeight storage (fun other => other == queue) key ids =
      if key = storage.queueKey queue then ids.length else 0 := by
    intro key ids
    rcases queueWeight_cases storage key with ⟨other, rfl⟩ | weightless
    · rw [queueWeight_queueKey]
      by_cases same : other = queue
      · simp [same]
      · have keys : storage.queueKey other ≠ storage.queueKey queue :=
          fun equal => same (append_right_inj _ equal)
        simp [same, keys]
    · rw [weightless]
      by_cases same : key = storage.queueKey queue
      · have own := weightless (fun other => other == queue) ids
        rw [same, queueWeight_queueKey, if_pos (beq_self_eq_true _)] at own
        rw [if_pos same, own]
      · rw [if_neg same]
  unfold queuedJobs SparseMap.total
  rw [Finset.sum_congr rfl fun key _ => weight key _, Finset.sum_ite_eq']
  split
  · rfl
  · rename_i absent
    have empty : store.lists.get (storage.queueKey queue) = [] := by
      by_contra filled
      exact absent (List.mem_toFinset.mpr ((store.lists.mem_keys _).mpr filled))
    rw [empty]
    rfl

theorem sum_queuedJobs (label : String → String) {labels : List String}
    (distinct : labels.Nodup) :
    (labels.map fun one => queuedJobs storage store fun queue => label queue == one).sum =
      queuedJobs storage store fun queue => labels.contains (label queue) := by
  induction labels with
  | nil =>
      symm
      rw [List.map_nil, List.sum_nil, queuedJobs_eq_zero]
      rintro queue ⟨⟩
  | cons one rest ih =>
      rw [List.nodup_cons] at distinct
      rw [List.map_cons, List.sum_cons, ih distinct.2]
      symm
      apply queuedJobs_add
      · intro queue
        rfl
      · intro queue same
        rw [beq_iff_eq.mp same]
        simpa using distinct.1

end Jobs

/-! What is read. -/

section Reading

variable (storage : StorageInternal) (stats : StatsHash) (store : Store)

def knownQueues : List String :=
  (store.lists.keys.filterMap (stripPrefix (storage.keys.queuePrefix ++ ":"))).filter
      (storage.discovers "*") ++
    stats.keys.filterMap fun field => (fieldEntry (field, 0)).map Prod.fst

def knownBases : List String :=
  ((knownQueues storage stats store).map fun queue => (splitQueueStatsKey queue).1).dedup

def dynamicQueues (base : String) : List String :=
  ((knownQueues storage stats store).filter fun queue => isOf base queue && queue != base).dedup

/-- The queues whose lengths make up the count of a base key: its own only when no dynamic
queue is known. -/
def queuesRead (base : String) : List String :=
  if (dynamicQueues storage stats store base).isEmpty then [base]
  else dynamicQueues storage stats store base

def overlooked (base : String) : Nat :=
  queuedJobs storage store fun queue =>
    isOf base queue && !(queuesRead storage stats store base).contains queue

/-- The statistics can be returned, and they count the jobs of all lists. -/
def EnqueuedAddsUp (now : Int64) (clock : String → Int) : Prop :=
  ∃ totals values,
    runAlone (storage.stats now clock stats) store = (some (.ok (totals, values)), store) ∧
    (values.map QueueStats.enqueued).sum = queuedJobs storage store (fun _ => true) ∧
    totals.enqueued = queuedJobs storage store (fun _ => true) ∧
    ∀ value ∈ values, value.enqueued = queuedJobs storage store (isOf value.key)

/-- Every list with jobs is of a known base key, and what a base key overlooks is what it reads
from lists of other names. -/
structure Balanced : Prop where
  known : ∀ queue, store.lists.get (storage.queueKey queue) ≠ [] →
    (splitQueueStatsKey queue).1 ∈ knownBases storage stats store
  even : ∀ base ∈ knownBases storage stats store,
    ((queuesRead storage stats store base).map fun queue =>
      (store.lists.get (storage.namespaceQueue queue)).length).sum =
    ((queuesRead storage stats store base).map fun queue =>
      (store.lists.get (storage.queueKey queue)).length).sum +
        overlooked storage stats store base

def ReadsLegible : Prop :=
  ∀ base ∈ knownBases storage stats store, ∀ queue ∈ queuesRead storage stats store base,
    Legible storage store queue

variable {storage stats store}

theorem isOf_iff {base queue : String} : isOf base queue = true ↔ BaseOf base queue := by
  unfold isOf
  rw [beq_iff_eq, splitQueueStatsKey_fst]

theorem mem_dynamicQueues {base queue : String} :
    queue ∈ dynamicQueues storage stats store base ↔
      queue ∈ knownQueues storage stats store ∧ '#' ∉ base.toList ∧
        ∃ suffix, queue = base ++ "#" ++ suffix := by
  unfold dynamicQueues
  rw [List.mem_dedup, List.mem_filter, Bool.and_eq_true, isOf_iff, bne_iff_ne]
  refine and_congr_right fun _ => ?_
  constructor
  · rintro ⟨⟨plain, same | dynamic⟩, different⟩
    · exact absurd same different
    · exact ⟨plain, dynamic⟩
  · rintro ⟨plain, suffix, rfl⟩
    refine ⟨⟨plain, Or.inr ⟨suffix, rfl⟩⟩, ?_⟩
    intro same
    rw [← String.toList_inj, toList_dynamic] at same
    have lengths := congrArg List.length same
    rw [List.length_append, List.length_cons] at lengths
    omega

theorem queuesRead_nodup (base : String) : (queuesRead storage stats store base).Nodup := by
  unfold queuesRead
  split
  · exact List.nodup_singleton base
  · exact List.nodup_dedup _

theorem mem_knownBases {base : String} :
    base ∈ knownBases storage stats store ↔
      ∃ queue ∈ knownQueues storage stats store, BaseOf base queue := by
  unfold knownBases
  rw [List.mem_dedup, List.mem_map]
  simp only [splitQueueStatsKey_fst]

theorem isOf_of_mem_queuesRead {base queue : String}
    (known : base ∈ knownBases storage stats store)
    (read : queue ∈ queuesRead storage stats store base) : isOf base queue = true := by
  unfold queuesRead at read
  split at read
  · rw [List.mem_singleton.mp read, isOf_iff]
    obtain ⟨_, _, plain, _⟩ := mem_knownBases.mp known
    exact ⟨plain, Or.inl rfl⟩
  · obtain ⟨_, plain, dynamic⟩ := mem_dynamicQueues.mp read
    exact isOf_iff.mpr ⟨plain, Or.inr dynamic⟩

theorem queuedJobs_base {base : String} (known : base ∈ knownBases storage stats store) :
    queuedJobs storage store (isOf base) =
      ((queuesRead storage stats store base).map fun queue =>
        (store.lists.get (storage.queueKey queue)).length).sum +
          overlooked storage stats store base := by
  have singles := sum_queuedJobs storage store id (@queuesRead_nodup storage stats store base)
  have lengths : ((queuesRead storage stats store base).map fun queue =>
      (store.lists.get (storage.queueKey queue)).length) =
        (queuesRead storage stats store base).map fun one =>
          queuedJobs storage store fun queue => id queue == one :=
    List.map_congr_left fun queue _ => (queuedJobs_single storage store queue).symm
  rw [lengths, singles]
  apply queuedJobs_add
  · intro queue
    cases read : (queuesRead storage stats store base).contains queue with
    | true =>
        rw [isOf_of_mem_queuesRead known (List.contains_iff_mem.mp read)]
        simpa using read
    | false => simpa using isOf_of_mem_queuesRead known
  · intro queue read
    have member : (queuesRead storage stats store base).contains queue = true := read
    rw [member, Bool.not_true, Bool.and_false]

end Reading

/-! What is counted. -/

section Counting

variable {storage : StorageInternal} {stats : StatsHash} {store : Store} {now : Int64}
  {clock : String → Int} {found : List String}

def Found (storage : StorageInternal) (store : Store) (found : List String) : Prop :=
  ∀ queue, queue ∈ found ↔ store.lists.get (storage.queueKey queue) ≠ [] ∧
    storage.discovers "*" queue = true

theorem reported_iff_known (unsnapped : ∀ queue, snapshotLength stats now queue = none)
    (scanned : Found storage store found) (queue : String) :
    Reported now stats found queue ↔ queue ∈ knownQueues storage stats store := by
  have unfresh : ¬Snapshotted now stats queue := by
    rw [← snapshotLength_pos_iff]
    rintro ⟨_, fresh, _⟩
    rw [unsnapped] at fresh
    cases fresh
  unfold Reported knownQueues
  rw [List.mem_append, List.mem_filter, scanned,
    or_iff_left (b := Snapshotted now stats queue) unfresh]
  refine or_congr (and_congr_left fun _ => ?_) ?_
  · rw [List.mem_filterMap]
    constructor
    · intro filled
      exact ⟨_, (store.lists.mem_keys _).mpr filled, stripPrefix_eq_some.mpr rfl⟩
    · rintro ⟨key, present, stripped⟩
      obtain rfl := stripPrefix_eq_some.mp stripped
      exact (store.lists.mem_keys _).mp present
  · rw [List.mem_filterMap]
    constructor
    · rintro ⟨stat, plain, notLength, notTime, present⟩
      refine ⟨queue ++ ":" ++ stat, (stats.mem_keys _).mpr present, ?_⟩
      rw [fieldEntry_eq_some.mpr ⟨rfl, plain, notLength, notTime⟩]
      rfl
    · rintro ⟨field, present, entry⟩
      obtain ⟨⟨full, stat, value⟩, made, rfl⟩ := Option.map_eq_some_iff.mp entry
      obtain ⟨same, plain, notLength, notTime⟩ := fieldEntry_eq_some.mp made
      cases same
      exact ⟨stat, plain, notLength, notTime, (stats.mem_keys _).mp present⟩

section Values

variable {values : List QueueStats} (unsnapped : ∀ queue, snapshotLength stats now queue = none)
  (scanned : Found storage store found)
  (entries : QueueEntriesDefined now stats found values)
  (measures : QueueStatsMeasured (reportedLength storage now stats store)
    (queueLatency storage clock store) values)

include unsnapped scanned entries

theorem keys_perm : (values.map QueueStats.key).Perm (knownBases storage stats store) := by
  have distinct : (values.map QueueStats.key).Nodup := by
    rw [List.nodup_iff_pairwise_ne, List.pairwise_map]
    exact entries.sorted.imp fun smaller => ne_of_lt smaller
  refine (List.perm_ext_iff_of_nodup distinct (List.nodup_dedup _)).mpr fun base => ?_
  rw [List.mem_map, entries.bases]
  change _ ↔ base ∈ knownBases storage stats store
  rw [mem_knownBases]
  simp only [reported_iff_known unsnapped scanned]

theorem readQueues_perm {value : QueueStats} (member : value ∈ values) :
    (readQueues value).Perm (queuesRead storage stats store value.key) := by
  have plain : '#' ∉ value.key.toList := by
    obtain ⟨_, _, plain, _⟩ := (entries.bases value.key).mp ⟨value, member, rfl⟩
    exact plain
  have children : ∀ queue, queue ∈ value.queues.map (fun queue => value.key ++ "#" ++ queue.suffix)
      ↔ queue ∈ dynamicQueues storage stats store value.key := by
    intro queue
    rw [List.mem_map, mem_dynamicQueues]
    constructor
    · rintro ⟨child, listed, rfl⟩
      refine ⟨?_, plain, child.suffix, rfl⟩
      rw [← reported_iff_known unsnapped scanned, ← entries.children value member]
      exact ⟨child, listed, rfl⟩
    · rintro ⟨known, _, suffix, rfl⟩
      rw [← reported_iff_known unsnapped scanned, ← entries.children value member] at known
      obtain ⟨child, listed, rfl⟩ := known
      exact ⟨child, listed, rfl⟩
  unfold readQueues queuesRead
  by_cases empty : value.queues = []
  · have none : dynamicQueues storage stats store value.key = [] := by
      rw [List.eq_nil_iff_forall_not_mem]
      intro queue known
      have listed := (children queue).mpr known
      rw [empty] at listed
      cases listed
    rw [empty, none]
    exact List.Perm.refl _
  · have some : dynamicQueues storage stats store value.key ≠ [] := by
      intro none
      obtain ⟨child, listed⟩ := List.exists_mem_of_ne_nil _ empty
      have known := (children _).mp (List.mem_map_of_mem listed)
      rw [none] at known
      cases known
    rw [if_neg fun isEmpty => empty (List.isEmpty_iff.mp isEmpty),
      if_neg fun isEmpty => some (List.isEmpty_iff.mp isEmpty)]
    refine (List.perm_ext_iff_of_nodup ?_ (List.nodup_dedup _)).mpr children
    rw [List.nodup_iff_pairwise_ne, List.pairwise_map]
    refine (entries.childrenSorted value member).imp fun smaller same => ?_
    exact ne_of_lt smaller (append_right_inj _ same)

/-- The counts of all entries add up when each does and every list with jobs is of one. -/
theorem sum_enqueued_iff
    (each : ∀ value ∈ values, value.enqueued = queuedJobs storage store (isOf value.key)) :
    (values.map QueueStats.enqueued).sum = queuedJobs storage store (fun _ => true) ↔
      ∀ queue, store.lists.get (storage.queueKey queue) ≠ [] →
        (splitQueueStatsKey queue).1 ∈ knownBases storage stats store := by
  have keys := keys_perm unsnapped scanned entries
  have distinct : (knownBases storage stats store).Nodup := List.nodup_dedup _
  have labels := sum_queuedJobs storage store (fun queue => (splitQueueStatsKey queue).1) distinct
  have counted : (values.map QueueStats.enqueued).sum =
      queuedJobs storage store fun queue =>
        (knownBases storage stats store).contains (splitQueueStatsKey queue).1 := by
    rw [List.map_congr_left each, ← labels, ← (keys.map _).sum_eq, List.map_map]
    rfl
  have whole : queuedJobs storage store (fun _ => true) =
      (queuedJobs storage store fun queue =>
        (knownBases storage stats store).contains (splitQueueStatsKey queue).1) +
      queuedJobs storage store fun queue =>
        !(knownBases storage stats store).contains (splitQueueStatsKey queue).1 := by
    apply queuedJobs_add
    · intro queue
      rw [Bool.or_not_self]
    · intro queue known
      rw [known]
      rfl
  rw [counted, whole]
  have none := @queuedJobs_eq_zero storage store fun queue =>
    !(knownBases storage stats store).contains (splitQueueStatsKey queue).1
  constructor
  · intro same queue filled
    by_contra unknown
    refine filled (none.mp (by omega) queue ?_)
    simpa using unknown
  · intro known
    rw [none.mpr]
    · rfl
    · intro queue unknown
      by_contra filled
      have member := known queue filled
      simp [member] at unknown

include measures

theorem enqueued_eq {value : QueueStats} (member : value ∈ values) :
    value.enqueued = ((queuesRead storage stats store value.key).map fun queue =>
      (store.lists.get (storage.namespaceQueue queue)).length).sum := by
  have lengths : ∀ queue, reportedLength storage now stats store queue =
      (store.lists.get (storage.namespaceQueue queue)).length := by
    intro queue
    unfold reportedLength
    rw [unsnapped]
    rfl
  rw [← ((readQueues_perm unsnapped scanned entries member).map _).sum_eq]
  unfold readQueues
  by_cases empty : value.queues = []
  · rw [(measures.alone value member empty).1, lengths, empty]
    simp
  · rw [(measures.together value member empty).1,
      if_neg fun isEmpty => empty (List.isEmpty_iff.mp isEmpty), List.map_map]
    congr 1
    apply List.map_congr_left
    intro queue listed
    rw [(measures.dynamic value member queue listed).1, lengths]
    rfl

end Values

theorem foldl_totals (values : List QueueStats) (totals : StatsTotals) :
    (values.foldl StatsTotals.add totals).enqueued =
      totals.enqueued + (values.map QueueStats.enqueued).sum := by
  induction values generalizing totals with
  | nil => rfl
  | cons value rest ih =>
      rw [List.foldl_cons, ih, List.map_cons, List.sum_cons]
      change totals.enqueued + value.enqueued + _ = _
      omega

theorem reads_stats (unsnapped : ∀ queue, snapshotLength stats now queue = none) :
    ∃ found values, Found storage store found ∧ QueueEntriesDefined now stats found values ∧
      QueueStatsMeasured (reportedLength storage now stats store)
        (queueLatency storage clock store) values ∧
      Reads (storage.stats now clock stats) store
        (values.foldl StatsTotals.add ⟨0, 0, 0, 0⟩, values) (ReadsLegible storage stats store) := by
  obtain ⟨found, ran, scanned⟩ := runAlone_queues storage "*" store
  have entries := @builtStats_entries storage clock now stats found store
  refine ⟨found, builtStats storage clock now stats found store, scanned, entries,
    builtStats_measured clock store, ?_⟩
  have scan : Reads (storage.queues "*") store found True := Or.inl ⟨trivial, ran⟩
  have legible : (∀ value ∈ builtStats storage clock now stats found store,
      ∀ queue ∈ readQueues value, Legible storage store queue) ↔
        ReadsLegible storage stats store := by
    have keys := keys_perm unsnapped scanned entries
    constructor
    · intro each base known queue read
      obtain ⟨value, member, rfl⟩ := List.mem_map.mp (keys.mem_iff.mpr known)
      exact each value member queue
        ((readQueues_perm unsnapped scanned entries member).mem_iff.mpr read)
    · intro each value member queue read
      exact each value.key (keys.mem_iff.mp (List.mem_map_of_mem member)) queue
        ((readQueues_perm unsnapped scanned entries member).mem_iff.mp read)
  unfold StorageInternal.stats StorageInternal.statsQueues
  refine Reads.congr ((scan.bind (reads_buildQueueStats clock store)).bind (reads_pure _ store)) ?_
  rw [and_true, true_and]
  exact legible

theorem enqueuedAddsUp_iff (unsnapped : ∀ queue, snapshotLength stats now queue = none) :
    EnqueuedAddsUp storage stats store now clock ↔
      ReadsLegible storage stats store ∧ Balanced storage stats store := by
  obtain ⟨found, values, scanned, entries, measures, reads⟩ :=
    @reads_stats storage stats store now clock unsnapped
  have keys := keys_perm unsnapped scanned entries
  have sums := @sum_enqueued_iff storage stats store now found values unsnapped scanned entries
  have count : ∀ value ∈ values, (value.enqueued = queuedJobs storage store (isOf value.key) ↔
      ((queuesRead storage stats store value.key).map fun queue =>
        (store.lists.get (storage.namespaceQueue queue)).length).sum =
      ((queuesRead storage stats store value.key).map fun queue =>
        (store.lists.get (storage.queueKey queue)).length).sum +
          overlooked storage stats store value.key) := by
    intro value member
    have known := keys.mem_iff.mp (List.mem_map_of_mem member)
    rw [enqueued_eq unsnapped scanned entries measures member, queuedJobs_base known]
  constructor
  · rintro ⟨totals, returned, ran, total, _, each⟩
    rcases reads with ⟨legible, finished⟩ | ⟨_, failed⟩
    · rw [finished] at ran
      cases ran
      refine ⟨legible, (sums each).mp total, ?_⟩
      intro base known
      obtain ⟨value, member, rfl⟩ := List.mem_map.mp (keys.mem_iff.mpr known)
      exact (count value member).mp (each value member)
    · rw [failed] at ran
      cases ran
  · rintro ⟨legible, balanced⟩
    rcases reads with ⟨_, finished⟩ | ⟨illegible, _⟩
    · have each : ∀ value ∈ values,
          value.enqueued = queuedJobs storage store (isOf value.key) := fun value member =>
        (count value member).mpr
          (balanced.even _ (keys.mem_iff.mp (List.mem_map_of_mem member)))
      have total := (sums each).mpr balanced.known
      refine ⟨_, values, finished, total, ?_, each⟩
      rw [foldl_totals, total, Nat.zero_add]
    · exact absurd legible illegible

end Counting

/-! The counts of plainly named queues. -/

theorem discovers_star {storage : StorageInternal}
    (names : SelfMatching storage.keys.namespaceName) (queue : String) :
    storage.discovers "*" queue = true := by
  unfold StorageInternal.discovers
  by_cases raw : startsWith "*" storage.keys.namespaceName = true
  · have pattern : storage.namespaceQueue "*" = "*" := if_pos raw
    rw [pattern]
    exact glob_star _
  · have pattern : storage.namespaceQueue "*" = storage.queueKey "" ++ "*" := by
      rw [StorageInternal.namespaceQueue_plain (by simpa using raw)]
      simp only [StorageInternal.queueKey, String.append_empty]
    have key : storage.queueKey queue = storage.queueKey "" ++ queue := by
      simp only [StorageInternal.queueKey, String.append_empty]
    rw [pattern, key]
    refine glob_self ⟨?_, ?_⟩ queue
    · change '[' ∉ (storage.keys.namespaceName ++ ":queue" ++ ":" ++ "").toList
      simp only [String.toList_append, List.mem_append, not_or]
      exact ⟨⟨⟨names.1, by decide⟩, by decide⟩, by decide⟩
    · change '\\' ∉ (storage.keys.namespaceName ++ ":queue" ++ ":" ++ "").toList
      simp only [String.toList_append, List.mem_append, not_or]
      exact ⟨⟨⟨names.2, by decide⟩, by decide⟩, by decide⟩

section Plain

variable {storage : StorageInternal} {stats : StatsHash} {store : Store}

theorem mem_knownQueues_of_filled (names : SelfMatching storage.keys.namespaceName)
    {queue : String} (filled : store.lists.get (storage.queueKey queue) ≠ []) :
    queue ∈ knownQueues storage stats store := by
  refine List.mem_append_left _ (List.mem_filter.mpr ⟨?_, discovers_star names queue⟩)
  exact List.mem_filterMap.mpr
    ⟨_, (store.lists.mem_keys _).mpr filled, stripPrefix_eq_some.mpr rfl⟩

theorem mem_queuesRead_of_known {queue base : String}
    (known : queue ∈ knownQueues storage stats store) (own : isOf base queue = true)
    (alone : queue = base → dynamicQueues storage stats store base = []) :
    queue ∈ queuesRead storage stats store base := by
  unfold queuesRead
  obtain ⟨plain, same | dynamic⟩ := isOf_iff.mp own
  · rw [alone same, same]
    exact List.mem_singleton_self base
  · have listed := mem_dynamicQueues.mpr ⟨known, plain, dynamic⟩
    rw [if_neg fun empty => by rw [List.isEmpty_iff.mp empty] at listed; cases listed]
    exact listed

theorem balanced_iff (names : SelfMatching storage.keys.namespaceName)
    (plain : ∀ queue ∈ knownQueues storage stats store,
      startsWith queue storage.keys.namespaceName = false) :
    Balanced storage stats store ↔
      ∀ base, store.lists.get (storage.queueKey base) ≠ [] → '#' ∉ base.toList →
        dynamicQueues storage stats store base = [] := by
  have lengths : ∀ base ∈ knownBases storage stats store,
      ((queuesRead storage stats store base).map fun queue =>
        (store.lists.get (storage.namespaceQueue queue)).length) =
      (queuesRead storage stats store base).map fun queue =>
        (store.lists.get (storage.queueKey queue)).length := by
    intro base known
    apply List.map_congr_left
    intro queue read
    have listed : queue ∈ knownQueues storage stats store := by
      unfold queuesRead at read
      split at read
      · rename_i empty
        obtain ⟨other, member, bare, same | dynamic⟩ := mem_knownBases.mp known
        · rw [List.mem_singleton.mp read, ← same]
          exact member
        · have inside := mem_dynamicQueues.mpr ⟨member, bare, dynamic⟩
          rw [List.isEmpty_iff.mp empty] at inside
          cases inside
      · exact (mem_dynamicQueues.mp read).1
    rw [StorageInternal.namespaceQueue_plain (plain queue listed)]
  have even : (∀ base ∈ knownBases storage stats store,
      overlooked storage stats store base = 0) ↔ ∀ base ∈ knownBases storage stats store,
        ((queuesRead storage stats store base).map fun queue =>
          (store.lists.get (storage.namespaceQueue queue)).length).sum =
        ((queuesRead storage stats store base).map fun queue =>
          (store.lists.get (storage.queueKey queue)).length).sum +
            overlooked storage stats store base := by
    refine forall₂_congr fun base known => ?_
    rw [lengths base known]
    omega
  constructor
  · intro balanced base filled bare
    by_contra dynamic
    obtain ⟨child, listed⟩ := List.exists_mem_of_ne_nil _ dynamic
    have known : base ∈ knownBases storage stats store :=
      mem_knownBases.mpr ⟨base, mem_knownQueues_of_filled names filled, bare, Or.inl rfl⟩
    have none := queuedJobs_eq_zero storage store |>.mp (even.mpr balanced.even base known) base
    refine filled (none ?_)
    have unread : base ∉ queuesRead storage stats store base := by
      intro read
      unfold queuesRead at read
      rw [if_neg fun empty => dynamic (List.isEmpty_iff.mp empty)] at read
      have grown := (mem_dynamicQueues.mp read).2.2
      obtain ⟨suffix, same⟩ := grown
      rw [← String.toList_inj, toList_dynamic] at same
      have sizes := congrArg List.length same
      rw [List.length_append, List.length_cons] at sizes
      omega
    rw [isOf_iff.mpr ⟨bare, Or.inl rfl⟩]
    simpa using unread
  · intro separate
    refine ⟨?_, even.mp ?_⟩
    · intro queue filled
      exact mem_knownBases.mpr ⟨queue, mem_knownQueues_of_filled names filled,
        splitQueueStatsKey_fst.mp rfl⟩
    · intro base known
      refine (queuedJobs_eq_zero storage store).mpr ?_
      intro queue chosen
      by_contra filled
      rw [Bool.and_eq_true] at chosen
      have read := mem_queuesRead_of_known
        (mem_knownQueues_of_filled names filled) chosen.1 fun same =>
          separate base (same ▸ filled) (isOf_iff.mp chosen.1).1
      simp [read] at chosen

end Plain

/-- The counts add up exactly when the next jobs decode and no entry overlooks a job; where the
names are plain that is when no base key with jobs of its own has a known dynamic queue. -/
theorem enqueued_adds_up_iff (storage : StorageInternal) (now : Int64) (clock : String → Int)
    (stats : StatsHash) (store : Store)
    (unsnapped : ∀ queue, snapshotLength stats now queue = none) :
    (EnqueuedAddsUp storage stats store now clock ↔
      ReadsLegible storage stats store ∧ Balanced storage stats store) ∧
    (SelfMatching storage.keys.namespaceName →
      (∀ queue ∈ knownQueues storage stats store,
        startsWith queue storage.keys.namespaceName = false) →
      (Balanced storage stats store ↔
        ∀ base, store.lists.get (storage.queueKey base) ≠ [] → '#' ∉ base.toList →
          dynamicQueues storage stats store base = [])) :=
  ⟨enqueuedAddsUp_iff unsnapped, balanced_iff⟩

def pastStats : StatsHash := SparseMap.empty.set "reports#eu:processed" (some 1)

theorem pastStats_unsnapped (now : Int64) (queue : String) :
    snapshotLength pastStats now queue = none := by
  have missing : pastStats.get (queue ++ ":" ++ "enqueued_at") = none := by
    unfold pastStats
    rw [SparseMap.get_set, if_neg]
    · rfl
    · intro same
      have parts : statsKeyParts (queue ++ ":" ++ "enqueued_at") = some (queue, "enqueued_at") :=
        statsKeyParts_iff.mpr ⟨rfl, by decide⟩
      have other : statsKeyParts "reports#eu:processed" = some ("reports#eu", "processed") := by
        decide +kernel
      rw [same, other] at parts
      exact absurd (Prod.mk.inj (Option.some.inj parts)).2 (by decide)
  unfold snapshotLength QueueLengthSnapshot.fresh
  rw [missing]

theorem enqueued_adds_up_iff_dynamic :
    EnqueuedAddsUp lowNode pastStats (Store.empty.withList "low:queue:reports#eu" ["job"]) 0
      fun _ => 0 := by
  obtain ⟨exact, plain⟩ := enqueued_adds_up_iff lowNode 0 (fun _ => 0) pastStats
    (Store.empty.withList "low:queue:reports#eu" ["job"]) (pastStats_unsnapped 0)
  refine exact.mpr ⟨?_, (plain ⟨by decide, by decide⟩ (by decide +kernel)).mpr ?_⟩
  · rintro base _ queue _ id _ text ⟨⟩
  · intro base filled bare
    by_cases same : lowNode.queueKey base = "low:queue:reports#eu"
    · have dynamic : base = "reports#eu" := append_right_inj "low:queue:" same
      rw [dynamic] at bare
      exact absurd bare (by decide)
    · exact absurd (SparseMap.get_set_of_ne _ _ same) filled

/-- The one job of the base key itself is not counted. -/
theorem own_queue_overlooked :
    ¬∀ (storage : StorageInternal) (now : Int64) (clock : String → Int) (stats : StatsHash)
      (store : Store), (∀ queue, snapshotLength stats now queue = none) → Readable store →
        EnqueuedAddsUp storage stats store now clock := by
  intro all
  obtain ⟨totals, values, ran, _, total, _⟩ := all lowNode 0 (fun _ => 0) pastStats
    (Store.empty.withList "low:queue:reports" ["job"]) (pastStats_unsnapped 0)
    (by rintro id text ⟨⟩)
  have counted : ((runAlone (lowNode.stats 0 (fun _ => 0) pastStats)
      (Store.empty.withList "low:queue:reports" ["job"])).1.map fun result =>
        result.map fun returned => returned.1.enqueued) = some (.ok 0) := by decide +kernel
  have queued : queuedJobs lowNode (Store.empty.withList "low:queue:reports" ["job"])
      (fun _ => true) = 1 := by decide +kernel
  rw [ran] at counted
  have none : totals.enqueued = 0 := Except.ok.inj (Option.some.inj counted)
  rw [queued] at total
  omega

end Oxana
