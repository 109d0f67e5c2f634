import Mathlib
import Oxana.MetricFields
import Oxana.QueueStats
import Oxana.StorageRuns

/-!
What the queue statistics are by definition, and that `build_queue_stats` computes them
whatever order its maps iterate in.
-/

namespace Oxana

variable {α β : Type}

/-! The keys. -/

theorem dropWhile_ne_cons {separator : Char} {letters : List Char} {letter : Char}
    {back : List Char} (rest : letters.dropWhile (· != separator) = letter :: back) :
    letters = letters.takeWhile (· != separator) ++ separator :: back := by
  have stopped := List.head?_dropWhile_not (· != separator) letters
  rw [rest] at stopped
  have found : letter = separator := by simpa using stopped
  have whole := @List.takeWhile_append_dropWhile _ (· != separator) letters
  rw [rest, found] at whole
  exact whole.symm

theorem notMem_takeWhile_ne {separator : Char} {letters : List Char} :
    separator ∉ letters.takeWhile (· != separator) := by
  intro member
  have kept := List.all_eq_true.mp (@List.all_takeWhile _ (· != separator) letters) _ member
  simp at kept

theorem splitOnce_iff {separator : Char} {text first second : String} :
    splitOnce separator text = some (first, second) ↔
      text.toList = first.toList ++ separator :: second.toList ∧ separator ∉ first.toList := by
  unfold splitOnce
  constructor
  · intro split
    cases rest : text.toList.dropWhile (· != separator) with
    | nil =>
        rw [rest] at split
        cases split
    | cons letter back =>
        rw [rest] at split
        cases split
        rw [String.toList_ofList, String.toList_ofList]
        exact ⟨dropWhile_ne_cons rest, notMem_takeWhile_ne⟩
  · rintro ⟨whole, plain⟩
    have kept := all_ne_of_notMem plain
    rw [whole, List.dropWhile_append_of_pos kept, List.takeWhile_append_of_pos kept]
    simp

theorem rsplitOnce_iff {separator : Char} {text first second : String} :
    rsplitOnce separator text = some (first, second) ↔
      text.toList = first.toList ++ separator :: second.toList ∧ separator ∉ second.toList := by
  unfold rsplitOnce
  constructor
  · intro split
    cases rest : text.toList.reverse.dropWhile (· != separator) with
    | nil =>
        rw [rest] at split
        cases split
    | cons letter front =>
        rw [rest] at split
        cases split
        rw [String.toList_ofList, String.toList_ofList]
        constructor
        · have reversed := congrArg List.reverse (dropWhile_ne_cons rest)
          rw [List.reverse_reverse, List.reverse_append, List.reverse_cons,
            List.append_assoc] at reversed
          exact reversed
        · intro member
          exact notMem_takeWhile_ne (List.mem_reverse.mp member)
  · rintro ⟨whole, plain⟩
    have kept : ∀ letter ∈ second.toList.reverse, (letter != separator) = true :=
      fun letter member => all_ne_of_notMem plain letter (List.mem_reverse.mp member)
    have reversed : text.toList.reverse =
        second.toList.reverse ++ separator :: first.toList.reverse := by
      rw [whole]
      simp
    rw [reversed, List.dropWhile_append_of_pos kept, List.takeWhile_append_of_pos kept]
    simp

theorem splitOnce_eq_none_iff {separator : Char} {text : String} :
    splitOnce separator text = none ↔ separator ∉ text.toList := by
  unfold splitOnce
  constructor
  · intro whole member
    cases rest : text.toList.dropWhile (· != separator) with
    | nil =>
        have kept := List.dropWhile_eq_nil_iff.mp rest separator member
        simp at kept
    | cons letter back =>
        rw [rest] at whole
        cases whole
  · intro plain
    rw [List.dropWhile_eq_nil_iff.mpr (all_ne_of_notMem plain)]

theorem statsKeyParts_iff {key full stat : String} :
    statsKeyParts key = some (full, stat) ↔ key = full ++ ":" ++ stat ∧ ':' ∉ stat.toList := by
  unfold statsKeyParts
  rw [rsplitOnce_iff, ← toList_join, String.toList_inj]

theorem toList_dynamic (base suffix : String) :
    (base ++ "#" ++ suffix).toList = base.toList ++ '#' :: suffix.toList := by
  rw [String.toList_append, String.toList_append, List.append_assoc]
  rfl

theorem splitQueueStatsKey_dynamic {full base suffix : String} :
    splitQueueStatsKey full = (base, some suffix) ↔
      full = base ++ "#" ++ suffix ∧ '#' ∉ base.toList := by
  rw [← String.toList_inj, toList_dynamic, ← splitOnce_iff]
  unfold splitQueueStatsKey
  cases parts : splitOnce '#' full with
  | none => simp
  | some pair =>
      obtain ⟨first, second⟩ := pair
      simp

theorem splitQueueStatsKey_plain {full base : String} :
    splitQueueStatsKey full = (base, none) ↔ full = base ∧ '#' ∉ base.toList := by
  unfold splitQueueStatsKey
  cases parts : splitOnce '#' full with
  | none =>
      have plain := splitOnce_eq_none_iff.mp parts
      constructor
      · intro same
        cases same
        exact ⟨rfl, plain⟩
      · rintro ⟨rfl, _⟩
        rfl
  | some pair =>
      constructor
      · intro same
        cases same
      · rintro ⟨rfl, plain⟩
        rw [splitOnce_eq_none_iff.mpr plain] at parts
        cases parts

def BaseOf (base full : String) : Prop :=
  '#' ∉ base.toList ∧ (full = base ∨ ∃ suffix, full = base ++ "#" ++ suffix)

theorem splitQueueStatsKey_fst {full base : String} :
    (splitQueueStatsKey full).1 = base ↔ BaseOf base full := by
  constructor
  · rintro rfl
    cases parts : splitQueueStatsKey full with
    | mk base dynamic =>
        cases dynamic with
        | none =>
            obtain ⟨same, plain⟩ := splitQueueStatsKey_plain.mp parts
            exact ⟨plain, Or.inl same⟩
        | some suffix =>
            obtain ⟨same, plain⟩ := splitQueueStatsKey_dynamic.mp parts
            exact ⟨plain, Or.inr ⟨suffix, same⟩⟩
  · rintro ⟨plain, rfl | ⟨suffix, rfl⟩⟩
    · rw [splitQueueStatsKey_plain.mpr ⟨rfl, plain⟩]
    · rw [splitQueueStatsKey_dynamic.mpr ⟨rfl, plain⟩]

/-! The definition. -/

inductive StatCounter
  | processed
  | succeeded
  | panicked
  | failed

def StatCounter.name : StatCounter → String
  | .processed => "processed"
  | .succeeded => "succeeded"
  | .panicked => "panicked"
  | .failed => "failed"

def QueueCounters.get (counters : QueueCounters) : StatCounter → Int64
  | .processed => counters.processed
  | .succeeded => counters.succeeded
  | .panicked => counters.panicked
  | .failed => counters.failed

def fieldValue (stats : StatsHash) (full : String) (counter : StatCounter) : Int64 :=
  (stats.get (full ++ ":" ++ counter.name)).getD 0

open Classical in
noncomputable def baseTotal (stats : StatsHash) (base : String) (counter : StatCounter) : Int :=
  ((stats.keys.filter fun field => ∃ full, BaseOf base full ∧
    field = full ++ ":" ++ counter.name).map fun field => ((stats.get field).getD 0).toInt).sum

/-- The snapshot of a queue length is fresh and positive. -/
def Snapshotted (now : Int64) (stats : StatsHash) (full : String) : Prop :=
  ∃ enqueued refreshedAt, stats.get (full ++ ":" ++ "enqueued") = some enqueued ∧
    stats.get (full ++ ":" ++ "enqueued_at") = some refreshedAt ∧
    now.toInt - refreshedAt.toInt ≤ queueLengthSnapshotTtlSecs ∧ 0 < enqueued.toInt

def Reported (now : Int64) (stats : StatsHash) (queues : List String) (full : String) : Prop :=
  full ∈ queues ∨
  (∃ stat, ':' ∉ stat.toList ∧ stat ≠ "enqueued" ∧ stat ≠ "enqueued_at" ∧
    stats.get (full ++ ":" ++ stat) ≠ none) ∨
  Snapshotted now stats full

structure QueueEntriesDefined (now : Int64) (stats : StatsHash) (queues : List String)
    (values : List QueueStats) : Prop where
  sorted : values.Pairwise fun first second => first.key < second.key
  bases : ∀ base, (∃ value ∈ values, value.key = base) ↔
    ∃ full, Reported now stats queues full ∧ BaseOf base full
  childrenSorted : ∀ value ∈ values,
    value.queues.Pairwise fun first second => first.suffix < second.suffix
  children : ∀ value ∈ values, ∀ suffix, (∃ queue ∈ value.queues, queue.suffix = suffix) ↔
    Reported now stats queues (value.key ++ "#" ++ suffix)

structure QueueStatsDefined (now : Int64) (stats : StatsHash) (queues : List String)
    (values : List QueueStats) : Prop extends QueueEntriesDefined now stats queues values where
  counters : ∀ value ∈ values, ∀ counter,
    (value.counters.get counter).toInt = baseTotal stats value.key counter
  childCounters : ∀ value ∈ values, ∀ queue ∈ value.queues, ∀ counter,
    queue.counters.get counter = fieldValue stats (value.key ++ "#" ++ queue.suffix) counter

/-! What the loop over the hash reads. -/

theorem StatCounter.name_plain (counter : StatCounter) : ':' ∉ counter.name.toList := by
  cases counter <;> decide

theorem QueueCounters.get_add (counters : QueueCounters) (statKey : String) (value : Int64)
    (counter : StatCounter) :
    (counters.add statKey value).get counter =
      if statKey = counter.name then counters.get counter + value else counters.get counter := by
  unfold QueueCounters.add
  split <;> cases counter <;> simp_all [QueueCounters.get, StatCounter.name]

def fieldEntry (field : String × Int64) : Option (String × String × Int64) :=
  match statsKeyParts field.1 with
  | none => none
  | some (full, stat) =>
      if stat = "enqueued" ∨ stat = "enqueued_at" then none else some (full, stat, field.2)

theorem fieldEntry_eq_some {field : String × Int64} {full stat : String} {value : Int64} :
    fieldEntry field = some (full, stat, value) ↔
      field = (full ++ ":" ++ stat, value) ∧ ':' ∉ stat.toList ∧ stat ≠ "enqueued" ∧
        stat ≠ "enqueued_at" := by
  unfold fieldEntry
  cases parts : statsKeyParts field.1 with
  | none =>
      constructor
      · rintro ⟨⟩
      · rintro ⟨rfl, plain, _⟩
        rw [statsKeyParts_iff.mpr ⟨rfl, plain⟩] at parts
        cases parts
  | some pair =>
      obtain ⟨first, second⟩ := pair
      obtain ⟨key, plain⟩ := statsKeyParts_iff.mp parts
      constructor
      · intro entry
        dsimp only at entry
        split at entry
        · cases entry
        · rename_i other
          cases entry
          rw [not_or] at other
          exact ⟨Prod.ext key rfl, plain, other.1, other.2⟩
      · rintro ⟨rfl, given, notLength, notTime⟩
        have same := statsKeyParts_iff.mpr (⟨rfl, given⟩ : full ++ ":" ++ stat =
          full ++ ":" ++ stat ∧ ':' ∉ stat.toList)
        rw [same] at parts
        cases parts
        dsimp only
        rw [if_neg (not_or.mpr ⟨notLength, notTime⟩)]

theorem note_values (queues : List String) (readings : StatsReadings) (field : String × Int64) :
    (readings.note false queues field).values =
      readings.values ++ (fieldEntry field).toList := by
  unfold StatsReadings.note fieldEntry
  cases statsKeyParts field.1 with
  | none => simp
  | some pair =>
      obtain ⟨full, stat⟩ := pair
      dsimp only
      simp only [Bool.false_and, Bool.false_eq_true, if_false]
      split
      · simp
      · simp
      · rename_i notLength notTime
        rw [if_neg (not_or.mpr ⟨notLength, notTime⟩)]
        rfl

def QueueLengthSnapshot.after (full : String) (field : String × Int64)
    (snapshot : QueueLengthSnapshot) : QueueLengthSnapshot where
  enqueued :=
    if field.1 = full ++ ":" ++ "enqueued" then some field.2 else snapshot.enqueued
  refreshedAt :=
    if field.1 = full ++ ":" ++ "enqueued_at" then some field.2 else snapshot.refreshedAt

theorem note_snapshots (queues : List String) (readings : StatsReadings)
    (field : String × Int64) (full : String) :
    (readings.note false queues field).snapshots.get full =
      (readings.snapshots.get full).after full field := by
  have length : ':' ∉ "enqueued".toList := by decide
  have time : ':' ∉ "enqueued_at".toList := by decide
  have isLength := @statsKeyParts_iff field.1 full "enqueued"
  have isTime := @statsKeyParts_iff field.1 full "enqueued_at"
  simp only [length, time, not_false_eq_true, and_true] at isLength isTime
  unfold StatsReadings.note QueueLengthSnapshot.after
  simp only [← isLength, ← isTime]
  cases statsKeyParts field.1 with
  | none => simp
  | some pair =>
      obtain ⟨found, stat⟩ := pair
      dsimp only
      simp only [Bool.false_and, Bool.false_eq_true, if_false, Option.some.injEq, Prod.mk.injEq]
      split
      · by_cases same : full = found
        · simp [same]
        · simp [same, Ne.symm same]
      · by_cases same : full = found
        · simp [same]
        · simp [same, Ne.symm same]
      · rename_i notLength notTime
        rw [if_neg fun both => notLength both.2, if_neg fun both => notTime both.2]

section Readings

variable (queues : List String) (fields : List (String × Int64))

theorem foldl_note_values (readings : StatsReadings) :
    (fields.foldl (StatsReadings.note false queues) readings).values =
      readings.values ++ fields.filterMap fieldEntry := by
  induction fields generalizing readings with
  | nil => simp
  | cons field rest ih =>
      rw [List.foldl_cons, ih, note_values, List.append_assoc]
      cases entry : fieldEntry field with
      | none => rw [List.filterMap_cons_none entry]; rfl
      | some value => rw [List.filterMap_cons_some entry]; rfl

theorem foldl_note_snapshots (readings : StatsReadings) (full : String) :
    (fields.foldl (StatsReadings.note false queues) readings).snapshots.get full =
      fields.foldl (fun snapshot field => snapshot.after full field)
        (readings.snapshots.get full) := by
  induction fields generalizing readings with
  | nil => rfl
  | cons field rest ih => rw [List.foldl_cons, List.foldl_cons, ih, note_snapshots]

end Readings

theorem snapshot_of_fields {fields : List (String × Int64)} {full : String}
    (distinct : (fields.map Prod.fst).Nodup) (snapshot : QueueLengthSnapshot) :
    let read := fields.foldl (fun snapshot field => snapshot.after full field) snapshot
    read.enqueued = (fields.lookup (full ++ ":" ++ "enqueued")).or snapshot.enqueued ∧
    read.refreshedAt = (fields.lookup (full ++ ":" ++ "enqueued_at")).or snapshot.refreshedAt := by
  induction fields generalizing snapshot with
  | nil => exact ⟨rfl, rfl⟩
  | cons field rest ih =>
      rw [List.map_cons, List.nodup_cons] at distinct
      obtain ⟨length, time⟩ := ih distinct.2 (snapshot.after full field)
      have later : ∀ key, key = field.1 → rest.lookup key = none := by
        rintro key rfl
        rw [List.lookup_eq_none_iff]
        intro other member
        rw [bne_iff_ne]
        intro same
        exact distinct.1 (same ▸ List.mem_map_of_mem member)
      obtain ⟨key, value⟩ := field
      intro read
      change read.enqueued = _ at length
      change read.refreshedAt = _ at time
      rw [length, time, List.lookup_cons, List.lookup_cons]
      unfold QueueLengthSnapshot.after
      constructor
      · by_cases same : key = full ++ ":" ++ "enqueued"
        · simp [same, later]
        · have other : (full ++ ":" ++ "enqueued" == key) = false := by
            rw [beq_eq_false_iff_ne]
            exact Ne.symm same
          simp [same, other]
      · by_cases same : key = full ++ ":" ++ "enqueued_at"
        · simp [same, later]
        · have other : (full ++ ":" ++ "enqueued_at" == key) = false := by
            rw [beq_eq_false_iff_ne]
            exact Ne.symm same
          simp [same, other]

def hashFields (stats : StatsHash) (keys : List String) : List (String × Int64) :=
  keys.filterMap fun key => (stats.get key).map fun value => (key, value)

theorem lookup_hashFields (stats : StatsHash) (keys : List String) (key : String) :
    (hashFields stats keys).lookup key = if key ∈ keys then stats.get key else none := by
  induction keys with
  | nil => rfl
  | cons first rest ih =>
      unfold hashFields at ih ⊢
      cases value : stats.get first with
      | none =>
          rw [List.filterMap_cons_none (by rw [value]; rfl), ih]
          by_cases same : key = first
          · rw [same, value]
            simp
          · simp [same]
      | some found =>
          rw [List.filterMap_cons_some (by rw [value]; rfl), List.lookup_cons]
          by_cases same : key = first
          · simp [same, value]
          · have other : (key == first) = false := beq_eq_false_iff_ne.mpr same
            rw [other]
            simpa [same] using ih

theorem map_hashFields {stats : StatsHash} {keys : List String}
    (present : ∀ key ∈ keys, stats.get key ≠ none) :
    (hashFields stats keys).map Prod.fst = keys := by
  induction keys with
  | nil => rfl
  | cons key rest ih =>
      obtain ⟨value, found⟩ := Option.ne_none_iff_exists'.mp (present key List.mem_cons_self)
      have others := ih fun other member => present other (List.mem_cons_of_mem _ member)
      unfold hashFields at others ⊢
      rw [List.filterMap_cons_some (by rw [found]; rfl), List.map_cons, others]

section Arranged

variable (storage : StorageInternal) (stats : StatsHash) (queues : List String)

def arrangedFields : List (String × Int64) :=
  hashFields stats (storage.order.arrange stats.keys)

theorem lookup_arrangedFields (key : String) :
    (arrangedFields storage stats).lookup key = stats.get key := by
  unfold arrangedFields
  rw [lookup_hashFields]
  split
  · rfl
  · rename_i absent
    by_contra present
    exact absent ((storage.order.perm _).mem_iff.mpr ((stats.mem_keys key).mpr (Ne.symm present)))

theorem arrangedFields_distinct : ((arrangedFields storage stats).map Prod.fst).Nodup := by
  have arranged := storage.order.perm stats.keys
  unfold arrangedFields
  rw [map_hashFields fun key member => (stats.mem_keys key).mp (arranged.mem_iff.mp member)]
  exact arranged.nodup_iff.mpr stats.nodup

theorem statsReadings_values :
    (storage.statsReadings stats queues false).values =
      (queues.map fun queue => (queue, "processed", 0)) ++
        (arrangedFields storage stats).filterMap fieldEntry :=
  foldl_note_values queues _ _

theorem statsReadings_snapshots (full : String) :
    (storage.statsReadings stats queues false).snapshots.get full =
      ⟨stats.get (full ++ ":" ++ "enqueued"), stats.get (full ++ ":" ++ "enqueued_at")⟩ := by
  have read := foldl_note_snapshots queues (arrangedFields storage stats)
    ⟨queues.map fun queue => (queue, "processed", 0), .empty⟩ full
  obtain ⟨length, time⟩ := @snapshot_of_fields (arrangedFields storage stats) full
    (arrangedFields_distinct storage stats) ⟨none, none⟩
  rw [lookup_arrangedFields, Option.or_none] at length time
  refine read.trans ?_
  change List.foldl _ (⟨none, none⟩ : QueueLengthSnapshot) _ = _
  rw [← length, ← time]

def snapshotLength (now : Int64) (full : String) : Option Nat :=
  QueueLengthSnapshot.fresh
    ⟨stats.get (full ++ ":" ++ "enqueued"), stats.get (full ++ ":" ++ "enqueued_at")⟩ now

theorem freshSnapshot_eq (now : Int64) (full : String) :
    freshQueueLengthSnapshot (storage.statsReadings stats queues false).snapshots full now =
      snapshotLength stats now full := by
  unfold freshQueueLengthSnapshot snapshotLength
  rw [statsReadings_snapshots]

theorem snapshotLength_pos_iff (now : Int64) (full : String) :
    (∃ enqueued, snapshotLength stats now full = some enqueued ∧ 0 < enqueued) ↔
      Snapshotted now stats full := by
  unfold snapshotLength QueueLengthSnapshot.fresh Snapshotted
  cases time : stats.get (full ++ ":" ++ "enqueued_at") with
  | none => simp
  | some refreshedAt =>
      cases length : stats.get (full ++ ":" ++ "enqueued") with
      | none => simp
      | some enqueued =>
          dsimp only
          constructor
          · rintro ⟨value, found, positive⟩
            split at found
            · cases found
            · rename_i fresh
              split at found
              · cases found
                exact ⟨enqueued, refreshedAt, rfl, rfl, by omega, by omega⟩
              · cases found
          · rintro ⟨_, _, one, two, fresh, positive⟩
            cases one
            cases two
            refine ⟨enqueued.toInt.toNat, ?_, by omega⟩
            rw [if_neg (by omega), if_pos (by omega)]

end Arranged

/-! The entries of the map. -/

def queueScheme : KeyedList.Scheme QueueStats.key (String × String × Int64) where
  target := fun entry => (splitQueueStatsKey entry.1).1
  fresh := QueueStats.new
  change := fun entry =>
    QueueStats.addValue (splitQueueStatsKey entry.1).2 entry.2.1 entry.2.2
  made := fun _ => rfl
  keeps := fun _ _ => rfl

def dynamicScheme : KeyedList.Scheme DynamicQueueStats.suffix (String × String × Int64) where
  target := fun entry => entry.1
  fresh := DynamicQueueStats.new
  change := fun entry => DynamicQueueStats.addValue entry.2.1 entry.2.2
  made := fun _ => rfl
  keeps := fun _ _ => rfl

def dynamicUpdate (entry : String × String × Int64) : Option (String × String × Int64) :=
  (splitQueueStatsKey entry.1).2.map fun suffix => (suffix, entry.2)

theorem addValue_none (queue : DynamicQueueStats) : queue.addValue "" 0 = queue := rfl

theorem ensureQueueStatsEntry_eq (map : List QueueStats) (full : String) :
    ensureQueueStatsEntry map full = queueScheme.apply map (full, "", 0) := by
  have same : QueueStats.ensureDynamic (splitQueueStatsKey full).2 =
      QueueStats.addValue (splitQueueStatsKey full).2 "" 0 := by
    funext stats
    unfold QueueStats.ensureDynamic QueueStats.addValue
    cases (splitQueueStatsKey full).2 with
    | none => rfl
    | some suffix =>
        have added : KeyedList.upsert DynamicQueueStats.suffix suffix (.new suffix)
            (DynamicQueueStats.addValue "" 0) stats.queues = _ :=
          KeyedList.upsert_of_unchanged addValue_none stats.queues
        dsimp only
        rw [added]
        by_cases present : suffix ∈ stats.queues.map DynamicQueueStats.suffix
        · have found : (stats.queues.any fun queue => queue.suffix == suffix) = true := by
            obtain ⟨queue, member, rfl⟩ := List.mem_map.mp present
            exact List.any_eq_true.mpr ⟨queue, member, beq_self_eq_true _⟩
          rw [if_pos present, if_pos found]
          rfl
        · have missing : ¬(stats.queues.any fun queue => queue.suffix == suffix) = true := by
            intro found
            obtain ⟨queue, member, equal⟩ := List.any_eq_true.mp found
            exact present (beq_iff_eq.mp equal ▸ List.mem_map_of_mem member)
          rw [if_neg present, if_neg missing]
          rfl
  exact congrArg (fun change => KeyedList.upsert QueueStats.key (splitQueueStatsKey full).1
    (.new (splitQueueStatsKey full).1) change map) same

section Updates

variable (storage : StorageInternal) (now : Int64) (stats : StatsHash) (queues : List String)

def freshQueues : List String :=
  let readings := storage.statsReadings stats queues false
  (storage.order.arrange readings.snapshots.keys).filter fun queue =>
    (freshQueueLengthSnapshot readings.snapshots queue now).any fun enqueued =>
      decide (0 < enqueued)

def queueUpdates : List (String × String × Int64) :=
  (storage.statsReadings stats queues false).values ++
    (freshQueues storage now stats queues).map fun queue => (queue, "", 0)

theorem queueEntries_collected :
    queueScheme.Collected (queueUpdates storage now stats queues)
      (storage.queueEntries now (storage.statsReadings stats queues false)) := by
  have collected := queueScheme.collected (queueUpdates storage now stats queues)
  have ensured : ∀ (names : List String) (map : List QueueStats),
      names.foldl ensureQueueStatsEntry map =
        (names.map fun queue => (queue, "", (0 : Int64))).foldl queueScheme.apply map := by
    intro names
    induction names with
    | nil => intro map; rfl
    | cons name rest ih =>
        intro map
        rw [List.foldl_cons, ensureQueueStatsEntry_eq, ih]
        rfl
  unfold queueUpdates at collected ⊢
  rw [List.foldl_append, ← ensured] at collected
  exact collected

end Updates

/-! The sums. -/

def counted (counter : StatCounter) (updates : List (String × String × Int64)) : Int :=
  ((updates.filter fun update => update.2.1 = counter.name).map fun update =>
    update.2.2.toInt).sum

theorem counted_cons (counter : StatCounter) (update : String × String × Int64)
    (rest : List (String × String × Int64)) :
    counted counter (update :: rest) =
      (if update.2.1 = counter.name then update.2.2.toInt else 0) + counted counter rest := by
  unfold counted
  by_cases same : update.2.1 = counter.name
  · simp [same]
  · simp [same]

theorem counted_append (counter : StatCounter) (first second : List (String × String × Int64)) :
    counted counter (first ++ second) = counted counter first + counted counter second := by
  unfold counted
  rw [List.filter_append, List.map_append, List.sum_append]

theorem get_foldl_add (counter : StatCounter) (updates : List (String × String × Int64))
    (counters : QueueCounters) :
    (updates.foldl (fun counters update => counters.add update.2.1 update.2.2) counters).get
        counter = counters.get counter + Int64.ofInt (counted counter updates) := by
  induction updates generalizing counters with
  | nil => simp [counted]
  | cons update rest ih =>
      rw [List.foldl_cons, ih, QueueCounters.get_add, counted_cons]
      split
      · rw [Int64.ofInt_add, Int64.ofInt_toInt, Int64.add_assoc]
      · rw [Int.zero_add]

theorem get_zero (counter : StatCounter) : QueueCounters.zero.get counter = 0 := by
  cases counter <;> rfl

theorem record_counters (updates : List (String × String × Int64)) (base : String)
    (counter : StatCounter) :
    (queueScheme.record updates base).counters.get counter =
      Int64.ofInt (counted counter
        (updates.filter fun update => (splitQueueStatsKey update.1).1 = base)) := by
  rw [KeyedList.Scheme.view_record QueueStats.counters
    (fun counters update => counters.add update.2.1 update.2.2) (fun _ _ => rfl), get_foldl_add]
  change QueueCounters.zero.get counter + _ = _
  rw [get_zero, Int64.zero_add]
  rfl

theorem dynamic_record_counters (updates : List (String × String × Int64)) (suffix : String)
    (counter : StatCounter) :
    (dynamicScheme.record updates suffix).counters.get counter =
      Int64.ofInt (counted counter (updates.filter fun update => update.1 = suffix)) := by
  rw [KeyedList.Scheme.view_record DynamicQueueStats.counters
    (fun counters update => counters.add update.2.1 update.2.2) (fun _ _ => rfl), get_foldl_add]
  change QueueCounters.zero.get counter + _ = _
  rw [get_zero, Int64.zero_add]
  rfl

theorem record_queues (updates : List (String × String × Int64)) (base : String) :
    (queueScheme.record updates base).queues =
      ((updates.filter fun update => (splitQueueStatsKey update.1).1 = base).filterMap
        dynamicUpdate).foldl dynamicScheme.apply [] := by
  rw [List.foldl_filterMap]
  refine KeyedList.Scheme.view_record QueueStats.queues _ ?_ updates base
  intro update value
  change (QueueStats.addValue (splitQueueStatsKey update.1).2 update.2.1 update.2.2 value).queues = _
  unfold QueueStats.addValue dynamicUpdate
  cases (splitQueueStatsKey update.1).2 with
  | none => rfl
  | some suffix => rfl

theorem counted_dynamic (counter : StatCounter) (updates : List (String × String × Int64))
    {base : String} (plain : '#' ∉ base.toList) (suffix : String) :
    counted counter (((updates.filter fun update => (splitQueueStatsKey update.1).1 = base).filterMap
        dynamicUpdate).filter fun update => update.1 = suffix) =
      counted counter (updates.filter fun update => update.1 = base ++ "#" ++ suffix) := by
  induction updates with
  | nil => rfl
  | cons update rest ih =>
      have whole : update.1 = base ++ "#" ++ suffix ↔
          splitQueueStatsKey update.1 = (base, some suffix) := by
        rw [splitQueueStatsKey_dynamic]
        exact ⟨fun same => ⟨same, plain⟩, And.left⟩
      obtain ⟨key, statKey, value⟩ := update
      dsimp only at whole
      simp only [List.filter_cons, decide_eq_true_eq, whole]
      cases parts : splitQueueStatsKey key with
      | mk found dynamic =>
          by_cases same : found = base
          · subst same
            cases dynamic with
            | none =>
                rw [if_pos rfl, List.filterMap_cons_none (by rw [dynamicUpdate, parts]; rfl), ih]
                simp
            | some other =>
                rw [if_pos rfl, List.filterMap_cons_some (by rw [dynamicUpdate, parts]; rfl)]
                by_cases equal : other = suffix
                · subst equal
                  simp [counted_cons, ih]
                · simp [equal, ih]
          · simp [same, ih]

theorem counted_of_zero (counter : StatCounter) {updates : List (String × String × Int64)}
    (zero : ∀ update ∈ updates, update.2.2 = 0) : counted counter updates = 0 := by
  induction updates with
  | nil => rfl
  | cons update rest ih =>
      rw [counted_cons, zero update List.mem_cons_self,
        ih fun other member => zero other (List.mem_cons_of_mem _ member)]
      split <;> rfl

section Totals

variable (stats : StatsHash) (counter : StatCounter) (select : String → Prop)

open Classical in
noncomputable def selectedTotal (keys : List String) : Int :=
  ((keys.filter fun field => ∃ full, select full ∧ field = full ++ ":" ++ counter.name).map
    fun field => ((stats.get field).getD 0).toInt).sum

theorem selectedTotal_cons (key : String) (rest : List String) :
    selectedTotal stats counter select (key :: rest) =
      (open Classical in if ∃ full, select full ∧ key = full ++ ":" ++ counter.name then
        ((stats.get key).getD 0).toInt else 0) + selectedTotal stats counter select rest := by
  unfold selectedTotal
  by_cases same : ∃ full, select full ∧ key = full ++ ":" ++ counter.name
  · rw [List.filter_cons_of_pos (by simpa using same), if_pos same, List.map_cons, List.sum_cons]
  · rw [List.filter_cons_of_neg (by simpa using same), if_neg same, Int.zero_add]

theorem selectedTotal_perm {first second : List String} (same : first.Perm second) :
    selectedTotal stats counter select first = selectedTotal stats counter select second := by
  unfold selectedTotal
  exact ((same.filter _).map _).sum_eq

theorem counted_hashFields [DecidablePred select] (keys : List String) :
    counted counter (((hashFields stats keys).filterMap fieldEntry).filter fun update =>
      select update.1) = selectedTotal stats counter select keys := by
  have snapshots : counter.name ≠ "enqueued" ∧ counter.name ≠ "enqueued_at" := by
    cases counter <;> decide
  induction keys with
  | nil => rfl
  | cons key rest ih =>
      rw [selectedTotal_cons, ← ih]
      unfold hashFields
      cases value : stats.get key with
      | none =>
          rw [List.filterMap_cons_none (by rw [value]; rfl)]
          simp
      | some found =>
          rw [List.filterMap_cons_some (by rw [value]; rfl)]
          by_cases chosen : ∃ full, select full ∧ key = full ++ ":" ++ counter.name
          · obtain ⟨full, wanted, rfl⟩ := chosen
            have entry : fieldEntry (full ++ ":" ++ counter.name, found) =
                some (full, counter.name, found) :=
              fieldEntry_eq_some.mpr ⟨rfl, counter.name_plain, snapshots⟩
            rw [List.filterMap_cons_some entry, List.filter_cons_of_pos (by simpa using wanted),
              counted_cons, if_pos rfl, if_pos ⟨full, wanted, rfl⟩]
            rfl
          · rw [if_neg chosen, Int.zero_add]
            cases entry : fieldEntry (key, found) with
            | none => rw [List.filterMap_cons_none entry]
            | some update =>
                obtain ⟨full, stat, amount⟩ := update
                obtain ⟨same, _⟩ := fieldEntry_eq_some.mp entry
                cases same
                rw [List.filterMap_cons_some entry, List.filter_cons]
                split
                · rename_i wanted
                  rw [counted_cons, if_neg, Int.zero_add]
                  rintro rfl
                  exact chosen ⟨full, by simpa using wanted, rfl⟩
                · rfl

theorem counted_queueUpdates [DecidablePred select] (storage : StorageInternal) (now : Int64)
    (queues : List String) :
    counted counter ((queueUpdates storage now stats queues).filter fun update =>
      select update.1) = selectedTotal stats counter select stats.keys := by
  have listed : counted counter ((queues.map fun queue => (queue, "processed", (0 : Int64))).filter
      fun update => select update.1) = 0 := by
    apply counted_of_zero
    intro update member
    obtain ⟨_, _, rfl⟩ := List.mem_map.mp (List.mem_of_mem_filter member)
    rfl
  have ensured : counted counter (((freshQueues storage now stats queues).map fun queue =>
      (queue, "", (0 : Int64))).filter fun update => select update.1) = 0 := by
    apply counted_of_zero
    intro update member
    obtain ⟨_, _, rfl⟩ := List.mem_map.mp (List.mem_of_mem_filter member)
    rfl
  unfold queueUpdates
  rw [statsReadings_values, List.filter_append, List.filter_append, counted_append,
    counted_append, listed, ensured, Int.zero_add, Int.add_zero]
  unfold arrangedFields
  rw [counted_hashFields]
  exact selectedTotal_perm stats counter select (storage.order.perm _)

theorem selectedTotal_single (full : String) :
    selectedTotal stats counter (fun other => other = full) stats.keys =
      (fieldValue stats full counter).toInt := by
  unfold selectedTotal fieldValue
  have single : (stats.keys.filter fun field =>
      open Classical in decide (∃ other, other = full ∧ field = other ++ ":" ++ counter.name)) =
        stats.keys.filter fun field => field = full ++ ":" ++ counter.name := by
    apply List.filter_congr
    intro field _
    simp
  rw [single, List.filter_eq]
  by_cases present : full ++ ":" ++ counter.name ∈ stats.keys
  · rw [List.count_eq_one_of_mem stats.nodup present]
    simp
  · have absent : stats.get (full ++ ":" ++ counter.name) = none := by
      by_contra known
      exact present ((stats.mem_keys _).mpr known)
    rw [List.count_eq_zero_of_not_mem present, absent]
    rfl

end Totals

/-! What is read of the queues. -/

/-- A program that reads the store: it gives a value when what it reads is legible and the
error of the decoder otherwise. -/
def Reads (program : Redis α) (store : Store) (value : α) (legible : Prop) : Prop :=
  (legible ∧ runAlone program store = (some (.ok value), store)) ∨
    (¬legible ∧ runAlone program store = (some (.error .jsonError), store))

theorem reads_pure (value : α) (store : Store) : Reads (pure value) store value True :=
  Or.inl ⟨trivial, rfl⟩

theorem Reads.bind {program : Redis α} {rest : α → Redis β} {store : Store} {value : α}
    {result : β} {first second : Prop} (reads : Reads program store value first)
    (later : Reads (rest value) store result second) :
    Reads (program >>= rest) store result (first ∧ second) := by
  unfold Reads
  rw [runAlone_bind]
  rcases reads with ⟨legible, ran⟩ | ⟨illegible, ran⟩
  · rw [ran]
    rcases later with ⟨also, finished⟩ | ⟨not, finished⟩
    · exact Or.inl ⟨⟨legible, also⟩, finished⟩
    · exact Or.inr ⟨fun both => not both.2, finished⟩
  · rw [ran]
    exact Or.inr ⟨fun both => illegible both.1, rfl⟩

theorem Reads.congr {program : Redis α} {store : Store} {value : α} {first second : Prop}
    (reads : Reads program store value first) (same : first ↔ second) :
    Reads program store value second := by
  unfold Reads at reads ⊢
  rwa [same] at reads

section Measures

variable (storage : StorageInternal) (clock : String → Int) (now : Int64)
  (snapshots : QueueLengthSnapshots) (store : Store)

def Legible (queue : String) : Prop :=
  ∀ id, (store.lists.get (storage.namespaceQueue queue)).getLast? = some id →
    ∀ text, store.jobs.get id = some text → ∃ envelope, text = .json envelope

def queueLength (queue : String) : Nat :=
  (freshQueueLengthSnapshot snapshots queue now).getD
    (store.lists.get (storage.namespaceQueue queue)).length

def queueLatency (queue : String) : Int :=
  match (store.lists.get (storage.namespaceQueue queue)).getLast? with
  | none => 0
  | some id =>
      match store.jobs.get id with
      | some (.json envelope) => clock queue -
          (if 0 < envelope.metadata.scheduledAt then envelope.metadata.scheduledAt
            else envelope.metadata.createdAt)
      | _ => 0

theorem reads_enqueuedOrSnapshot (queue : String) :
    Reads (storage.enqueuedOrSnapshot now snapshots queue) store
      (queueLength storage now snapshots store queue) True := by
  refine Or.inl ⟨trivial, ?_⟩
  unfold StorageInternal.enqueuedOrSnapshot queueLength
  cases freshQueueLengthSnapshot snapshots queue now with
  | none => rfl
  | some enqueued => rfl

theorem reads_latency (queue : String) :
    Reads (storage.latencyMicrosWConn (clock queue) queue) store
      (queueLatency storage clock store queue) (Legible storage store queue) := by
  unfold StorageInternal.latencyMicrosWConn Reads queueLatency Legible
  rw [runAlone_bind, runAlone_ask]
  simp only [serve, Program.resume_ok]
  cases (store.lists.get (storage.namespaceQueue queue)).getLast? with
  | none => exact Or.inl ⟨by rintro _ ⟨⟩, rfl⟩
  | some id =>
      dsimp only
      rw [runAlone_bind, StorageInternal.runAlone_getJob]
      unfold lookup
      cases found : store.jobs.get id with
      | none =>
          refine Or.inl ⟨?_, rfl⟩
          intro other same text stored
          cases same
          rw [found] at stored
          cases stored
      | some text =>
          cases text with
          | json envelope =>
              refine Or.inl ⟨?_, rfl⟩
              intro other same text stored
              cases same
              rw [found] at stored
              cases stored
              exact ⟨envelope, rfl⟩
          | malformed text =>
              refine Or.inr ⟨?_, rfl⟩
              intro legible
              obtain ⟨envelope, same⟩ := legible id rfl _ found
              cases same

theorem reads_measureQueue (queue : String) :
    Reads (storage.measureQueue clock now snapshots queue) store
      (queueLength storage now snapshots store queue, queueLatency storage clock store queue)
      (Legible storage store queue) := by
  unfold StorageInternal.measureQueue
  refine Reads.congr ((reads_enqueuedOrSnapshot storage now snapshots store queue).bind
    ((reads_latency storage clock store queue).bind (reads_pure _ store))) ?_
  rw [true_and, and_true]

def measuredDynamic (key : String) (queue : DynamicQueueStats) : DynamicQueueStats :=
  { queue with
    enqueued := queueLength storage now snapshots store (key ++ "#" ++ queue.suffix)
    latencyMicros := queueLatency storage clock store (key ++ "#" ++ queue.suffix) }

theorem reads_measureDynamic (key : String) (queues : List DynamicQueueStats) :
    Reads (storage.measureDynamic clock now snapshots key queues) store
      (queues.map (measuredDynamic storage clock now snapshots store key))
      (∀ queue ∈ queues, Legible storage store (key ++ "#" ++ queue.suffix)) := by
  induction queues with
  | nil => exact (reads_pure _ store).congr (by simp)
  | cons queue rest ih =>
      unfold StorageInternal.measureDynamic
      refine Reads.congr ((reads_measureQueue storage clock now snapshots store _).bind
        (ih.bind (reads_pure _ store))) ?_
      rw [and_true, List.forall_mem_cons]

def readQueues (value : QueueStats) : List String :=
  if value.queues.isEmpty then [value.key]
  else value.queues.map fun queue => value.key ++ "#" ++ queue.suffix

def measured (value : QueueStats) : QueueStats :=
  if value.queues.isEmpty then { value with
    enqueued := queueLength storage now snapshots store value.key
    latencyMicros := queueLatency storage clock store value.key }
  else
    let queues := value.queues.map (measuredDynamic storage clock now snapshots store value.key)
    { value with
      enqueued := queues.foldl (fun total queue => total + queue.enqueued) value.enqueued
      latencyMicros := queues.foldl (fun longest queue => max longest queue.latencyMicros)
        value.latencyMicros
      queues := KeyedList.sortBy DynamicQueueStats.suffix queues }

theorem reads_measure (value : QueueStats) :
    Reads (storage.measure clock now snapshots value) store
      (measured storage clock now snapshots store value)
      (∀ queue ∈ readQueues value, Legible storage store queue) := by
  unfold StorageInternal.measure measured readQueues
  by_cases empty : value.queues.isEmpty = true
  · rw [if_pos empty, if_pos empty, if_pos empty]
    refine Reads.congr ((reads_measureQueue storage clock now snapshots store _).bind
      (reads_pure _ store)) ?_
    simp
  · rw [if_neg empty, if_neg empty, if_neg empty]
    refine Reads.congr ((reads_measureDynamic storage clock now snapshots store _ _).bind
      (reads_pure _ store)) ?_
    simp

theorem reads_measureAll (values : List QueueStats) :
    Reads (storage.measureAll clock now snapshots values) store
      (values.map (measured storage clock now snapshots store))
      (∀ value ∈ values, ∀ queue ∈ readQueues value, Legible storage store queue) := by
  induction values with
  | nil => exact (reads_pure _ store).congr (by simp)
  | cons value rest ih =>
      unfold StorageInternal.measureAll
      refine Reads.congr ((reads_measure storage clock now snapshots store value).bind
        (ih.bind (reads_pure _ store))) ?_
      rw [and_true, List.forall_mem_cons]

end Measures

/-! The result. -/

theorem mem_arrangedFields (storage : StorageInternal) (stats : StatsHash) (key : String)
    (value : Int64) :
    (key, value) ∈ arrangedFields storage stats ↔ stats.get key = some value := by
  unfold arrangedFields hashFields
  rw [List.mem_filterMap]
  constructor
  · rintro ⟨found, _, same⟩
    obtain ⟨amount, stored, equal⟩ := Option.map_eq_some_iff.mp same
    cases equal
    exact stored
  · intro stored
    have present : key ∈ stats.keys := (stats.mem_keys key).mpr (by rw [stored]; simp)
    exact ⟨key, (storage.order.perm _).mem_iff.mpr present, by rw [stored]; rfl⟩

section Result

variable (storage : StorageInternal) (now : Int64) (stats : StatsHash) (queues : List String)

theorem mem_freshQueues (full : String) :
    full ∈ freshQueues storage now stats queues ↔ Snapshotted now stats full := by
  unfold freshQueues
  rw [← snapshotLength_pos_iff, List.mem_filter, (storage.order.perm _).mem_iff,
    SparseMap.mem_keys, freshSnapshot_eq, statsReadings_snapshots]
  constructor
  · rintro ⟨_, fresh⟩
    obtain ⟨enqueued, found, positive⟩ := (Option.any_eq_true _ _).mp fresh
    exact ⟨enqueued, found, by simpa using positive⟩
  · rintro ⟨enqueued, found, positive⟩
    refine ⟨?_, by rw [found]; simpa using positive⟩
    intro absent
    unfold snapshotLength at found
    rw [absent] at found
    cases found

theorem mem_queueUpdates (full : String) :
    (∃ update ∈ queueUpdates storage now stats queues, update.1 = full) ↔
      Reported now stats queues full := by
  unfold queueUpdates Reported
  rw [statsReadings_values]
  constructor
  · rintro ⟨update, member, rfl⟩
    rcases List.mem_append.mp member with values | fresh
    · rcases List.mem_append.mp values with listed | field
      · obtain ⟨queue, inside, rfl⟩ := List.mem_map.mp listed
        exact Or.inl inside
      · obtain ⟨field, inside, entry⟩ := List.mem_filterMap.mp field
        obtain ⟨full, stat, value⟩ := update
        obtain ⟨rfl, plain, notLength, notTime⟩ := fieldEntry_eq_some.mp entry
        refine Or.inr (Or.inl ⟨stat, plain, notLength, notTime, ?_⟩)
        rw [(mem_arrangedFields storage stats _ _).mp inside]
        simp
    · obtain ⟨queue, inside, rfl⟩ := List.mem_map.mp fresh
      exact Or.inr (Or.inr ((mem_freshQueues storage now stats queues queue).mp inside))
  · rintro (listed | ⟨stat, plain, notLength, notTime, present⟩ | fresh)
    · exact ⟨_, List.mem_append_left _ (List.mem_append_left _ (List.mem_map_of_mem listed)), rfl⟩
    · obtain ⟨value, stored⟩ := Option.ne_none_iff_exists'.mp present
      have field := (mem_arrangedFields storage stats _ _).mpr stored
      have entry : fieldEntry (full ++ ":" ++ stat, value) = some (full, stat, value) :=
        fieldEntry_eq_some.mpr ⟨rfl, plain, notLength, notTime⟩
      exact ⟨_, List.mem_append_left _ (List.mem_append_right _
        (List.mem_filterMap.mpr ⟨_, field, entry⟩)), rfl⟩
    · exact ⟨_, List.mem_append_right _ (List.mem_map_of_mem
        ((mem_freshQueues storage now stats queues full).mpr fresh)), rfl⟩

end Result

structure QueueStatsMeasured (lengthOf : String → Nat) (latencyOf : String → Int)
    (values : List QueueStats) : Prop where
  dynamic : ∀ value ∈ values, ∀ queue ∈ value.queues,
    queue.enqueued = lengthOf (value.key ++ "#" ++ queue.suffix) ∧
      queue.latencyMicros = latencyOf (value.key ++ "#" ++ queue.suffix)
  alone : ∀ value ∈ values, value.queues = [] →
    value.enqueued = lengthOf value.key ∧ value.latencyMicros = latencyOf value.key
  together : ∀ value ∈ values, value.queues ≠ [] →
    value.enqueued = (value.queues.map DynamicQueueStats.enqueued).sum ∧
      value.latencyMicros = (value.queues.map DynamicQueueStats.latencyMicros).foldl max 0

theorem QueueCounters.ext_get {first second : QueueCounters}
    (same : ∀ counter, first.get counter = second.get counter) : first = second := by
  obtain ⟨processed, succeeded, panicked, failed⟩ := first
  obtain ⟨processed', succeeded', panicked', failed'⟩ := second
  cases same .processed
  cases same .succeeded
  cases same .panicked
  cases same .failed
  rfl

theorem QueueStatsDefined.unique {now : Int64} {stats : StatsHash} {queues : List String}
    {lengthOf : String → Nat} {latencyOf : String → Int} {first second : List QueueStats}
    (defined : QueueStatsDefined now stats queues first)
    (measures : QueueStatsMeasured lengthOf latencyOf first)
    (other : QueueStatsDefined now stats queues second)
    (also : QueueStatsMeasured lengthOf latencyOf second) : first = second := by
  refine KeyedList.eq_of_sorted defined.sorted other.sorted ?_ ?_
  · intro key
    rw [List.mem_map, List.mem_map, defined.bases, other.bases]
  intro one member two inside key
  have counters : one.counters = two.counters := by
    apply QueueCounters.ext_get
    intro counter
    rw [← Int64.toInt_inj, defined.counters one member, other.counters two inside, key]
  have children : one.queues = two.queues := by
    refine KeyedList.eq_of_sorted (defined.childrenSorted one member)
      (other.childrenSorted two inside) ?_ ?_
    · intro suffix
      rw [List.mem_map, List.mem_map, defined.children one member, other.children two inside, key]
    intro queue listed child found suffix
    have childCounters : queue.counters = child.counters := by
      apply QueueCounters.ext_get
      intro counter
      rw [defined.childCounters one member queue listed,
        other.childCounters two inside child found, key, suffix]
    obtain ⟨length, latency⟩ := measures.dynamic one member queue listed
    obtain ⟨length', latency'⟩ := also.dynamic two inside child found
    rw [key, suffix, ← length'] at length
    rw [key, suffix, ← latency'] at latency
    cases queue
    cases child
    cases suffix
    cases childCounters
    cases length
    cases latency
    rfl
  have sizes : one.enqueued = two.enqueued ∧ one.latencyMicros = two.latencyMicros := by
    by_cases empty : two.queues = []
    · obtain ⟨length, latency⟩ := measures.alone one member (children.trans empty)
      obtain ⟨length', latency'⟩ := also.alone two inside empty
      rw [length, latency, length', latency', key]
      exact ⟨rfl, rfl⟩
    · obtain ⟨length, latency⟩ := measures.together one member (children ▸ empty)
      obtain ⟨length', latency'⟩ := also.together two inside empty
      rw [length, latency, length', latency', children]
      exact ⟨rfl, rfl⟩
  cases one
  cases two
  cases key
  cases counters
  cases children
  cases sizes.1
  cases sizes.2
  rfl

section Computed

variable (storage : StorageInternal) (clock : String → Int) (now : Int64) (stats : StatsHash)
  (queues : List String) (store : Store)

def entryOf (base : String) : QueueStats :=
  queueScheme.record (queueUpdates storage now stats queues) base

def dynamicUpdates (base : String) : List (String × String × Int64) :=
  ((queueUpdates storage now stats queues).filter fun update =>
    (splitQueueStatsKey update.1).1 = base).filterMap dynamicUpdate

theorem entryOf_key (base : String) : (entryOf storage now stats queues base).key = base :=
  KeyedList.Scheme.keyOf_record _ base

theorem entryOf_collected (base : String) :
    dynamicScheme.Collected (dynamicUpdates storage now stats queues base)
      (entryOf storage now stats queues base).queues := by
  unfold entryOf
  rw [record_queues]
  exact dynamicScheme.collected _

theorem mem_dynamicUpdates {base : String} (plain : '#' ∉ base.toList) (suffix : String) :
    (∃ update ∈ dynamicUpdates storage now stats queues base, update.1 = suffix) ↔
      Reported now stats queues (base ++ "#" ++ suffix) := by
  rw [← mem_queueUpdates storage]
  constructor
  · rintro ⟨update, member, rfl⟩
    obtain ⟨whole, inside, made⟩ := List.mem_filterMap.mp member
    obtain ⟨earlier, isBase⟩ := List.mem_filter.mp inside
    obtain ⟨suffix, dynamic, rfl⟩ := Option.map_eq_some_iff.mp made
    have parts : splitQueueStatsKey whole.1 = (base, some suffix) :=
      Prod.ext (of_decide_eq_true isBase) dynamic
    exact ⟨whole, earlier, (splitQueueStatsKey_dynamic.mp parts).1⟩
  · rintro ⟨whole, member, same⟩
    have parts : splitQueueStatsKey whole.1 = (base, some suffix) :=
      splitQueueStatsKey_dynamic.mpr ⟨same, plain⟩
    refine ⟨(suffix, whole.2), List.mem_filterMap.mpr ⟨whole, ?_, ?_⟩, rfl⟩
    · exact List.mem_filter.mpr ⟨member, decide_eq_true (by rw [parts])⟩
    · rw [dynamicUpdate, parts]
      rfl

theorem entryOf_counters (base : String) (counter : StatCounter) :
    (entryOf storage now stats queues base).counters.get counter =
      Int64.ofInt (baseTotal stats base counter) := by
  have same : (fun full => (splitQueueStatsKey full).1 = base) = BaseOf base :=
    funext fun full => propext splitQueueStatsKey_fst
  unfold entryOf
  rw [record_counters, counted_queueUpdates stats counter fun full =>
    (splitQueueStatsKey full).1 = base, same]
  rfl

theorem dynamicEntry_counters {base : String} (plain : '#' ∉ base.toList) {queue : DynamicQueueStats}
    (member : queue ∈ (entryOf storage now stats queues base).queues) (counter : StatCounter) :
    queue.counters.get counter = fieldValue stats (base ++ "#" ++ queue.suffix) counter := by
  have recorded := congrArg (fun entry : DynamicQueueStats => entry.counters.get counter)
    ((entryOf_collected storage now stats queues base).records queue member)
  refine recorded.trans ?_
  rw [dynamic_record_counters]
  unfold dynamicUpdates
  rw [counted_dynamic counter _ plain,
    counted_queueUpdates stats counter fun full => full = base ++ "#" ++ queue.suffix,
    selectedTotal_single, Int64.ofInt_toInt]

theorem mem_queueEntries {value : QueueStats} :
    value ∈ storage.queueEntries now (storage.statsReadings stats queues false) ↔
      value = entryOf storage now stats queues value.key ∧
        ∃ full, Reported now stats queues full ∧ BaseOf value.key full := by
  rw [(queueEntries_collected storage now stats queues).mem_iff, and_comm]
  refine and_congr_right fun _ => ?_
  constructor
  · rintro ⟨update, member, same⟩
    exact ⟨update.1, (mem_queueUpdates storage now stats queues _).mp ⟨update, member, rfl⟩,
      splitQueueStatsKey_fst.mp same⟩
  · rintro ⟨full, reported, base⟩
    obtain ⟨update, member, rfl⟩ := (mem_queueUpdates storage now stats queues full).mpr reported
    exact ⟨update, member, splitQueueStatsKey_fst.mpr base⟩

def reportedLength (queue : String) : Nat :=
  (snapshotLength stats now queue).getD (store.lists.get (storage.namespaceQueue queue)).length

def builtStats : List QueueStats :=
  KeyedList.sortBy QueueStats.key
    ((storage.order.arrange
      (storage.queueEntries now (storage.statsReadings stats queues false))).map
        (measured storage clock now (storage.statsReadings stats queues false).snapshots store))

theorem mem_builtStats {value : QueueStats} :
    value ∈ builtStats storage clock now stats queues store ↔
      (∃ full, Reported now stats queues full ∧ BaseOf value.key full) ∧
        value = measured storage clock now (storage.statsReadings stats queues false).snapshots
          store (entryOf storage now stats queues value.key) := by
  have kept : ∀ entry : QueueStats, (measured storage clock now
      (storage.statsReadings stats queues false).snapshots store entry).key = entry.key := by
    intro entry
    unfold measured
    split <;> rfl
  unfold builtStats
  rw [KeyedList.mem_sortBy, List.mem_map]
  constructor
  · rintro ⟨entry, member, rfl⟩
    rw [(storage.order.perm _).mem_iff, mem_queueEntries] at member
    rw [kept, ← member.1]
    exact ⟨member.2, rfl⟩
  · rintro ⟨reported, same⟩
    refine ⟨_, (storage.order.perm _).mem_iff.mpr ?_, same.symm⟩
    rw [mem_queueEntries, entryOf_key]
    exact ⟨rfl, reported⟩

theorem measured_counters (value : QueueStats) (snapshots : QueueLengthSnapshots) :
    (measured storage clock now snapshots store value).counters = value.counters := by
  unfold measured
  split <;> rfl

theorem measured_queues (value : QueueStats) (snapshots : QueueLengthSnapshots) :
    (measured storage clock now snapshots store value).queues =
      KeyedList.sortBy DynamicQueueStats.suffix
        (value.queues.map (measuredDynamic storage clock now snapshots store value.key)) := by
  unfold measured
  split
  · rename_i empty
    rw [List.isEmpty_iff.mp empty]
    rfl
  · rfl

theorem measured_key (value : QueueStats) (snapshots : QueueLengthSnapshots) :
    (measured storage clock now snapshots store value).key = value.key := by
  unfold measured
  split <;> rfl

theorem measured_queues_eq_nil (value : QueueStats) (snapshots : QueueLengthSnapshots) :
    (measured storage clock now snapshots store value).queues = [] ↔ value.queues = [] := by
  have listed : (KeyedList.sortBy DynamicQueueStats.suffix _).Perm _ := KeyedList.sortBy_perm
    (value.queues.map (measuredDynamic storage clock now snapshots store value.key))
  rw [measured_queues, ← List.length_eq_zero_iff, listed.length_eq, List.length_map,
    List.length_eq_zero_iff]

theorem mem_readQueues_measured (value : QueueStats) (snapshots : QueueLengthSnapshots)
    (queue : String) :
    queue ∈ readQueues (measured storage clock now snapshots store value) ↔
      queue ∈ readQueues value := by
  have same := measured_queues_eq_nil storage clock now store value snapshots
  unfold readQueues
  rw [measured_key]
  by_cases empty : value.queues = []
  · rw [same.mpr empty, empty]
  · rw [if_neg fun isEmpty => empty (List.isEmpty_iff.mp isEmpty),
      if_neg fun isEmpty => empty (same.mp (List.isEmpty_iff.mp isEmpty)), measured_queues,
      ((KeyedList.sortBy_perm _).map _).mem_iff, List.map_map]
    rfl

theorem queueLength_eq (queue : String) :
    queueLength storage now (storage.statsReadings stats queues false).snapshots store queue =
      reportedLength storage now stats store queue := by
  unfold queueLength reportedLength
  rw [freshSnapshot_eq]

variable {storage now stats queues}

theorem base_plain {value : QueueStats}
    (reported : ∃ full, Reported now stats queues full ∧ BaseOf value.key full) :
    '#' ∉ value.key.toList := by
  obtain ⟨_, _, plain, _⟩ := reported
  exact plain

theorem builtStats_entries :
    QueueEntriesDefined now stats queues (builtStats storage clock now stats queues store) := by
  have built := @mem_builtStats storage clock now stats queues store
  refine ⟨?_, ?_, ?_, ?_⟩
  · apply KeyedList.sortBy_pairwise
    have keys : ∀ values : List QueueStats, (values.map (measured storage clock now
        (storage.statsReadings stats queues false).snapshots store)).map QueueStats.key =
          values.map QueueStats.key := by
      intro values
      rw [List.map_map]
      exact List.map_congr_left fun value _ => measured_key storage clock now store value _
    rw [keys, ((storage.order.perm _).map QueueStats.key).nodup_iff]
    exact (queueEntries_collected storage now stats queues).distinct
  · intro base
    constructor
    · rintro ⟨value, member, rfl⟩
      exact (built.mp member).1
    · intro reported
      have key : (measured storage clock now (storage.statsReadings stats queues false).snapshots
          store (entryOf storage now stats queues base)).key = base := by
        rw [measured_key, entryOf_key]
      refine ⟨_, built.mpr ⟨?_, ?_⟩, key⟩
      · rw [key]
        exact reported
      · rw [key]
  · intro value member
    have children := congrArg QueueStats.queues (built.mp member).2
    rw [measured_queues] at children
    rw [children]
    apply KeyedList.sortBy_pairwise
    rw [List.map_map]
    exact (entryOf_collected storage now stats queues value.key).distinct
  · intro value member suffix
    obtain ⟨reported, same⟩ := built.mp member
    have children := congrArg QueueStats.queues same
    rw [measured_queues] at children
    rw [children, ← mem_dynamicUpdates storage now stats queues (base_plain reported) suffix,
      ← List.mem_map]
    have names : suffix ∈ (KeyedList.sortBy DynamicQueueStats.suffix
        ((entryOf storage now stats queues value.key).queues.map (measuredDynamic storage clock now
          (storage.statsReadings stats queues false).snapshots store
            (entryOf storage now stats queues value.key).key))).map DynamicQueueStats.suffix ↔
        suffix ∈ (entryOf storage now stats queues value.key).queues.map
          DynamicQueueStats.suffix := by
      rw [((KeyedList.sortBy_perm _).map DynamicQueueStats.suffix).mem_iff, List.map_map]
      rfl
    exact names.trans ((entryOf_collected storage now stats queues value.key).keys suffix)

theorem builtStats_defined
    (bounded : ∀ base counter, -2 ^ 63 ≤ baseTotal stats base counter ∧
      baseTotal stats base counter < 2 ^ 63) :
    QueueStatsDefined now stats queues (builtStats storage clock now stats queues store) := by
  have built := @mem_builtStats storage clock now stats queues store
  refine ⟨builtStats_entries clock store, ?_, ?_⟩
  · intro value member counter
    have counters := congrArg QueueStats.counters (built.mp member).2
    rw [measured_counters] at counters
    rw [counters, entryOf_counters]
    exact Int64.toInt_ofInt_of_le (bounded _ _).1 (bounded _ _).2
  · intro value member queue listed counter
    obtain ⟨reported, same⟩ := built.mp member
    have children := congrArg QueueStats.queues same
    rw [measured_queues] at children
    rw [children, KeyedList.mem_sortBy] at listed
    obtain ⟨entry, inside, rfl⟩ := List.mem_map.mp listed
    exact dynamicEntry_counters storage now stats queues (base_plain reported) inside counter

theorem foldl_add_eq (queues : List DynamicQueueStats) (start : Nat) :
    queues.foldl (fun total queue => total + queue.enqueued) start =
      start + (queues.map DynamicQueueStats.enqueued).sum := by
  induction queues generalizing start with
  | nil => rfl
  | cons queue rest ih =>
      rw [List.foldl_cons, ih, List.map_cons, List.sum_cons]
      omega

theorem foldl_max_perm {first second : List Int} (same : first.Perm second) (start : Int) :
    first.foldl max start = second.foldl max start := by
  refine same.foldl_eq' (fun one _ two _ current => ?_) start
  rw [max_assoc, max_comm one two, ← max_assoc]

theorem entryOf_unmeasured (base : String) :
    (entryOf storage now stats queues base).enqueued = 0 ∧
      (entryOf storage now stats queues base).latencyMicros = 0 := by
  have moves : ∀ update value, ((queueScheme.change update value).enqueued,
      (queueScheme.change update value).latencyMicros) =
        (value.enqueued, value.latencyMicros) := fun _ _ => rfl
  have kept := KeyedList.Scheme.view_record (fun value : QueueStats =>
    (value.enqueued, value.latencyMicros)) (fun sizes _ => sizes) moves
    (queueUpdates storage now stats queues) base
  rw [List.foldl_fixed] at kept
  exact ⟨congrArg Prod.fst kept, congrArg Prod.snd kept⟩

theorem builtStats_measured :
    QueueStatsMeasured (reportedLength storage now stats store) (queueLatency storage clock store)
      (builtStats storage clock now stats queues store) := by
  have built := @mem_builtStats storage clock now stats queues store
  have lengths := queueLength_eq storage now stats queues store
  refine ⟨?_, ?_, ?_⟩
  · intro value member queue listed
    have children := congrArg QueueStats.queues (built.mp member).2
    rw [measured_queues] at children
    rw [children, KeyedList.mem_sortBy] at listed
    obtain ⟨entry, inside, rfl⟩ := List.mem_map.mp listed
    rw [entryOf_key]
    exact ⟨lengths _, rfl⟩
  · intro value member empty
    have same := (built.mp member).2
    rw [same, measured_queues_eq_nil] at empty
    have isEmpty := List.isEmpty_iff.mpr empty
    have key := entryOf_key storage now stats queues value.key
    constructor
    · refine (congrArg QueueStats.enqueued same).trans ?_
      unfold measured
      rw [if_pos isEmpty, key]
      exact lengths _
    · refine (congrArg QueueStats.latencyMicros same).trans ?_
      unfold measured
      rw [if_pos isEmpty, key]
  · intro value member filled
    have same := (built.mp member).2
    rw [same, Ne, measured_queues_eq_nil] at filled
    have notEmpty : ¬(entryOf storage now stats queues value.key).queues.isEmpty = true :=
      fun empty => filled (List.isEmpty_iff.mp empty)
    obtain ⟨unread, untimed⟩ := @entryOf_unmeasured storage now stats queues value.key
    have children := congrArg QueueStats.queues same
    rw [measured_queues] at children
    have listed : (KeyedList.sortBy DynamicQueueStats.suffix _).Perm _ :=
      KeyedList.sortBy_perm ((entryOf storage now stats queues value.key).queues.map
        (measuredDynamic storage clock now (storage.statsReadings stats queues false).snapshots
          store (entryOf storage now stats queues value.key).key))
    constructor
    · refine (congrArg QueueStats.enqueued same).trans ?_
      rw [children, (listed.map DynamicQueueStats.enqueued).sum_eq]
      unfold measured
      rw [if_neg notEmpty, unread]
      dsimp only
      rw [foldl_add_eq, Nat.zero_add]
    · refine (congrArg QueueStats.latencyMicros same).trans ?_
      rw [children, foldl_max_perm (listed.map DynamicQueueStats.latencyMicros), List.foldl_map]
      unfold measured
      rw [if_neg notEmpty, untimed]

theorem reads_buildQueueStats :
    Reads (storage.buildQueueStats now clock stats queues false) store
      (builtStats storage clock now stats queues store)
      (∀ value ∈ builtStats storage clock now stats queues store, ∀ queue ∈ readQueues value,
        Legible storage store queue) := by
  unfold StorageInternal.buildQueueStats
  refine Reads.congr ((reads_measureAll storage clock now _ store _).bind (reads_pure _ store)) ?_
  rw [and_true]
  constructor
  · intro legible value member queue read
    obtain ⟨entry, inside, rfl⟩ := List.mem_map.mp (KeyedList.mem_sortBy.mp member)
    exact legible entry inside queue
      ((mem_readQueues_measured storage clock now store entry _ queue).mp read)
  · intro legible entry inside queue read
    exact legible _ (KeyedList.mem_sortBy.mpr (List.mem_map_of_mem inside)) queue
      ((mem_readQueues_measured storage clock now store entry _ queue).mpr read)

end Computed

section Order

variable (storage : StorageInternal) (clock : String → Int) (now : Int64) (stats : StatsHash)
  (queues : List String) (store : Store)

/-- In whatever order the maps iterate, the statistics are those of the definition; only a job
envelope that cannot be decoded keeps them from being returned. -/
theorem queue_stats_defined
    (bounded : ∀ base counter, -2 ^ 63 ≤ baseTotal stats base counter ∧
      baseTotal stats base counter < 2 ^ 63) :
    ∃ values, QueueStatsDefined now stats queues values ∧
      ∀ order : IterationOrder, Reads
        (StorageInternal.buildQueueStats { storage with order := order } now clock stats queues false)
        store values
        (∀ value ∈ values, ∀ queue ∈ readQueues value, Legible storage store queue) := by
  refine ⟨builtStats storage clock now stats queues store, builtStats_defined clock store bounded, ?_⟩
  intro order
  let other : StorageInternal := { storage with order := order }
  have lengths : reportedLength other now stats store = reportedLength storage now stats store := rfl
  have latencies : queueLatency other clock store = queueLatency storage clock store := rfl
  have again := @builtStats_measured other clock now stats queues store
  rw [lengths, latencies] at again
  have same : builtStats other clock now stats queues store =
      builtStats storage clock now stats queues store :=
    (builtStats_defined clock store bounded).unique again (builtStats_defined clock store bounded)
      (builtStats_measured clock store)
  have reads := @reads_buildQueueStats other clock now stats queues store
  rw [same] at reads
  exact reads

end Order

def processedStats : StatsHash :=
  (((SparseMap.empty.set "reports#eu:processed" (some 2)).set "reports:processed"
    (some 3)).set "mail:enqueued" (some 4)).set "mail:enqueued_at" (some 100)

theorem queue_stats_defined_processed :
    ∃ values, QueueStatsDefined 160 processedStats ["reports#us"] values ∧
      ∀ order : IterationOrder, Reads (StorageInternal.buildQueueStats
        { lowNode with order := order } 160 (fun _ => 0) processedStats ["reports#us"] false)
        Store.empty values
        (∀ value ∈ values, ∀ queue ∈ readQueues value, Legible lowNode Store.empty queue) := by
  refine queue_stats_defined lowNode (fun _ => 0) 160 processedStats ["reports#us"] Store.empty ?_
  intro base counter
  have keys : processedStats.keys = ["mail:enqueued_at", "mail:enqueued", "reports:processed",
    "reports#eu:processed"] := by decide +kernel
  have amounts : ∀ key ∈ processedStats.keys, 0 ≤ ((processedStats.get key).getD 0).toInt ∧
      ((processedStats.get key).getD 0).toInt ≤ 100 := by decide +kernel
  rw [keys] at amounts
  have first := amounts "mail:enqueued_at" (by simp)
  have second := amounts "mail:enqueued" (by simp)
  have third := amounts "reports:processed" (by simp)
  have fourth := amounts "reports#eu:processed" (by simp)
  unfold baseTotal
  rw [keys]
  simp only [List.filter_cons, List.filter_nil]
  split <;> split <;> split <;> split <;> simp only [List.map_cons, List.map_nil, List.sum_cons,
    List.sum_nil] <;> omega

end Oxana
