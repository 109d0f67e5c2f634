import Oxana.MetricFields
import Oxana.Postings

/-!
The aggregation of counter hashes as sums: the totals, the points of the series and the
summaries of the workers are the amounts posted to them, whatever the order in which the
hashes are iterated.
-/

namespace Oxana

open Postings

/-! Reading fields. -/

def readField (field : String) : Option (MetricIdentity × JobMetric) :=
  (splitMetricField field).bind fun parts =>
    (JobMetric.all.find? fun metric => decide (metric.text = parts.2)).map fun metric =>
      (parts.1, metric)

def readQueueField (field : String) : Option (String × QueueMetric) :=
  (splitQueueMetricField field).bind fun parts =>
    (QueueMetric.all.find? fun metric => decide (metric.text = parts.2)).map fun metric =>
      (parts.1, metric)

theorem find_text (metric : JobMetric) :
    JobMetric.all.find? (fun other => decide (other.text = metric.text)) = some metric := by
  cases metric <;> decide

theorem find_queueText (metric : QueueMetric) :
    QueueMetric.all.find? (fun other => decide (other.text = metric.text)) = some metric := by
  cases metric <;> decide

theorem splitMetricField_text {field text : String} {identity : MetricIdentity}
    (split : splitMetricField field = some (identity, text)) :
    ∃ metric : JobMetric, text = metric.text := by
  unfold splitMetricField at split
  cases parts : rsplitOnce '|' field with
  | none =>
      rw [parts] at split
      cases split
  | some pair =>
      rw [parts] at split
      simp only [Option.bind_eq_bind, Option.bind_some] at split
      split at split
      · rename_i known
        obtain ⟨_, _, same⟩ := Option.map_eq_some_iff.mp split
        obtain ⟨_, rfl⟩ := Prod.mk.inj same
        simp only [List.mem_cons, List.not_mem_nil, or_false] at known
        rcases known with text | text | text | text | text | text | text
        · exact ⟨.processed, text⟩
        · exact ⟨.failed, text⟩
        · exact ⟨.panicked, text⟩
        · exact ⟨.successfulExecutions, text⟩
        · exact ⟨.failedExecutions, text⟩
        · exact ⟨.panickedExecutions, text⟩
        · exact ⟨.executionMs, text⟩
      · cases split

theorem splitQueueMetricField_text {field text queue : String}
    (split : splitQueueMetricField field = some (queue, text)) :
    ∃ metric : QueueMetric, text = metric.text := by
  unfold splitQueueMetricField at split
  cases parts : rsplitOnce '|' field with
  | none =>
      rw [parts] at split
      cases split
  | some pair =>
      rw [parts] at split
      simp only [Option.bind_eq_bind, Option.bind_some] at split
      split at split
      · rename_i known
        have same : pair.2 = text := by
          cases lengthText : splitOnce ':' pair.1 with
          | none =>
              rw [lengthText] at split
              cases split
          | some lengths =>
              rw [lengthText] at split
              cases length : parseUsize lengths.1 with
              | none =>
                  rw [Option.bind_some, length] at split
                  cases split
              | some bytes =>
                  rw [Option.bind_some, length, Option.bind_some] at split
                  split at split
                  · cases split
                  · exact (Prod.mk.inj (Option.some.inj split)).2
        subst same
        simp only [List.mem_cons, List.not_mem_nil, or_false] at known
        rcases known with text | text | text
        · exact ⟨.processed, text⟩
        · exact ⟨.succeeded, text⟩
        · exact ⟨.failed, text⟩
      · cases split

theorem readField_eq_some {field text : String} {identity : MetricIdentity}
    (split : splitMetricField field = some (identity, text)) :
    ∃ metric : JobMetric, text = metric.text ∧ readField field = some (identity, metric) := by
  obtain ⟨metric, rfl⟩ := splitMetricField_text split
  refine ⟨metric, rfl, ?_⟩
  unfold readField
  rw [split, Option.bind_some, find_text]
  rfl

theorem readQueueField_eq_some {field text queue : String}
    (split : splitQueueMetricField field = some (queue, text)) :
    ∃ metric : QueueMetric, text = metric.text ∧ readQueueField field = some (queue, metric) := by
  obtain ⟨metric, rfl⟩ := splitQueueMetricField_text split
  refine ⟨metric, rfl, ?_⟩
  unfold readQueueField
  rw [split, Option.bind_some, find_queueText]
  rfl

/-! Totals from counts. -/

def JobMetricsTotals.ofCounts (count : JobMetric → Nat) : JobMetricsTotals where
  processed := min (count .processed) u64Max
  failed := min (count .failed) u64Max
  panicked := min (count .panicked) u64Max
  successfulExecutions := min (count .successfulExecutions) u64Max
  failedExecutions := min (count .failedExecutions) u64Max
  panickedExecutions := min (count .panickedExecutions) u64Max
  executionMs := min (count .executionMs) u64Max

def QueueCounterTotals.ofCounts (count : QueueMetric → Nat) : QueueCounterTotals where
  processed := min (count .processed) u64Max
  succeeded := min (count .succeeded) u64Max
  failed := min (count .failed) u64Max

theorem JobMetricsTotals.addMetric_ofCounts (count : JobMetric → Nat) (metric : JobMetric)
    (value : Nat) :
    (ofCounts count).addMetric metric.text value =
      ofCounts fun other => count other + if metric = other then value else 0 := by
  cases metric <;>
    simp [addMetric, ofCounts, JobMetric.text, metricProcessedJobs, metricFailedJobs,
      metricPanickedJobs, metricSuccessfulExecutions, metricFailedExecutions,
      metricPanickedExecutions, metricExecutionMs, saturatingAdd_min]

theorem QueueCounterTotals.addMetric_ofCounts (count : QueueMetric → Nat) (metric : QueueMetric)
    (value : Nat) :
    (ofCounts count).addMetric metric.text value =
      ofCounts fun other => count other + if metric = other then value else 0 := by
  cases metric <;>
    simp [addMetric, ofCounts, QueueMetric.text, queueMetricProcessedJobs,
      queueMetricSucceededJobs, queueMetricFailedJobs, saturatingAdd_min]

/-! Series. -/

def seriesOf (minutes : List Int) (point : Nat → JobMetricsTotals) : List JobMetricsPoint :=
  minutes.zipIdx.map fun indexed =>
    { toJobMetricsTotals := point indexed.2, timestamp := indexed.1 * 60 }

theorem getElem?_seriesOf (minutes : List Int) (point : Nat → JobMetricsTotals) (idx : Nat) :
    (seriesOf minutes point)[idx]? = minutes[idx]?.map fun minute =>
      { toJobMetricsTotals := point idx, timestamp := minute * 60 } := by
  simp [seriesOf, List.getElem?_zipIdx, Option.map_map, Function.comp_def]

@[simp] theorem length_seriesOf (minutes : List Int) (point : Nat → JobMetricsTotals) :
    (seriesOf minutes point).length = minutes.length := by
  simp [seriesOf]

theorem modify_seriesOf (minutes : List Int) (point : Nat → JobMetricsTotals) (idx : Nat)
    {change : JobMetricsPoint → JobMetricsPoint} {next : JobMetricsTotals}
    (changes : ∀ timestamp, change { toJobMetricsTotals := point idx, timestamp := timestamp } =
      { toJobMetricsTotals := next, timestamp := timestamp }) :
    (seriesOf minutes point).modify idx change =
      seriesOf minutes fun other => if other = idx then next else point other := by
  apply List.ext_getElem?
  intro other
  rw [List.getElem?_modify, getElem?_seriesOf, getElem?_seriesOf]
  by_cases same : idx = other
  · subst same
    cases minutes[idx]? <;> simp [changes]
  · cases minutes[other]? <;> simp [same, Ne.symm same]

theorem addMetricAt_seriesOf (minutes : List Int) (point : Nat → JobMetricsTotals) (idx : Nat)
    (metric : String) (value : Nat) :
    addMetricAt (seriesOf minutes point) idx metric value =
      seriesOf minutes fun other =>
        if other = idx then (point idx).addMetric metric value else point other :=
  modify_seriesOf minutes point idx fun _ => rfl

theorem finalizeAt_seriesOf (minutes : List Int) (point : Nat → JobMetricsTotals) (idx : Nat) :
    (seriesOf minutes point).modify idx JobMetricsPoint.finalize =
      seriesOf minutes fun other =>
        if other = idx then (point idx).finalize else point other :=
  modify_seriesOf minutes point idx fun _ => rfl

theorem seriesOf_congr {minutes : List Int} {first second : Nat → JobMetricsTotals}
    (same : ∀ idx < minutes.length, first idx = second idx) :
    seriesOf minutes first = seriesOf minutes second := by
  apply List.ext_getElem?
  intro idx
  rw [getElem?_seriesOf, getElem?_seriesOf]
  by_cases inside : idx < minutes.length
  · rw [same idx inside]
  · rw [List.getElem?_eq_none (Nat.le_of_not_lt inside)]
    rfl

theorem emptySeries_eq (minutes : List Int) :
    emptySeries minutes = seriesOf minutes fun _ => {} := by
  apply List.ext_getElem?
  intro idx
  rw [getElem?_seriesOf]
  simp [emptySeries]

/-! The amounts behind a report. -/

structure ReadPlace where
  idx : Nat
  identity : MetricIdentity
  metric : JobMetric
  deriving DecidableEq

abbrev Readings := List (ReadPlace × Nat)

def tally (choose : Nat → MetricIdentity → Bool) (readings : Readings) (metric : JobMetric) :
    Nat :=
  raised (fun place => choose place.idx place.identity && decide (place.metric = metric)) readings

def totalsOf (choose : Nat → MetricIdentity → Bool) (readings : Readings) : JobMetricsTotals :=
  .ofCounts (tally choose readings)

theorem totalsOf_append_of_chosen {choose : Nat → MetricIdentity → Bool} {place : ReadPlace}
    (chosen : choose place.idx place.identity = true) (readings : Readings) (value : Nat) :
    totalsOf choose (readings ++ [(place, value)]) =
      (totalsOf choose readings).addMetric place.metric.text value := by
  unfold totalsOf
  rw [JobMetricsTotals.addMetric_ofCounts]
  congr 1
  funext metric
  simp [tally, chosen]

theorem totalsOf_append_of_not_chosen {choose : Nat → MetricIdentity → Bool} {place : ReadPlace}
    (chosen : choose place.idx place.identity = false) (readings : Readings) (value : Nat) :
    totalsOf choose (readings ++ [(place, value)]) = totalsOf choose readings := by
  unfold totalsOf
  congr 1
  funext metric
  simp [tally, chosen]

def overall (_ : Nat) (_ : MetricIdentity) : Bool := true

def during (idx : Nat) (choose : Nat → MetricIdentity → Bool) (other : Nat)
    (identity : MetricIdentity) : Bool :=
  decide (other = idx) && choose other identity

def ofWorker (identity : MetricIdentity) (_ : Nat) (other : MetricIdentity) : Bool :=
  decide (other = identity)

def builderOf (minutes : List Int) (readings : Readings) (identity : MetricIdentity) :
    WorkerMetricsSummaryBuilder where
  totals := totalsOf (ofWorker identity) readings
  series := seriesOf minutes fun idx => totalsOf (during idx (ofWorker identity)) readings

/-- What the loop has computed once it has read the given amounts and finished the hashes
before `finished`. -/
structure JobMetricsAggregating.Describes (state : JobMetricsAggregating) (minutes : List Int)
    (finished : Nat) (readings : Readings) : Prop where
  totals : state.totals = totalsOf overall readings
  series : state.series = seriesOf minutes fun idx =>
    if idx < finished then (totalsOf (during idx overall) readings).finalize
    else totalsOf (during idx overall) readings
  present : ∀ identity, (∃ reading ∈ readings, reading.1.identity = identity) →
    state.workers.get identity = some (builderOf minutes readings identity)
  absent : ∀ identity, (∀ reading ∈ readings, reading.1.identity ≠ identity) →
    state.workers.get identity = none

theorem totalsOf_of_none {choose : Nat → MetricIdentity → Bool} {readings : Readings}
    (none : ∀ reading ∈ readings, choose reading.1.idx reading.1.identity = false) :
    totalsOf choose readings = {} := by
  have empty : tally choose readings = fun _ => 0 := by
    funext metric
    unfold tally raised
    apply List.sum_eq_zero
    intro amount member
    obtain ⟨reading, inside, rfl⟩ := List.mem_map.mp member
    simp [none reading inside]
  unfold totalsOf
  rw [empty]
  rfl

theorem builderOf_of_absent (minutes : List Int) {readings : Readings} {identity : MetricIdentity}
    (absent : ∀ reading ∈ readings, reading.1.identity ≠ identity) :
    builderOf minutes readings identity = { totals := {}, series := emptySeries minutes } := by
  have others : ∀ reading ∈ readings, ofWorker identity reading.1.idx reading.1.identity = false :=
    fun reading member => decide_eq_false (absent reading member)
  have points : ∀ idx, totalsOf (during idx (ofWorker identity)) readings = {} := by
    intro idx
    apply totalsOf_of_none
    intro reading member
    rw [during, others reading member, Bool.and_false]
  unfold builderOf
  rw [totalsOf_of_none others, emptySeries_eq]
  congr 1
  exact seriesOf_congr fun idx _ => points idx

theorem points_append (choose : Nat → MetricIdentity → Bool) {place : ReadPlace}
    (chosen : choose place.idx place.identity = true) (readings : Readings) (value idx : Nat) :
    totalsOf (during idx choose) (readings ++ [(place, value)]) =
      if idx = place.idx then
        (totalsOf (during place.idx choose) readings).addMetric place.metric.text value
      else totalsOf (during idx choose) readings := by
  split
  · rename_i same
    subst same
    apply totalsOf_append_of_chosen
    simp [during, chosen]
  · rename_i apart
    apply totalsOf_append_of_not_chosen
    simp [during, Ne.symm apart]

theorem builderOf_append_self (minutes : List Int) (readings : Readings) (place : ReadPlace)
    (value : Nat) :
    builderOf minutes (readings ++ [(place, value)]) place.identity =
      (builderOf minutes readings place.identity).addMetric place.idx place.metric.text
        value := by
  have own : ofWorker place.identity place.idx place.identity = true := decide_eq_true rfl
  unfold builderOf WorkerMetricsSummaryBuilder.addMetric
  rw [addMetricAt_seriesOf, totalsOf_append_of_chosen own]
  congr 1
  exact seriesOf_congr fun idx _ => points_append _ own readings value idx

theorem builderOf_append_other (minutes : List Int) (readings : Readings) {place : ReadPlace}
    {identity : MetricIdentity} (other : place.identity ≠ identity) (value : Nat) :
    builderOf minutes (readings ++ [(place, value)]) identity =
      builderOf minutes readings identity := by
  have apart : ofWorker identity place.idx place.identity = false := decide_eq_false other
  unfold builderOf
  rw [totalsOf_append_of_not_chosen apart]
  congr 1
  apply seriesOf_congr
  intro idx _
  apply totalsOf_append_of_not_chosen
  rw [during, apart, Bool.and_false]

/-! One entry, one hash, all hashes. -/

def passes (filter : Option MetricIdentity) (identity : MetricIdentity) : Bool :=
  !(filter.any fun expected => decide (expected ≠ identity))

def readEntry (filter : Option MetricIdentity) (idx : Nat) (entry : String × Int) :
    Option (ReadPlace × Nat) :=
  ((readField entry.1).filter fun found => passes filter found.1).map fun found =>
    ({ idx := idx, identity := found.1, metric := found.2 }, entry.2.toNat)

def readHashes (order : IterationOrder) (filter : Option MetricIdentity) (idx : Nat)
    (hashes : List CounterHash) : Readings :=
  (hashes.zipIdx idx).flatMap fun indexed =>
    (order.arrange indexed.1).filterMap (readEntry filter indexed.2)

namespace JobMetricsAggregating.Describes

variable {state : JobMetricsAggregating} {minutes : List Int} {finished : Nat}
  {readings : Readings}

theorem post (describes : state.Describes minutes finished readings) (place : ReadPlace)
    (current : place.idx = finished) (value : Nat) :
    JobMetricsAggregating.Describes
      { totals := state.totals.addMetric place.metric.text value
        series := addMetricAt state.series finished place.metric.text value
        workers := state.workers.set place.identity (some
          (((state.workers.get place.identity).getD
            { totals := {}, series := emptySeries minutes }).addMetric finished
              place.metric.text value)) }
      minutes finished (readings ++ [(place, value)]) where
  totals := by
    rw [totalsOf_append_of_chosen rfl, describes.totals]
  series := by
    change addMetricAt state.series finished place.metric.text value = _
    rw [describes.series, addMetricAt_seriesOf]
    apply seriesOf_congr
    intro idx _
    rw [points_append overall rfl, current]
    by_cases same : idx = finished
    · subst same
      simp
    · simp [same]
  present := by
    intro identity _
    by_cases same : identity = place.identity
    · subst same
      have before : (state.workers.get place.identity).getD
          { totals := {}, series := emptySeries minutes } =
            builderOf minutes readings place.identity := by
        by_cases seen : ∃ reading ∈ readings, reading.1.identity = place.identity
        · rw [describes.present _ seen, Option.getD_some]
        · have fresh : ∀ reading ∈ readings, reading.1.identity ≠ place.identity :=
            fun reading member equal => seen ⟨reading, member, equal⟩
          rw [describes.absent _ fresh, builderOf_of_absent minutes fresh, Option.getD_none]
      rw [SparseMap.get_set_self, before, builderOf_append_self, current]
    · rename_i listed
      obtain ⟨reading, member, own⟩ := listed
      have seen : ∃ reading ∈ readings, reading.1.identity = identity := by
        rcases List.mem_append.mp member with earlier | last
        · exact ⟨reading, earlier, own⟩
        · rw [List.mem_singleton] at last
          subst last
          exact absurd own.symm same
      rw [SparseMap.get_set_of_ne _ _ same, describes.present _ seen,
        builderOf_append_other minutes readings (Ne.symm same)]
  absent := by
    intro identity none
    have apart := none (place, value) (by simp)
    rw [SparseMap.get_set_of_ne _ _ (Ne.symm apart)]
    exact describes.absent identity fun reading member =>
      none reading (List.mem_append_left _ member)

theorem field (describes : state.Describes minutes finished readings)
    (filter : Option MetricIdentity) (entry : String × Int) :
    (aggregateField (emptySeries minutes) filter finished state entry).Describes minutes finished
      (readings ++ (readEntry filter finished entry).toList) := by
  unfold aggregateField
  cases split : splitMetricField entry.1 with
  | none =>
      have skipped : readEntry filter finished entry = none := by
        simp [readEntry, readField, split]
      rw [skipped, Option.toList_none, List.append_nil]
      exact describes
  | some parts =>
      obtain ⟨identity, text⟩ := parts
      obtain ⟨metric, rfl, found⟩ := readField_eq_some split
      cases other : filter.any fun expected => decide (expected ≠ identity) with
      | true =>
          have skipped : readEntry filter finished entry = none := by
            simp only [readEntry, found, Option.filter_some, passes, other, Bool.not_true,
              Bool.false_eq_true, if_false, Option.map_none]
          rw [skipped, Option.toList_none, List.append_nil]
          simp only [other, if_true]
          exact describes
      | false =>
          have taken : readEntry filter finished entry =
              some ({ idx := finished, identity := identity, metric := metric },
                entry.2.toNat) := by
            simp only [readEntry, found, Option.filter_some, passes, other, Bool.not_false,
              if_true, Option.map_some]
          rw [taken, Option.toList_some]
          simp only [other, Bool.false_eq_true, if_false]
          exact describes.post { idx := finished, identity := identity, metric := metric } rfl
            entry.2.toNat

theorem entries (describes : state.Describes minutes finished readings)
    (filter : Option MetricIdentity) (entries : CounterHash) :
    (entries.foldl (aggregateField (emptySeries minutes) filter finished) state).Describes
      minutes finished (readings ++ entries.filterMap (readEntry filter finished)) := by
  induction entries generalizing state readings with
  | nil =>
      rw [List.filterMap_nil, List.append_nil]
      exact describes
  | cons entry rest ih =>
      have next := ih (describes.field filter entry)
      rw [List.append_assoc] at next
      cases taken : readEntry filter finished entry with
      | none =>
          rw [taken, Option.toList_none, List.nil_append] at next
          rw [List.filterMap_cons_none taken]
          exact next
      | some reading =>
          rw [taken, Option.toList_some, List.singleton_append] at next
          rw [List.filterMap_cons_some taken]
          exact next

theorem finish (describes : state.Describes minutes finished readings) :
    JobMetricsAggregating.Describes
      { state with series := state.series.modify finished JobMetricsPoint.finalize }
      minutes (finished + 1) readings where
  totals := describes.totals
  series := by
    change state.series.modify finished JobMetricsPoint.finalize = _
    rw [describes.series, finalizeAt_seriesOf]
    apply seriesOf_congr
    intro idx _
    rcases Nat.lt_trichotomy idx finished with before | same | after
    · simp [before, Nat.ne_of_lt before, Nat.lt_succ_of_lt before]
    · subst same
      simp
    · have apart : ¬ idx = finished := by omega
      have later : ¬ idx < finished := by omega
      have still : ¬ idx < finished + 1 := by omega
      simp [apart, later, still]
  present := describes.present
  absent := describes.absent

theorem hashes (describes : state.Describes minutes finished readings) (order : IterationOrder)
    (filter : Option MetricIdentity) {hashes : List CounterHash}
    (inside : finished + hashes.length ≤ minutes.length) :
    ((hashes.zipIdx finished).foldl (aggregateHash order (emptySeries minutes) filter)
        state).Describes minutes (finished + hashes.length)
      (readings ++ readHashes order filter finished hashes) := by
  induction hashes generalizing state finished readings with
  | nil =>
      rw [readHashes, List.zipIdx_nil, List.flatMap_nil, List.append_nil]
      exact describes
  | cons hash rest ih =>
      rw [List.length_cons] at inside
      have indexed : finished < state.series.length := by
        rw [describes.series, length_seriesOf]
        omega
      have one := (describes.entries filter (order.arrange hash)).finish
      have later := ih one (by omega)
      rw [List.append_assoc, Nat.add_right_comm] at later
      rw [List.zipIdx_cons, List.foldl_cons, aggregateHash, if_pos indexed, List.length_cons,
        ← Nat.add_assoc]
      exact later

end JobMetricsAggregating.Describes

/-! The result of the aggregation. -/

structure JobMetricsAggregation.Reports (aggregation : JobMetricsAggregation)
    (minutes : List Int) (readings : Readings) : Prop where
  totals : aggregation.totals = (totalsOf overall readings).finalize
  series : aggregation.series = seriesOf minutes fun idx =>
    (totalsOf (during idx overall) readings).finalize
  distinct : (aggregation.workers.map WorkerMetricsSummary.identity).Nodup
  worker : ∀ summary, summary ∈ aggregation.workers ↔
    (∃ reading ∈ readings, reading.1.identity = summary.identity) ∧
      summary = (builderOf minutes readings summary.identity).build summary.identity

theorem aggregateCounterHashes_reports (order : IterationOrder) {minutes : List Int}
    {hashes : List CounterHash} (filter : Option MetricIdentity)
    (length : hashes.length = minutes.length) :
    (aggregateCounterHashes order minutes hashes filter).Reports minutes
      (readHashes order filter 0 hashes) := by
  let start : JobMetricsAggregating :=
    { totals := {}, series := emptySeries minutes, workers := .empty }
  let counted := hashes.zipIdx.foldl (aggregateHash order (emptySeries minutes) filter) start
  have initial : start.Describes minutes 0 [] := by
    refine ⟨rfl, emptySeries_eq minutes, ?_, fun _ _ => rfl⟩
    rintro identity ⟨_, member, _⟩
    cases member
  have describes : counted.Describes minutes (0 + hashes.length)
      ([] ++ readHashes order filter 0 hashes) := by
    apply initial.hashes
    omega
  rw [List.nil_append, Nat.zero_add] at describes
  have listed : ∀ identity, identity ∈ counted.workers.keys ↔
      ∃ reading ∈ readHashes order filter 0 hashes, reading.1.identity = identity := by
    intro identity
    rw [counted.workers.mem_keys]
    constructor
    · intro present
      by_contra none
      exact present (describes.absent identity fun reading member equal =>
        none ⟨reading, member, equal⟩)
    · intro seen
      rw [describes.present identity seen]
      exact Option.some_ne_none _
  have sorted := List.mergeSort_perm ((order.arrange counted.workers.keys).filterMap
    fun identity => (counted.workers.get identity).map fun builder => builder.build identity)
      WorkerMetricsSummary.sortsBefore
  refine ⟨?_, ?_, ?_, ?_⟩
  · change counted.totals.finalize = _
    rw [describes.totals]
  · change counted.series = _
    rw [describes.series]
    apply seriesOf_congr
    intro idx inside
    rw [if_pos (length ▸ inside)]
  · refine (sorted.map WorkerMetricsSummary.identity).nodup_iff.mpr ?_
    have names : (((order.arrange counted.workers.keys).filterMap fun identity =>
        (counted.workers.get identity).map fun builder => builder.build identity).map
          WorkerMetricsSummary.identity).Sublist (order.arrange counted.workers.keys) := by
      induction order.arrange counted.workers.keys with
      | nil => exact List.Sublist.slnil
      | cons identity rest ih =>
          cases found : counted.workers.get identity with
          | none =>
              rw [List.filterMap_cons_none (by rw [found]; rfl)]
              exact ih.cons identity
          | some builder =>
              rw [List.filterMap_cons_some (b := builder.build identity) (by rw [found]; rfl)]
              exact ih.cons_cons identity
    exact names.nodup ((order.perm _).nodup_iff.mpr counted.workers.nodup)
  · intro summary
    change summary ∈ List.mergeSort _ _ ↔ _
    rw [sorted.mem_iff, List.mem_filterMap]
    constructor
    · rintro ⟨identity, member, found⟩
      have seen := (listed identity).mp ((order.perm _).mem_iff.mp member)
      rw [describes.present identity seen] at found
      cases found
      exact ⟨seen, rfl⟩
    · rintro ⟨seen, built⟩
      refine ⟨summary.identity, (order.perm _).mem_iff.mpr ((listed _).mpr seen), ?_⟩
      rw [describes.present _ seen, Option.map_some, ← built]

/-! Queues. -/

abbrev QueueReadings := List ((String × QueueMetric) × Nat)

def queueTotalsOf (readings : QueueReadings) (queue : String) : QueueCounterTotals :=
  .ofCounts fun metric => balance readings (queue, metric)

def readQueueEntry (entry : String × Int) : Option ((String × QueueMetric) × Nat) :=
  (readQueueField entry.1).map fun found => (found, entry.2.toNat)

def readQueueHashes (order : IterationOrder) (hashes : List CounterHash) : QueueReadings :=
  hashes.flatMap fun hash => (order.arrange hash).filterMap readQueueEntry

structure QueueTotals (queues : SparseMap String (Option QueueCounterTotals) none)
    (readings : QueueReadings) : Prop where
  present : ∀ queue, (∃ reading ∈ readings, reading.1.1 = queue) →
    queues.get queue = some (queueTotalsOf readings queue)
  absent : ∀ queue, (∀ reading ∈ readings, reading.1.1 ≠ queue) → queues.get queue = none

theorem queueTotalsOf_of_absent {readings : QueueReadings} {queue : String}
    (absent : ∀ reading ∈ readings, reading.1.1 ≠ queue) : queueTotalsOf readings queue = {} := by
  have none : ∀ metric, balance readings (queue, metric) = 0 := by
    intro metric
    apply balance_eq_zero
    intro reading member same
    exact absent reading member (congrArg Prod.fst same)
  unfold queueTotalsOf
  simp only [none]
  rfl

theorem queueTotalsOf_append (readings : QueueReadings) (queue other : String)
    (metric : QueueMetric) (value : Nat) :
    queueTotalsOf (readings ++ [((queue, metric), value)]) other =
      if other = queue then (queueTotalsOf readings other).addMetric metric.text value
      else queueTotalsOf readings other := by
  split
  · rename_i same
    subst same
    unfold queueTotalsOf
    rw [QueueCounterTotals.addMetric_ofCounts]
    congr 1
    funext wanted
    simp [balance]
  · rename_i apart
    unfold queueTotalsOf
    congr 1
    funext wanted
    simp [balance, Ne.symm apart]

theorem QueueTotals.field {queues : SparseMap String (Option QueueCounterTotals) none}
    {readings : QueueReadings} (totals : QueueTotals queues readings) (entry : String × Int) :
    QueueTotals (aggregateQueueField queues entry)
      (readings ++ (readQueueEntry entry).toList) := by
  unfold aggregateQueueField
  cases split : splitQueueMetricField entry.1 with
  | none =>
      have skipped : readQueueEntry entry = none := by
        simp [readQueueEntry, readQueueField, split]
      rw [skipped, Option.toList_none, List.append_nil]
      exact totals
  | some parts =>
      obtain ⟨queue, text⟩ := parts
      obtain ⟨metric, rfl, found⟩ := readQueueField_eq_some split
      have taken : readQueueEntry entry = some ((queue, metric), entry.2.toNat) := by
        rw [readQueueEntry, found, Option.map_some]
      have before : (queues.get queue).getD {} = queueTotalsOf readings queue := by
        by_cases seen : ∃ reading ∈ readings, reading.1.1 = queue
        · rw [totals.present _ seen, Option.getD_some]
        · have fresh : ∀ reading ∈ readings, reading.1.1 ≠ queue :=
            fun reading member equal => seen ⟨reading, member, equal⟩
          rw [totals.absent _ fresh, queueTotalsOf_of_absent fresh, Option.getD_none]
      rw [taken, Option.toList_some]
      refine ⟨?_, ?_⟩
      · rintro other ⟨reading, member, own⟩
        rw [queueTotalsOf_append]
        by_cases same : other = queue
        · subst same
          rw [SparseMap.get_set_self, before, if_pos rfl]
        · have earlier : reading ∈ readings := by
            rcases List.mem_append.mp member with inside | last
            · exact inside
            · rw [List.mem_singleton] at last
              subst last
              exact absurd own.symm same
          rw [SparseMap.get_set_of_ne _ _ same, if_neg same,
            totals.present other ⟨reading, earlier, own⟩]
      · intro other none
        have apart := none ((queue, metric), entry.2.toNat) (by simp)
        rw [SparseMap.get_set_of_ne _ _ (Ne.symm apart)]
        exact totals.absent other fun reading member =>
          none reading (List.mem_append_left _ member)

theorem QueueTotals.entries {queues : SparseMap String (Option QueueCounterTotals) none}
    {readings : QueueReadings} (totals : QueueTotals queues readings) (entries : CounterHash) :
    QueueTotals (entries.foldl aggregateQueueField queues)
      (readings ++ entries.filterMap readQueueEntry) := by
  induction entries generalizing queues readings with
  | nil =>
      rw [List.filterMap_nil, List.append_nil]
      exact totals
  | cons entry rest ih =>
      have next := ih (totals.field entry)
      rw [List.append_assoc] at next
      cases taken : readQueueEntry entry with
      | none =>
          rw [taken, Option.toList_none, List.nil_append] at next
          rw [List.filterMap_cons_none taken]
          exact next
      | some reading =>
          rw [taken, Option.toList_some, List.singleton_append] at next
          rw [List.filterMap_cons_some taken]
          exact next

theorem aggregateQueueCounterHashes_totals (order : IterationOrder) (hashes : List CounterHash) :
    QueueTotals (aggregateQueueCounterHashes order hashes) (readQueueHashes order hashes) := by
  have folded : ∀ (queues : SparseMap String (Option QueueCounterTotals) none)
      (readings : QueueReadings), QueueTotals queues readings →
        QueueTotals (hashes.foldl (fun queues hash =>
          (order.arrange hash).foldl aggregateQueueField queues) queues)
          (readings ++ readQueueHashes order hashes) := by
    unfold readQueueHashes
    induction hashes with
    | nil =>
        intro queues readings totals
        rw [List.flatMap_nil, List.append_nil]
        exact totals
    | cons hash rest ih =>
        intro queues readings totals
        have next := ih _ _ (totals.entries (order.arrange hash))
        rw [List.append_assoc] at next
        exact next
  have initial : QueueTotals .empty [] := by
    refine ⟨?_, fun _ _ => rfl⟩
    rintro queue ⟨_, member, _⟩
    cases member
  have whole := folded .empty [] initial
  rw [List.nil_append] at whole
  exact whole

end Oxana
