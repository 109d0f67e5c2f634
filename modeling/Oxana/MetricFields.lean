import Oxana.MetricsCore

/-!
The counter fields are read back as they were written, whatever letters a worker or queue
name has: the byte length says where the name ends, and no metric has a bar in it.
-/

namespace Oxana

/-! The text functions. -/

theorem toList_bar (first second : String) :
    (first ++ "|" ++ second).toList = first.toList ++ '|' :: second.toList := by
  rw [String.toList_append, String.toList_append, List.append_assoc]
  rfl

theorem all_ne_of_notMem {separator : Char} {letters : List Char} (plain : separator ∉ letters) :
    ∀ letter ∈ letters, (letter != separator) = true := by
  intro letter member
  rw [bne_iff_ne]
  rintro rfl
  exact plain member

theorem splitOnce_join {first second : String} (plain : ':' ∉ first.toList) :
    splitOnce ':' (first ++ ":" ++ second) = some (first, second) := by
  have kept := all_ne_of_notMem plain
  unfold splitOnce
  rw [toList_join, List.dropWhile_append_of_pos kept, List.takeWhile_append_of_pos kept]
  simp

theorem rsplitOnce_bar {first second : String} (plain : '|' ∉ second.toList) :
    rsplitOnce '|' (first ++ "|" ++ second) = some (first, second) := by
  have kept : ∀ letter ∈ second.toList.reverse, (letter != '|') = true := by
    intro letter member
    exact all_ne_of_notMem plain letter (List.mem_reverse.mp member)
  have reversed : (first ++ "|" ++ second).toList.reverse =
      second.toList.reverse ++ '|' :: first.toList.reverse := by
    rw [toList_bar]
    simp
  unfold rsplitOnce
  rw [reversed, List.dropWhile_append_of_pos kept, List.takeWhile_append_of_pos kept]
  simp

theorem parseUsize_natText {number : Nat} (fits : number < 2 ^ 64) :
    parseUsize (toString number) = some number := by
  have digits : (toString number).toList = Nat.toDigits 10 number := by
    rw [Nat.toString_eq_repr, Nat.toList_repr]
  have value : Nat.ofDigitChars 10 (toString number).toList 0 = number := by
    rw [digits, Nat.ofDigitChars_ten_toDigits]
  have unsigned : ∀ rest, (toString number).toList ≠ '+' :: rest := by
    intro rest same
    have plus : '+' ∈ (toString number).toList := by
      rw [same]
      exact List.mem_cons_self
    exact notMem_natText rfl number plus
  have allDigits : (toString number).toList.all Char.isDigit = true := by
    rw [digits, List.all_eq_true]
    intro letter member
    exact Nat.isDigit_of_mem_toDigits (by decide) (by decide) member
  unfold parseUsize
  split
  rename_i letters same
  · exact absurd same (unsigned letters)
  · simp only [value, allDigits, fits, if_true]
    simp

theorem splitAtByte_append (letters rest : List Char) :
    splitAtByte (String.utf8Len letters) (letters ++ rest) = some (letters, rest) := by
  induction letters with
  | nil => cases rest <;> rfl
  | cons letter letters ih =>
      have positive := letter.utf8Size_pos
      obtain ⟨offset, size⟩ : ∃ offset, String.utf8Len letters + letter.utf8Size = offset + 1 :=
        ⟨String.utf8Len letters + letter.utf8Size - 1, by omega⟩
      have fits : letter.utf8Size ≤ offset + 1 := by omega
      have left : offset + 1 - letter.utf8Size = String.utf8Len letters := by omega
      rw [String.utf8Len_cons, size, List.cons_append, splitAtByte, if_pos fits, left, ih]
      rfl

theorem utf8Len_toList (text : String) : String.utf8Len text.toList = text.utf8ByteSize := by
  rw [← String.utf8ByteSize_ofList, String.ofList_toList]

/-! The fields. -/

theorem fromFieldKey_fieldKey {identity : MetricIdentity}
    (fits : identity.worker.utf8ByteSize < 2 ^ 64) :
    MetricIdentity.fromFieldKey identity.fieldKey = some identity := by
  have whole := splitAtByte_append identity.worker.toList []
  rw [utf8Len_toList, List.append_nil] at whole
  unfold MetricIdentity.fromFieldKey MetricIdentity.fieldKey Oxana.fieldKey
  rw [splitOnce_join (notMem_natText rfl _)]
  simp only [Option.bind_eq_bind, Option.bind_some, parseUsize_natText fits, whole,
    String.ofList_toList]

inductive JobMetric
  | processed
  | failed
  | panicked
  | successfulExecutions
  | failedExecutions
  | panickedExecutions
  | executionMs
  deriving DecidableEq

def JobMetric.text : JobMetric → String
  | processed => metricProcessedJobs
  | failed => metricFailedJobs
  | panicked => metricPanickedJobs
  | successfulExecutions => metricSuccessfulExecutions
  | failedExecutions => metricFailedExecutions
  | panickedExecutions => metricPanickedExecutions
  | executionMs => metricExecutionMs

def JobMetric.all : List JobMetric :=
  [processed, failed, panicked, successfulExecutions, failedExecutions, panickedExecutions,
    executionMs]

inductive QueueMetric
  | processed
  | succeeded
  | failed
  deriving DecidableEq

def QueueMetric.text : QueueMetric → String
  | processed => queueMetricProcessedJobs
  | succeeded => queueMetricSucceededJobs
  | failed => queueMetricFailedJobs

def QueueMetric.all : List QueueMetric := [processed, succeeded, failed]

theorem JobMetric.text_injective {first second : JobMetric} (same : first.text = second.text) :
    first = second := by
  revert same
  cases first <;> cases second <;> decide

theorem QueueMetric.text_injective {first second : QueueMetric}
    (same : first.text = second.text) : first = second := by
  revert same
  cases first <;> cases second <;> decide

theorem JobMetric.bar_notMem_text (metric : JobMetric) : '|' ∉ metric.text.toList := by
  cases metric <;> decide

theorem QueueMetric.bar_notMem_text (metric : QueueMetric) : '|' ∉ metric.text.toList := by
  cases metric <;> decide

theorem splitMetricField_metricField {identity : MetricIdentity}
    (fits : identity.worker.utf8ByteSize < 2 ^ 64) (metric : JobMetric) :
    splitMetricField (identity.metricField metric.text) = some (identity, metric.text) := by
  have known : metric.text ∈ [metricProcessedJobs, metricFailedJobs, metricPanickedJobs,
      metricSuccessfulExecutions, metricFailedExecutions, metricPanickedExecutions,
      metricExecutionMs] := by
    cases metric <;> decide
  unfold splitMetricField MetricIdentity.metricField
  rw [rsplitOnce_bar metric.bar_notMem_text]
  simp only [Option.bind_eq_bind, Option.bind_some, if_pos known, fromFieldKey_fieldKey fits,
    Option.map_some]

theorem splitQueueMetricField_queueMetricField {queue : String}
    (fits : queue.utf8ByteSize < 2 ^ 64) (metric : QueueMetric) :
    splitQueueMetricField (queueMetricField queue metric.text) = some (queue, metric.text) := by
  have known : metric.text ∈ [queueMetricProcessedJobs, queueMetricSucceededJobs,
      queueMetricFailedJobs] := by
    cases metric <;> decide
  unfold splitQueueMetricField queueMetricField
  rw [rsplitOnce_bar metric.bar_notMem_text]
  simp only [Option.bind_eq_bind, Option.bind_some, if_pos known,
    splitOnce_join (notMem_natText rfl _), parseUsize_natText fits, ne_eq, not_true_eq_false,
    if_false]

/-! No two counters share a field. -/

theorem metricField_injective {first second : MetricIdentity} {one two : JobMetric}
    (same : first.metricField one.text = second.metricField two.text) :
    first = second ∧ one = two := by
  have lists := congrArg String.toList same
  unfold MetricIdentity.metricField at lists
  rw [toList_bar, toList_bar] at lists
  obtain ⟨keys, texts⟩ :=
    SeparatedText.parts_of_plain_tails one.bar_notMem_text two.bar_notMem_text lists
  have workers := fieldKey_injective (String.toList_inj.mp keys)
  cases first
  cases second
  cases workers
  exact ⟨rfl, JobMetric.text_injective (String.toList_inj.mp texts)⟩

theorem queueMetricField_injective {first second : String} {one two : QueueMetric}
    (same : queueMetricField first one.text = queueMetricField second two.text) :
    first = second ∧ one = two := by
  have lists := congrArg String.toList same
  unfold queueMetricField at lists
  rw [toList_bar, toList_bar] at lists
  obtain ⟨keys, texts⟩ :=
    SeparatedText.parts_of_plain_tails one.bar_notMem_text two.bar_notMem_text lists
  exact ⟨fieldKey_injective (String.toList_inj.mp keys),
    QueueMetric.text_injective (String.toList_inj.mp texts)⟩

end Oxana
