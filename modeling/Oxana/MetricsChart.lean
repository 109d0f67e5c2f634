import Mathlib
import Oxana.JobMetrics

/-!
The charts of the metrics page: long windows are drawn with one point for several minutes, and
the points of a worker stand under the timestamps of the summary.
-/

namespace Oxana

open Program StorageInternal

/-! Downsampling. -/

def chunks {α : Type} (size : Nat) (values : List α) : List (List α) :=
  (List.range ((values.length + size - 1) / size)).map fun idx => chunkAt size idx values

def JobMetricsPoint.saturatingAdd (sum point : JobMetricsPoint) : JobMetricsPoint :=
  { sum with
    processed := Oxana.saturatingAdd sum.processed point.processed
    succeeded := Oxana.saturatingAdd sum.succeeded point.succeeded
    failed := Oxana.saturatingAdd sum.failed point.failed
    panicked := Oxana.saturatingAdd sum.panicked point.panicked
    successfulExecutions :=
      Oxana.saturatingAdd sum.successfulExecutions point.successfulExecutions
    failedExecutions := Oxana.saturatingAdd sum.failedExecutions point.failedExecutions
    panickedExecutions := Oxana.saturatingAdd sum.panickedExecutions point.panickedExecutions
    executionMs := Oxana.saturatingAdd sum.executionMs point.executionMs }

section Chunks

variable {α β : Type} {size : Nat}

end Chunks

/-! Sums that saturate nowhere. -/

structure JobMetricsTotals.Fits (totals : JobMetricsTotals) : Prop where
  processed : totals.processed ≤ u64Max
  succeeded : totals.succeeded ≤ u64Max
  failed : totals.failed ≤ u64Max
  panicked : totals.panicked ≤ u64Max
  successfulExecutions : totals.successfulExecutions ≤ u64Max
  failedExecutions : totals.failedExecutions ≤ u64Max
  panickedExecutions : totals.panickedExecutions ≤ u64Max
  executionMs : totals.executionMs ≤ u64Max

theorem JobMetricsTotals.Fits.left {first second : JobMetricsTotals}
    (fits : (first + second).Fits) : first.Fits :=
  ⟨Nat.le_of_add_right_le fits.processed, Nat.le_of_add_right_le fits.succeeded,
    Nat.le_of_add_right_le fits.failed, Nat.le_of_add_right_le fits.panicked,
    Nat.le_of_add_right_le fits.successfulExecutions,
    Nat.le_of_add_right_le fits.failedExecutions,
    Nat.le_of_add_right_le fits.panickedExecutions, Nat.le_of_add_right_le fits.executionMs⟩

end Oxana
