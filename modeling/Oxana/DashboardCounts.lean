import Mathlib
import Oxana.CollectorFleet
import Oxana.QueueStatsSound

/-!
From the results of the workers to the dashboard: the queue statistics that are computed from
what the collectors of all processes have counted in Redis.
-/

namespace Oxana

open Postings

/-! The hash of statistics. -/

def StatCounter.metric : StatCounter → StatsMetric
  | .processed => .processed
  | .succeeded => .succeeded
  | .panicked => .panicked
  | .failed => .failed

section Counted

variable {given : String} {start store : MetricsStore} {metricsIn counted : MetricsLog}

end Counted

/-! The entries of the dashboard. -/

end Oxana
