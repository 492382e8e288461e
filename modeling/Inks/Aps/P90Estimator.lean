import Mathlib.Data.List.Sort

/-
  The sliding window of run times from which the scheduler
  derives the time it gives to a job of the fast lane.

  Key definitions include:
    * `Aps.P90Estimator.add`
    * `Aps.P90Estimator.compute`
-/

namespace Inks

namespace Aps

/- The latest positive durations, in seconds. -/
structure P90Estimator where
  capacity : Nat := 1000
  samples : List Int := []
deriving DecidableEq, Repr

namespace P90Estimator

def add
    (estimator : P90Estimator)
    (duration : Int) : P90Estimator :=
  if duration ≤ 0 then
    estimator
  else
    let samples :=
      if estimator.capacity ≤ estimator.samples.length then
        estimator.samples.tail
      else
        estimator.samples
    { estimator with samples := samples ++ [duration] }

/-
  The sample at the 90th percentile of the window. What
  `nth_element` leaves at an index is what sorting would.
-/
def compute
    (estimator : P90Estimator) : Int :=
  let n := estimator.samples.length
  if n = 0 then
    0
  else
    let idx := min ((n * 9 + 9) / 10 - 1) (n - 1)
    (estimator.samples.insertionSort (· ≤ ·)).getD idx 0

def size
    (estimator : P90Estimator) : Nat :=
  estimator.samples.length

end P90Estimator

end Aps

end Inks
