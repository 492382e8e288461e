import Inks.Library.Table
import Inks.Process.Handler

/-
  The data of the asynchronous process scheduler: a job as
  it is pending, running and finished, the queue of pending
  jobs and the storage of finished ones.

  Key definitions include:
    * `Aps.Lane`
    * `Aps.PendingJob`, `Aps.RunningJob`, `Aps.FinishedJob`
    * `Aps.PendingQ`
    * `Aps.FinishedStorage`
-/

------------------------------------------------------------
-- Jobs
------------------------------------------------------------

namespace Inks

namespace Aps

/- A job as its producer describes it. -/
structure JobSpecification where
  id : ByteString := []
  opts : ProcessOptions := {}
deriving DecidableEq, Repr

inductive Lane where
| fast
| slow
deriving DecidableEq, Repr

/- A job that waits in the queue for one of the lanes. -/
structure PendingJob where
  spec : JobSpecification
  lane : Lane := .fast
deriving DecidableEq, Repr

/- A timer of the event loop, in seconds from its start. -/
structure SteadyTimer where
  expiresAfter : Int
deriving DecidableEq, Repr

/-
  A job with a process. Times are readings of the steady
  clock in nanoseconds.
-/
structure RunningJob where
  spec : JobSpecification
  lane : Lane
  pid : Int := -1
  startTime : Int
  timer : Option SteadyTimer
  -- Ghost: which execution of `schedule` made this entry.
  start : Nat
deriving DecidableEq, Repr

/- The recorded result of a job. -/
structure FinishedJob where
  spec : JobSpecification := {}
  startTime : Int := 0
  endTime : Int := 0
  exitCode : Int := -1
  -- Ghost: the start of the entry this result came from.
  start : Option Nat := none
deriving DecidableEq, Repr

end Aps

end Inks

------------------------------------------------------------
-- Pending Queue
------------------------------------------------------------

namespace Inks

namespace Aps

/- Jobs in the order in which they were pushed. -/
structure PendingQ where
  q : List PendingJob := []
deriving DecidableEq, Repr

namespace PendingQ

def empty
    (pq : PendingQ) : Bool :=
  pq.q.isEmpty

def push
    (pq : PendingQ)
    (pj : PendingJob) : PendingQ :=
  { pq with q := pq.q ++ [pj] }

/- The oldest job; without one the source is undefined. -/
def front
    (pq : PendingQ) : Option PendingJob :=
  pq.q.head?

/- Take the oldest job out of the queue. -/
def pop
    (pq : PendingQ) : Option (PendingJob × PendingQ) :=
  match pq.q with
  | [] => none
  | pj :: rest => some (pj, { pq with q := rest })

@[simp] theorem push_q
    (pq : PendingQ)
    (pj : PendingJob) :
    (pq.push pj).q = pq.q ++ [pj] := rfl

end PendingQ

end Aps

end Inks

------------------------------------------------------------
-- Finished Storage
------------------------------------------------------------

namespace Inks

namespace Aps

/- Results by job id. -/
structure FinishedStorage where
  sink : Table ByteString FinishedJob := ∅

namespace FinishedStorage

/- Record a result unless its id already has one. -/
def store
    (storage : FinishedStorage)
    (fj : FinishedJob) : FinishedStorage :=
  { storage with
    sink := storage.sink.emplace fj.spec.id fj }

/- A default-constructed job stands for no result. -/
def find
    (storage : FinishedStorage)
    (id : ByteString) : FinishedJob :=
  match storage.sink.lookup id with
  | none => {}
  | some fj => fj

@[simp] theorem store_sink
    (storage : FinishedStorage)
    (fj : FinishedJob) :
    (storage.store fj).sink =
      storage.sink.emplace fj.spec.id fj := rfl

theorem find_of_lookup
    {storage : FinishedStorage}
    {id : ByteString}
    {fj : FinishedJob}
    (hLookup : storage.sink.lookup id = some fj) :
    storage.find id = fj := by
  simp [find, hLookup]

end FinishedStorage

end Aps

end Inks
