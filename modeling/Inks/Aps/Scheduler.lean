import Inks.Aps.Job
import Inks.Aps.P90Estimator
import Inks.Library.Binary64
import Inks.Library.Run
import Mathlib.Data.Rat.Floor

/-
  The scheduler: jobs wait in one queue and run in two lanes
  of bounded size. A tick of the run loop starts at most one
  job; exit and timeout notifications take jobs out again.

  What the outside decides is an argument: the pid that
  `Process_Manager::spawn` returns and each reading of the
  steady clock. Logging is left out.

  Key definitions include:
    * `Aps.Scheduler`
    * `Aps.Scheduler.schedulable`, `Aps.Scheduler.schedule`
    * `Aps.Scheduler.runLoop`
    * `Aps.Scheduler.handleExit`
    * `Aps.Scheduler.handleTimeout`
    * `Aps.Event`
    * `Aps.Scheduler.step`
-/

------------------------------------------------------------
-- State
------------------------------------------------------------

namespace Inks

namespace Aps

/- One execution of `schedule`. -/
structure Start where
  job : PendingJob
  lane : Lane
  pid : Int
deriving DecidableEq, Repr

structure Scheduler where
  stop : Bool := false
  pq : PendingQ
  storage : FinishedStorage
  totalLane : UInt64
  fastLane : UInt64
  slowLane : UInt64
  runningFast : UInt64 := 0
  runningSlow : UInt64 := 0
  p90Estimator : P90Estimator := {}
  running : Table ByteString RunningJob := ∅
  -- Ghost: the executions of `schedule`, in order.
  starts : List Start := []
  -- Ghost: the pids passed to `Process_Manager::terminate`.
  terminated : List Int := []
  -- Ghost: a lane counter went below 0 or past its maximum.
  wrapped : Bool := false

/- The running entry that a start makes. -/
def start
    (pj : PendingJob)
    (actualLane : Lane)
    (pid : Int)
    (now : Int)
    (timer : Option SteadyTimer)
    (index : Nat) : RunningJob where
  spec := pj.spec
  lane := actualLane
  pid := pid
  startTime := now
  timer := timer
  start := index

/- A job that timed out waits again, now for a slow lane. -/
def requeue
    (rj : RunningJob) : PendingJob where
  spec := rj.spec
  lane := .slow

def finish
    (rj : RunningJob)
    (endTime : Int)
    (exitCode : Int) : FinishedJob where
  spec := rj.spec
  startTime := rj.startTime
  endTime := endTime
  exitCode := exitCode
  start := some rj.start

/-
  `WIFEXITED` of a wait status: its low seven bits, which
  hold the signal that ended the process, are zero.
-/
def wifexited
    (status : Int) : Bool :=
  status % 128 == 0

/- Whole seconds of a duration, rounded towards zero. -/
def durationCastSeconds
    (nanoseconds : Int) : Int :=
  nanoseconds.tdiv 1000000000

end Aps

end Inks

------------------------------------------------------------
-- Member Functions
------------------------------------------------------------

namespace Inks

namespace Aps

namespace Scheduler

def defaultTimeout : Int := 30

def p90MinSamples : Nat := 15

def p90Multiplier : Rat := 3 / 2

/- The constructor, which throws on fewer than 4 lanes. -/
def new
    (pq : PendingQ)
    (storage : FinishedStorage)
    (lane : UInt64) : Except String Scheduler :=
  if lane < 4 then
    .error ""
  else
    .ok
      { pq := pq
        storage := storage
        totalLane := lane
        fastLane := lane / 4
        slowLane := lane - lane / 4 }

/-
  Whether the job at the head of the queue may start now.
-/
def schedulable
    (s : Scheduler)
    (pj : PendingJob) : Bool :=
  if s.runningFast + s.runningSlow ≥ s.totalLane then
    false
  else
    match pj.lane with
    | .fast => true
    | .slow =>
        if s.runningSlow < s.slowLane then
          true
        else if s.runningFast < s.fastLane / 2 then
          true
        else
          -- The switch ends here and falls through.
          true

/- The lane that `schedule` gives to a job. -/
def actualLane
    (s : Scheduler)
    (pj : PendingJob) : Lane :=
  match pj.lane with
  | .fast =>
      if s.runningFast < s.fastLane then .fast else .slow
  | .slow =>
      if s.runningSlow < s.slowLane then .slow else .fast

/- `running_fast_++` or `running_slow_++`. -/
def takeLane
    (s : Scheduler) : Lane → Scheduler
| .fast =>
    { s with
      runningFast := s.runningFast + 1
      wrapped := s.wrapped || s.runningFast + 1 == 0 }
| .slow =>
    { s with
      runningSlow := s.runningSlow + 1
      wrapped := s.wrapped || s.runningSlow + 1 == 0 }

/- `--running_fast_` or `--running_slow_`. -/
def releaseLane
    (s : Scheduler) : Lane → Scheduler
| .fast =>
    { s with
      runningFast := s.runningFast - 1
      wrapped := s.wrapped || s.runningFast == 0 }
| .slow =>
    { s with
      runningSlow := s.runningSlow - 1
      wrapped := s.wrapped || s.runningSlow == 0 }

/-
  The time a fast job gets. Both the count and the product
  are rounded to doubles. Counts from 2^62 on, whose result
  is no 64-bit number, are left out.
-/
def computeTimeout
    (s : Scheduler) : Int :=
  if s.p90Estimator.size < p90MinSamples then
    defaultTimeout
  else
    let p90 := s.p90Estimator.compute
    if p90 = 0 then
      defaultTimeout
    else
      ⌈Binary64.round
        (Binary64.round p90 * p90Multiplier)⌉

/- Only a job in the fast lane has a timer. -/
def armTimer
    (s : Scheduler) : Lane → Option SteadyTimer
| .fast => some { expiresAfter := s.computeTimeout }
| .slow => none

/-
  Start a job: take a lane, spawn its process, arm its timer
  in the fast lane and record it as running. The result of
  `spawn` is not looked at, and neither is the one of
  `emplace`, which inserts nothing under an id in use.
-/
def schedule
    (s : Scheduler)
    (pj : PendingJob)
    (pid : Int)
    (now : Int) : Scheduler :=
  let lane := s.actualLane pj
  let s := s.takeLane lane
  let timer := s.armTimer lane
  { s with
    running :=
      s.running.emplace pj.spec.id
        (start pj lane pid now timer s.starts.length)
    starts :=
      s.starts ++ [{ job := pj, lane := lane, pid := pid }] }

/- One turn of the run loop. -/
def runLoop
    (s : Scheduler)
    (pid : Int)
    (now : Int) : Scheduler :=
  if s.stop then
    s
  else
    match s.pq.front with
    | none => s
    | some head =>
        if s.schedulable head then
          match s.pq.pop with
          | none => s
          | some (pj, rest) =>
              schedule { s with pq := rest } pj pid now
        else
          s

def handleExit
    (s : Scheduler)
    (id : ByteString)
    (exitCode : Int)
    (now : Int) : Scheduler :=
  match s.running.lookup id with
  | none => s
  | some it =>
      let s :=
        if wifexited exitCode then
          { s with
            storage :=
              s.storage.store (finish it now exitCode)
            p90Estimator :=
              s.p90Estimator.add
                (durationCastSeconds
                  (now - it.startTime)) }
        else
          -- A job ended by a signal is only logged.
          s
      let s := s.releaseLane it.lane
      { s with running := s.running.erase id }

/- Kill a job that ran for too long and queue it again. -/
def handleTimeout
    (s : Scheduler)
    (id : ByteString) : Scheduler :=
  match s.running.lookup id with
  | none => s
  | some it =>
      let s :=
        { s with terminated := s.terminated ++ [it.pid] }
      let s := s.releaseLane it.lane
      { s with
        pq := s.pq.push (requeue it)
        running := s.running.erase id }

end Scheduler

end Aps

end Inks

------------------------------------------------------------
-- Events
------------------------------------------------------------

namespace Inks

namespace Aps

/-
  What can happen to a scheduler: a producer pushes a job,
  the run loop has its turn, a notification for some job is
  delivered, the scheduler is stopped.
-/
inductive Event where
| push (pj : PendingJob)
| tick (pid : Int) (now : Int)
| exit (id : ByteString) (exitCode : Int) (now : Int)
| timeout (id : ByteString)
| stop
deriving DecidableEq, Repr

namespace Scheduler

def step
    (s : Scheduler) : Event → Scheduler
| .push pj => { s with pq := s.pq.push pj }
| .tick pid now => s.runLoop pid now
| .exit id exitCode now => s.handleExit id exitCode now
| .timeout id => s.handleTimeout id
| .stop => { s with stop := true }

/- The state after a list of events. -/
abbrev run
    (s : Scheduler)
    (events : List Event) : Scheduler :=
  Transition.run step s events

theorem run_concat
    (s : Scheduler)
    (past : List Event)
    (event : Event) :
    s.run (past ++ [event]) = (s.run past).step event :=
  Transition.run_concat step s past event

end Scheduler

end Aps

end Inks

------------------------------------------------------------
-- A Small Scheduler
------------------------------------------------------------

namespace Inks

namespace Aps

/- A job with a one-byte id. -/
def smallJob
    (id : UInt8)
    (lane : Lane) : PendingJob where
  spec := { id := [id] }
  lane := lane

namespace Scheduler

/-
  The smallest scheduler that the constructor makes, with
  one slot in the fast lane and three in the slow one.
-/
def small : Scheduler where
  pq := {}
  storage := {}
  totalLane := 4
  fastLane := 1
  slowLane := 3

theorem new_small :
    new {} {} 4 = .ok small := rfl

end Scheduler

end Aps

end Inks
