import Inks.Aps.Scheduler
import Inks.Library.Pool

/-
  What one event does to a scheduler, said once for every
  proof about it, and the pool of lane slots that the
  scheduler implements.

  Key definitions include:
    * `Aps.Scheduler.admitted`
    * `Aps.Scheduler.Move`
    * `Aps.Scheduler.pool`
    * `Aps.Scheduler.LaneInv`

  Key theorems include:
    * `Aps.Scheduler.step_move`
    * `Aps.Scheduler.pool_step`
    * `Aps.Scheduler.LaneInv.step`
-/

------------------------------------------------------------
-- Lanes
------------------------------------------------------------

namespace Inks

namespace Aps

namespace Scheduler

/- The counter of a lane. -/
def counter
    (s : Scheduler) : Lane → UInt64
| .fast => s.runningFast
| .slow => s.runningSlow

/- The size of a lane. -/
def capacity
    (s : Scheduler) : Lane → UInt64
| .fast => s.fastLane
| .slow => s.slowLane

/- Taking a lane only changes its counter. -/
@[simp] theorem takeLane_frame
    (s : Scheduler)
    (lane : Lane) :
    (s.takeLane lane).stop = s.stop ∧
      (s.takeLane lane).pq = s.pq ∧
      (s.takeLane lane).storage = s.storage ∧
      (s.takeLane lane).totalLane = s.totalLane ∧
      (s.takeLane lane).fastLane = s.fastLane ∧
      (s.takeLane lane).slowLane = s.slowLane ∧
      (s.takeLane lane).p90Estimator = s.p90Estimator ∧
      (s.takeLane lane).running = s.running ∧
      (s.takeLane lane).starts = s.starts ∧
      (s.takeLane lane).terminated = s.terminated := by
  cases lane <;> simp [takeLane]

/- Releasing a lane only changes its counter. -/
@[simp] theorem releaseLane_frame
    (s : Scheduler)
    (lane : Lane) :
    (s.releaseLane lane).stop = s.stop ∧
      (s.releaseLane lane).pq = s.pq ∧
      (s.releaseLane lane).storage = s.storage ∧
      (s.releaseLane lane).totalLane = s.totalLane ∧
      (s.releaseLane lane).fastLane = s.fastLane ∧
      (s.releaseLane lane).slowLane = s.slowLane ∧
      (s.releaseLane lane).p90Estimator =
        s.p90Estimator ∧
      (s.releaseLane lane).running = s.running ∧
      (s.releaseLane lane).starts = s.starts ∧
      (s.releaseLane lane).terminated =
        s.terminated := by
  cases lane <;> simp [releaseLane]

@[simp] theorem armTimer_takeLane
    (s : Scheduler)
    (lane other : Lane) :
    (s.takeLane lane).armTimer other =
      s.armTimer other := by
  cases other <;> simp [armTimer, computeTimeout]

/- Counting up adds one slot to the lane it counts. -/
theorem counter_takeLane
    (s : Scheduler)
    (lane other : Lane)
    (hRoom :
      (s.counter lane).toNat < (s.capacity lane).toNat) :
    ((s.takeLane lane).counter other).toNat =
      Function.update (fun l => (s.counter l).toNat) lane
        ((s.counter lane).toNat + 1) other := by
  have hBound := (s.capacity lane).toNat_lt
  cases lane <;> cases other <;>
    simp_all [takeLane, counter, capacity,
      UInt64.toNat_add] <;>
    omega

theorem wrapped_takeLane
    (s : Scheduler)
    (lane : Lane)
    (hRoom :
      (s.counter lane).toNat < (s.capacity lane).toNat) :
    (s.takeLane lane).wrapped = s.wrapped := by
  have hBound := (s.capacity lane).toNat_lt
  have hNe : s.counter lane + 1 ≠ 0 := by
    intro hZero
    have hNat := congrArg UInt64.toNat hZero
    simp only [UInt64.toNat_add, UInt64.toNat_ofNat]
      at hNat
    omega
  cases lane <;>
    simpa [takeLane, counter] using fun hEq =>
      absurd hEq hNe

/- Counting down gives one slot of its lane back. -/
theorem counter_releaseLane
    (s : Scheduler)
    (lane other : Lane)
    (hTaken : 0 < (s.counter lane).toNat) :
    ((s.releaseLane lane).counter other).toNat =
      Function.update (fun l => (s.counter l).toNat) lane
        ((s.counter lane).toNat - 1) other := by
  have hBound := (s.counter lane).toNat_lt
  cases lane <;> cases other <;>
    simp_all [releaseLane, counter, UInt64.toNat_sub] <;>
    omega

theorem wrapped_releaseLane
    (s : Scheduler)
    (lane : Lane)
    (hTaken : 0 < (s.counter lane).toNat) :
    (s.releaseLane lane).wrapped = s.wrapped := by
  have hNe : s.counter lane ≠ 0 := by
    intro hZero
    simp [hZero] at hTaken
  cases lane <;>
    simpa [releaseLane, counter] using fun hEq =>
      absurd hEq hNe

end Scheduler

end Aps

end Inks

------------------------------------------------------------
-- Single Steps
------------------------------------------------------------

namespace Inks

namespace Aps

namespace Scheduler

/- The job that a tick would start now. -/
def admitted
    (s : Scheduler) : Option PendingJob :=
  if s.stop then
    none
  else
    match s.pq.q with
    | [] => none
    | pj :: _ => if s.schedulable pj then some pj else none

/- The running entry that `schedule` makes for a job. -/
def newEntry
    (s : Scheduler)
    (pj : PendingJob)
    (pid : Int)
    (now : Int) : RunningJob :=
  start pj (s.actualLane pj) pid now
    (s.armTimer (s.actualLane pj)) s.starts.length

theorem runLoop_of_not_admitted
    {s : Scheduler}
    (hNone : s.admitted = none)
    (pid now : Int) :
    s.runLoop pid now = s := by
  unfold admitted at hNone
  unfold runLoop PendingQ.front
  split
  · rfl
  · cases hQueue : s.pq.q with
    | nil => simp
    | cons pj rest =>
        simp_all

/- A tick that starts a job pops it and schedules it. -/
theorem runLoop_of_admitted
    {s : Scheduler}
    {pj : PendingJob}
    (hAdmitted : s.admitted = some pj)
    (pid now : Int) :
    ∃ rest,
      s.pq.q = pj :: rest ∧
        s.runLoop pid now =
          schedule { s with pq := { q := rest } }
            pj pid now := by
  unfold admitted at hAdmitted
  split at hAdmitted
  · cases hAdmitted
  · rename_i hStop
    cases hQueue : s.pq.q with
    | nil =>
        simp [hQueue] at hAdmitted
    | cons head rest =>
        simp only [hQueue] at hAdmitted
        split at hAdmitted
        · rename_i hSchedulable
          cases hAdmitted
          refine ⟨rest, rfl, ?_⟩
          simp [runLoop, PendingQ.front, PendingQ.pop,
            hStop, hQueue, hSchedulable]
        · cases hAdmitted

/- An admitted job is one that `schedulable` approves. -/
theorem schedulable_of_admitted
    {s : Scheduler}
    {pj : PendingJob}
    (hAdmitted : s.admitted = some pj) :
    s.schedulable pj = true := by
  unfold admitted at hAdmitted
  split at hAdmitted
  · cases hAdmitted
  · split at hAdmitted
    · cases hAdmitted
    · split at hAdmitted
      · cases hAdmitted
        assumption
      · cases hAdmitted

/- All that scheduling a job changes. -/
@[simp] theorem schedule_frame
    (s : Scheduler)
    (pj : PendingJob)
    (pid now : Int) :
    (s.schedule pj pid now).stop = s.stop ∧
      (s.schedule pj pid now).pq = s.pq ∧
      (s.schedule pj pid now).storage = s.storage ∧
      (s.schedule pj pid now).totalLane = s.totalLane ∧
      (s.schedule pj pid now).fastLane = s.fastLane ∧
      (s.schedule pj pid now).slowLane = s.slowLane ∧
      (s.schedule pj pid now).p90Estimator =
        s.p90Estimator ∧
      (s.schedule pj pid now).running =
        s.running.emplace pj.spec.id
          (s.newEntry pj pid now) ∧
      (s.schedule pj pid now).starts =
        s.starts ++
          [{ job := pj
             lane := s.actualLane pj
             pid := pid }] ∧
      (s.schedule pj pid now).terminated =
        s.terminated := by
  simp [schedule, newEntry]

/- A tick that starts a job adds one start. -/
theorem runLoop_starts
    {s : Scheduler}
    {pj : PendingJob}
    (hAdmitted : s.admitted = some pj)
    (pid now : Int) :
    (s.runLoop pid now).starts =
      s.starts ++
        [{ job := pj
           lane := s.actualLane pj
           pid := pid }] := by
  rcases runLoop_of_admitted hAdmitted pid now with
    ⟨rest, _, hRun⟩
  rw [hRun]
  simp only [schedule_frame]
  rfl

theorem counter_schedule
    (s : Scheduler)
    (pj : PendingJob)
    (pid now : Int)
    (lane : Lane) :
    (s.schedule pj pid now).counter lane =
      (s.takeLane (s.actualLane pj)).counter lane := by
  cases lane <;> rfl

theorem handleExit_of_not_running
    {s : Scheduler}
    {id : ByteString}
    (hLookup : s.running.lookup id = none)
    (exitCode now : Int) :
    s.handleExit id exitCode now = s := by
  simp [handleExit, hLookup]

/-
  What an exit notification does to a running job: a normal
  exit is recorded, and in every case the lane is released
  and the entry removed.
-/
theorem handleExit_of_lookup
    {s : Scheduler}
    {id : ByteString}
    {it : RunningJob}
    (hLookup : s.running.lookup id = some it)
    (exitCode now : Int) :
    s.handleExit id exitCode now =
      { s.releaseLane it.lane with
        storage :=
          if wifexited exitCode then
            s.storage.store (finish it now exitCode)
          else
            s.storage
        p90Estimator :=
          if wifexited exitCode then
            s.p90Estimator.add
              (durationCastSeconds (now - it.startTime))
          else
            s.p90Estimator
        running := s.running.erase id } := by
  unfold handleExit
  rw [hLookup]
  by_cases hExited : wifexited exitCode = true
  · cases hLane : it.lane <;>
      simp [hExited, hLane, releaseLane]
  · cases hLane : it.lane <;>
      simp [hExited, hLane, releaseLane]

theorem handleTimeout_of_not_running
    {s : Scheduler}
    {id : ByteString}
    (hLookup : s.running.lookup id = none) :
    s.handleTimeout id = s := by
  simp [handleTimeout, hLookup]

/-
  What a timeout does to a running job: its process is
  killed, and the job goes back to the end of the queue.
-/
theorem handleTimeout_of_lookup
    {s : Scheduler}
    {id : ByteString}
    {it : RunningJob}
    (hLookup : s.running.lookup id = some it) :
    s.handleTimeout id =
      { s.releaseLane it.lane with
        pq := s.pq.push (requeue it)
        running := s.running.erase id
        terminated := s.terminated ++ [it.pid] } := by
  unfold handleTimeout
  rw [hLookup]
  cases hLane : it.lane <;> simp [hLane, releaseLane]

end Scheduler

end Aps

end Inks

------------------------------------------------------------
-- Moves
------------------------------------------------------------

namespace Inks

namespace Aps

namespace Scheduler

/-
  Everything an event can do to a scheduler: one constructor
  for each path through the handlers.
-/
inductive Move
    (s : Scheduler) : Event → Scheduler → Prop where
| push
    (pj : PendingJob) :
    Move s (.push pj) { s with pq := s.pq.push pj }
| idle
    (pid now : Int)
    (hNone : s.admitted = none) :
    Move s (.tick pid now) s
| start
    (pj : PendingJob)
    (rest : List PendingJob)
    (pid now : Int)
    (hAdmitted : s.admitted = some pj)
    (hQueue : s.pq.q = pj :: rest) :
    Move s (.tick pid now)
      (schedule { s with pq := { q := rest } } pj pid now)
| exit
    (id : ByteString)
    (it : RunningJob)
    (exitCode now : Int)
    (hLookup : s.running.lookup id = some it) :
    Move s (.exit id exitCode now)
      { s.releaseLane it.lane with
        storage :=
          if wifexited exitCode then
            s.storage.store (finish it now exitCode)
          else
            s.storage
        p90Estimator :=
          if wifexited exitCode then
            s.p90Estimator.add
              (durationCastSeconds (now - it.startTime))
          else
            s.p90Estimator
        running := s.running.erase id }
| exitUnknown
    (id : ByteString)
    (exitCode now : Int)
    (hLookup : s.running.lookup id = none) :
    Move s (.exit id exitCode now) s
| timeout
    (id : ByteString)
    (it : RunningJob)
    (hLookup : s.running.lookup id = some it) :
    Move s (.timeout id)
      { s.releaseLane it.lane with
        pq := s.pq.push (requeue it)
        running := s.running.erase id
        terminated := s.terminated ++ [it.pid] }
| timeoutUnknown
    (id : ByteString)
    (hLookup : s.running.lookup id = none) :
    Move s (.timeout id) s
| stop :
    Move s .stop { s with stop := true }

/- Every step is one of the moves. -/
theorem step_move
    (s : Scheduler)
    (event : Event) :
    Move s event (s.step event) := by
  cases event with
  | push pj => exact .push pj
  | stop => exact .stop
  | exit id exitCode now =>
      simp only [step]
      cases hLookup : s.running.lookup id with
      | none =>
          rw [handleExit_of_not_running hLookup]
          exact .exitUnknown id exitCode now hLookup
      | some it =>
          rw [handleExit_of_lookup hLookup]
          exact .exit id it exitCode now hLookup
  | timeout id =>
      simp only [step]
      cases hLookup : s.running.lookup id with
      | none =>
          rw [handleTimeout_of_not_running hLookup]
          exact .timeoutUnknown id hLookup
      | some it =>
          rw [handleTimeout_of_lookup hLookup]
          exact .timeout id it hLookup
  | tick pid now =>
      simp only [step]
      cases hAdmitted : s.admitted with
      | none =>
          rw [runLoop_of_not_admitted hAdmitted]
          exact .idle pid now hAdmitted
      | some pj =>
          rcases runLoop_of_admitted hAdmitted pid now with
            ⟨rest, hQueue, hRun⟩
          rw [hRun]
          exact .start pj rest pid now hAdmitted hQueue

end Scheduler

end Aps

end Inks

------------------------------------------------------------
-- The Pool of Lane Slots
------------------------------------------------------------

namespace Inks

namespace Aps

namespace Scheduler

/- The slots of the lanes and the jobs that own them. -/
def pool
    (s : Scheduler) : Pool ByteString RunningJob Lane where
  capacity := fun lane => (s.capacity lane).toNat
  taken := fun lane => (s.counter lane).toNat
  owners := s.running

/-
  The invariant of every run: the lanes split the total, no
  lane is over its size, every running job has a slot, and
  no counter has wrapped around.
-/
structure LaneInv
    (s : Scheduler) : Prop where
  split :
    s.fastLane.toNat + s.slowLane.toNat =
      s.totalLane.toNat
  sound : s.pool.Sound RunningJob.lane
  notWrapped : s.wrapped = false

/- What a run-loop event means for the pool. -/
def poolStep
    (s : Scheduler) :
    Event → Pool ByteString RunningJob Lane
| .push _ => s.pool
| .tick pid now =>
    match s.admitted with
    | none => s.pool
    | some pj =>
        s.pool.acquire RunningJob.lane pj.spec.id
          (s.newEntry pj pid now)
| .exit id _ _ => s.pool.release RunningJob.lane id
| .timeout id => s.pool.release RunningJob.lane id
| .stop => s.pool

/-
  The two case analyses over lane and occupancy agree: a job
  that `schedulable` approves gets a lane with a free slot.
-/
theorem actualLane_room
    {s : Scheduler}
    {pj : PendingJob}
    (hInv : LaneInv s)
    (hSchedulable : s.schedulable pj = true) :
    (s.counter (s.actualLane pj)).toNat <
      (s.capacity (s.actualLane pj)).toNat := by
  have hFast : s.runningFast.toNat ≤ s.fastLane.toNat :=
    hInv.sound.within .fast
  have hSlow : s.runningSlow.toNat ≤ s.slowLane.toNat :=
    hInv.sound.within .slow
  have hSplit := hInv.split
  have hBound := s.totalLane.toNat_lt
  have hTotal :
      s.runningFast.toNat + s.runningSlow.toNat <
        s.totalLane.toNat := by
    unfold schedulable at hSchedulable
    split at hSchedulable
    · cases hSchedulable
    · rename_i hFree
      simp only [ge_iff_le, UInt64.le_iff_toNat_le,
        UInt64.toNat_add] at hFree
      omega
  unfold actualLane
  cases pj.lane with
  | fast =>
      by_cases hRoom : s.runningFast < s.fastLane
      · simpa [hRoom, counter, capacity]
          using UInt64.lt_iff_toNat_lt.mp hRoom
      · rw [UInt64.lt_iff_toNat_lt] at hRoom
        simp only [UInt64.lt_iff_toNat_lt, hRoom, if_false,
          counter, capacity]
        omega
  | slow =>
      by_cases hRoom : s.runningSlow < s.slowLane
      · simpa [hRoom, counter, capacity]
          using UInt64.lt_iff_toNat_lt.mp hRoom
      · rw [UInt64.lt_iff_toNat_lt] at hRoom
        simp only [UInt64.lt_iff_toNat_lt, hRoom, if_false,
          counter, capacity]
        omega

/- Scheduling a job acquires its slot. -/
theorem pool_schedule
    {s : Scheduler}
    {pj : PendingJob}
    (hRoom :
      (s.counter (s.actualLane pj)).toNat <
        (s.capacity (s.actualLane pj)).toNat)
    (pid now : Int) :
    (s.schedule pj pid now).pool =
      s.pool.acquire RunningJob.lane pj.spec.id
        (s.newEntry pj pid now) := by
  have hTaken :
      (fun lane =>
        ((s.schedule pj pid now).counter lane).toNat) =
        Function.update
          (fun lane => (s.counter lane).toNat)
          (s.actualLane pj)
          ((s.counter (s.actualLane pj)).toNat + 1) := by
    funext lane
    rw [counter_schedule]
    exact counter_takeLane s _ lane hRoom
  have hCapacity :
      (fun lane =>
        ((s.schedule pj pid now).capacity lane).toNat) =
        fun lane => (s.capacity lane).toNat := by
    funext lane
    cases lane <;> simp [capacity]
  simp only [pool, Pool.acquire, hTaken, hCapacity]
  simp [newEntry, start]

/- Releasing a lane and its entry releases the slot. -/
theorem pool_release
    {s t : Scheduler}
    {id : ByteString}
    {it : RunningJob}
    (hInv : LaneInv s)
    (hLookup : s.running.lookup id = some it)
    (hCounter :
      ∀ lane,
        t.counter lane =
          (s.releaseLane it.lane).counter lane)
    (hCapacity :
      ∀ lane, t.capacity lane = s.capacity lane)
    (hRunning : t.running = s.running.erase id) :
    t.pool = s.pool.release RunningJob.lane id := by
  have hPos : 0 < (s.counter it.lane).toNat :=
    hInv.sound.taken_pos hLookup
  have hTaken :
      (fun lane => (t.counter lane).toNat) =
        Function.update
          (fun lane => (s.counter lane).toNat) it.lane
          ((s.counter it.lane).toNat - 1) := by
    funext lane
    rw [hCounter]
    exact counter_releaseLane s _ lane hPos
  have hOwner : s.pool.owners.lookup id = some it :=
    hLookup
  rw [Pool.release_of_lookup hOwner]
  simp only [pool, hTaken, hCapacity, hRunning]

/- The scheduler steps as its pool of slots does. -/
theorem pool_step
    {s : Scheduler}
    (hInv : LaneInv s)
    (event : Event) :
    (s.step event).pool = s.poolStep event := by
  have hMove := step_move s event
  generalize s.step event = t at hMove ⊢
  cases hMove with
  | push pj => rfl
  | stop => rfl
  | idle pid now hNone =>
      simp only [poolStep, hNone]
  | start pj rest pid now hAdmitted hQueue =>
      have hRoom :=
        actualLane_room hInv
          (schedulable_of_admitted hAdmitted)
      simp only [poolStep, hAdmitted]
      exact pool_schedule
        (s := { s with pq := { q := rest } }) hRoom pid now
  | exit id it exitCode now hLookup =>
      apply pool_release hInv hLookup
      · intro lane
        cases lane <;> rfl
      · intro lane
        cases lane <;> simp [capacity]
      · rfl
  | exitUnknown id exitCode now hLookup =>
      have hNone : s.pool.owners.lookup id = none := hLookup
      exact (Pool.release_of_notMem hNone).symm
  | timeout id it hLookup =>
      apply pool_release hInv hLookup
      · intro lane
        cases lane <;> rfl
      · intro lane
        cases lane <;> simp [capacity]
      · rfl
  | timeoutUnknown id hLookup =>
      have hNone : s.pool.owners.lookup id = none := hLookup
      exact (Pool.release_of_notMem hNone).symm

end Scheduler

end Aps

end Inks

------------------------------------------------------------
-- The Lane Invariant
------------------------------------------------------------

namespace Inks

namespace Aps

namespace Scheduler

/- The constructor accepts exactly 4 lanes and more. -/
theorem new_eq_ok_iff
    {pq : PendingQ}
    {storage : FinishedStorage}
    {lane : UInt64}
    {s : Scheduler} :
    new pq storage lane = .ok s ↔
      ¬ lane < 4 ∧
        s =
          { pq := pq
            storage := storage
            totalLane := lane
            fastLane := lane / 4
            slowLane := lane - lane / 4 } := by
  unfold new
  split <;> simp_all [eq_comm]

theorem LaneInv.new
    {pq : PendingQ}
    {storage : FinishedStorage}
    {lane : UInt64}
    {s : Scheduler}
    (hNew : new pq storage lane = .ok s) :
    LaneInv s := by
  rcases new_eq_ok_iff.mp hNew with ⟨_, rfl⟩
  constructor
  · have hBound := lane.toNat_lt
    have hFour : (4 : UInt64).toNat = 4 := rfl
    simp only [UInt64.toNat_sub, UInt64.toNat_div, hFour]
    omega
  · constructor
    · intro l
      cases l <;> simp [pool, counter]
    · intro l
      simp [pool, Pool.owned]
  · rfl

/- The total and the sizes of the lanes never change. -/
theorem step_lanes
    (s : Scheduler)
    (event : Event) :
    (s.step event).totalLane = s.totalLane ∧
      (s.step event).fastLane = s.fastLane ∧
      (s.step event).slowLane = s.slowLane := by
  have hMove := step_move s event
  generalize s.step event = t at hMove ⊢
  cases hMove <;> simp

theorem wrapped_step
    {s : Scheduler}
    (hInv : LaneInv s)
    (event : Event) :
    (s.step event).wrapped = s.wrapped := by
  have hMove := step_move s event
  generalize s.step event = t at hMove ⊢
  cases hMove with
  | push pj => rfl
  | stop => rfl
  | idle pid now hNone => rfl
  | start pj rest pid now hAdmitted hQueue =>
      have hRoom :=
        actualLane_room hInv
          (schedulable_of_admitted hAdmitted)
      exact wrapped_takeLane
        { s with pq := { q := rest } } _ hRoom
  | exit id it exitCode now hLookup =>
      exact wrapped_releaseLane s it.lane
        (hInv.sound.taken_pos hLookup)
  | exitUnknown id exitCode now hLookup => rfl
  | timeout id it hLookup =>
      exact wrapped_releaseLane s it.lane
        (hInv.sound.taken_pos hLookup)
  | timeoutUnknown id hLookup => rfl

/- Every event keeps the lanes within their sizes. -/
theorem LaneInv.step
    {s : Scheduler}
    (hInv : LaneInv s)
    (event : Event) :
    LaneInv (s.step event) := by
  have hLanes := step_lanes s event
  constructor
  · rw [hLanes.1, hLanes.2.1, hLanes.2.2]
    exact hInv.split
  · rw [pool_step hInv event]
    cases event with
    | push pj => exact hInv.sound
    | stop => exact hInv.sound
    | exit id exitCode now => exact hInv.sound.release id
    | timeout id => exact hInv.sound.release id
    | tick pid now =>
        unfold poolStep
        cases hAdmitted : s.admitted with
        | none => exact hInv.sound
        | some pj =>
            apply hInv.sound.acquire
            exact actualLane_room hInv
              (schedulable_of_admitted hAdmitted)
  · rw [wrapped_step hInv event]
    exact hInv.notWrapped

end Scheduler

end Aps

end Inks
