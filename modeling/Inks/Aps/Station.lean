import Inks.Aps.Reservation
import Inks.Library.Simulation
import Inks.Library.Station

/-
  What the scheduler is for, lanes and processes aside: a
  station with one line and a server for every slot. Which
  lane a job asks for only decides which slot it gets.

  Key definitions include:
    * `Aps.Scheduler.busy`
    * `Aps.Scheduler.station`
    * `Aps.Scheduler.stationEvents`
    * `Aps.Scheduler.departures`

  Key theorems include:
    * `Aps.Scheduler.simulates_station`
    * `Aps.Scheduler.refines_station`
    * `Aps.Scheduler.waits_for_departures`
-/

------------------------------------------------------------
-- The Station
------------------------------------------------------------

namespace Inks

namespace Aps

namespace Scheduler

/- The slots that are taken, of both lanes. -/
def busy
    (s : Scheduler) : Nat :=
  s.runningFast.toNat + s.runningSlow.toNat

def station
    (s : Scheduler) : Station PendingJob where
  servers := s.totalLane.toNat
  busy := s.busy
  waiting := s.pq.q
  served := s.starts.map Start.job

/- What an event of the scheduler is for the station. -/
def stationEvents
    (s : Scheduler) : Event → List (Station.Event PendingJob)
| .push pj => [.arrive pj]
| .tick _ _ => if s.stop then [] else [.serve]
| .exit id _ _ =>
    match s.running.lookup id with
    | none => []
    | some _ => [.leave]
| .timeout id =>
    match s.running.lookup id with
    | none => []
    | some it => [.leave, .arrive (requeue it)]
| .stop => []

/- A notification that takes a running job out. -/
def departs
    (s : Scheduler) : Event → Bool
| .exit id _ _ => (s.running.lookup id).isSome
| .timeout id => (s.running.lookup id).isSome
| _ => false

def departures : Scheduler → List Event → Nat
| _, [] => 0
| s, event :: events =>
    (if s.departs event then 1 else 0) +
      departures (s.step event) events

theorem leaves_trace
    (s : Scheduler)
    (events : List Event) :
    Station.leaves
        (Transition.trace step stationEvents s events) =
      departures s events := by
  induction events generalizing s with
  | nil => rfl
  | cons event events ih =>
      rw [Transition.trace, Station.leaves_append, ih,
        departures]
      congr 1
      cases event with
      | push pj => rfl
      | stop => rfl
      | tick pid now =>
          simp only [stationEvents, departs]
          split
          · rfl
          · rfl
      | exit id exitCode now =>
          rcases (s.running.lookup id).eq_none_or_eq_some
            with hNone | ⟨it, hSome⟩
          · simp [stationEvents, departs, hNone,
              Station.leaves]
          · simp [stationEvents, departs, hSome,
              Station.leaves]
      | timeout id =>
          rcases (s.running.lookup id).eq_none_or_eq_some
            with hNone | ⟨it, hSome⟩
          · simp [stationEvents, departs, hNone,
              Station.leaves]
          · simp [stationEvents, departs, hSome,
              Station.leaves]

end Scheduler

end Aps

end Inks

------------------------------------------------------------
-- Single Steps
------------------------------------------------------------

namespace Inks

namespace Aps

namespace Scheduler

/- A head may start exactly when some slot is free. -/
theorem schedulable_iff_busy
    {s : Scheduler}
    (hInv : LaneInv s)
    (pj : PendingJob) :
    s.schedulable pj = true ↔
      s.busy < s.totalLane.toNat := by
  have hFast : s.runningFast.toNat ≤ s.fastLane.toNat :=
    hInv.sound.within .fast
  have hSlow : s.runningSlow.toNat ≤ s.slowLane.toNat :=
    hInv.sound.within .slow
  have hSplit := hInv.split
  have hBound := s.totalLane.toNat_lt
  rw [schedulable_iff, UInt64.lt_iff_toNat_lt,
    UInt64.toNat_add, Nat.mod_eq_of_lt (by omega), busy]

theorem busy_eq
    (s : Scheduler) :
    s.busy =
      (s.counter .fast).toNat + (s.counter .slow).toNat :=
  rfl

theorem busy_takeLane
    {s : Scheduler}
    {lane : Lane}
    (hRoom :
      (s.counter lane).toNat < (s.capacity lane).toNat) :
    (s.takeLane lane).busy = s.busy + 1 := by
  have hFast := counter_takeLane s lane .fast hRoom
  have hSlow := counter_takeLane s lane .slow hRoom
  rw [busy_eq, busy_eq, hFast, hSlow]
  cases lane with
  | fast =>
      simp
      omega
  | slow =>
      simp
      omega

theorem busy_schedule
    (s : Scheduler)
    (pj : PendingJob)
    (pid now : Int) :
    (s.schedule pj pid now).busy =
      (s.takeLane (s.actualLane pj)).busy := by
  rw [busy_eq, busy_eq, counter_schedule, counter_schedule]

theorem busy_releaseLane
    {s : Scheduler}
    {lane : Lane}
    (hTaken : 0 < (s.counter lane).toNat) :
    (s.releaseLane lane).busy = s.busy - 1 := by
  have hFast := counter_releaseLane s lane .fast hTaken
  have hSlow := counter_releaseLane s lane .slow hTaken
  rw [busy_eq, busy_eq, hFast, hSlow]
  cases lane with
  | fast =>
      simp
      omega
  | slow =>
      simp
      omega

/- An entry has a slot, so some slot is taken. -/
theorem busy_pos_of_lookup
    {s : Scheduler}
    {id : ByteString}
    {it : RunningJob}
    (hInv : LaneInv s)
    (hLookup : s.running.lookup id = some it) :
    0 < s.busy := by
  have hTaken : 0 < (s.counter it.lane).toNat :=
    hInv.sound.taken_pos hLookup
  rw [busy_eq]
  cases hLane : it.lane with
  | fast =>
      rw [hLane] at hTaken
      omega
  | slow =>
      rw [hLane] at hTaken
      omega

theorem busy_le_totalLane
    {s : Scheduler}
    (hInv : LaneInv s) :
    s.busy ≤ s.totalLane.toNat := by
  have hFast : s.runningFast.toNat ≤ s.fastLane.toNat :=
    hInv.sound.within .fast
  have hSlow : s.runningSlow.toNat ≤ s.slowLane.toNat :=
    hInv.sound.within .slow
  have hSplit := hInv.split
  unfold busy
  omega

/- Nothing is admitted exactly when the line is blocked. -/
theorem blocked_of_not_admitted
    {s : Scheduler}
    (hInv : LaneInv s)
    (hStop : s.stop = false)
    (hNothing : s.admitted = none) :
    s.station.Blocked := by
  cases hQueue : s.pq.q with
  | nil => exact Or.inl hQueue
  | cons pj rest =>
      right
      by_contra hFree
      have hGo : s.schedulable pj = true :=
        (schedulable_iff_busy hInv pj).mpr (by
          simpa [station] using hFree)
      simp [admitted, hStop, hQueue, hGo] at hNothing

theorem stop_of_admitted
    {s : Scheduler}
    {pj : PendingJob}
    (hAdmitted : s.admitted = some pj) :
    s.stop = false := by
  unfold admitted at hAdmitted
  split at hAdmitted
  · cases hAdmitted
  · next hGoing => simpa using hGoing

theorem station_eq
    {s : Scheduler}
    {st : Station PendingJob}
    (hServers : s.totalLane.toNat = st.servers)
    (hBusy : s.busy = st.busy)
    (hWaiting : s.pq.q = st.waiting)
    (hServed : s.starts.map Start.job = st.served) :
    s.station = st := by
  unfold station
  rw [hServers, hBusy, hWaiting, hServed]

/-
  The scheduler steps as its station does. The lanes decide
  nothing: a slot that is free is free for every job.
-/
theorem station_step
    {s : Scheduler}
    (hInv : LaneInv s)
    (event : Event) :
    (s.step event).station =
      s.station.run (s.stationEvents event) := by
  have hMove := step_move s event
  generalize s.step event = t at hMove ⊢
  cases hMove with
  | push pj => rfl
  | stop => rfl
  | idle pid now hNone =>
      by_cases hStop : s.stop = true
      · simp [stationEvents, hStop]
      · have hGoing : s.stop = false := by
          simpa using hStop
        have hBlocked :=
          blocked_of_not_admitted hInv hGoing hNone
        simp only [stationEvents, hGoing]
        exact (Station.step_serve_of_blocked hBlocked).symm
  | start pj rest pid now hAdmitted hQueue =>
      have hGo := schedulable_of_admitted hAdmitted
      have hGoing := stop_of_admitted hAdmitted
      have hFree : s.station.busy < s.station.servers :=
        (schedulable_iff_busy hInv pj).mp hGo
      have hServed :
          s.station.step .serve =
            { s.station with
              busy := s.station.busy + 1
              waiting := rest
              served := s.station.served ++ [pj] } :=
        Station.step_serve_of_free hQueue hFree
      have hRoom := actualLane_room hInv hGo
      have hBusy :
          (schedule { s with pq := { q := rest } } pj pid
            now).busy = s.busy + 1 := by
        rw [busy_schedule]
        exact busy_takeLane
          (s := { s with pq := { q := rest } }) hRoom
      have hEvents :
          s.stationEvents (.tick pid now) = [.serve] := by
        simp [stationEvents, hGoing]
      rw [hEvents]
      refine Eq.trans ?_ hServed.symm
      apply station_eq _ hBusy
      · simp
      · simp [station]
      · simp [station]
  | exit id it exitCode now hLookup =>
      have hBusy := busy_releaseLane
        (hInv.sound.taken_pos hLookup)
      simp only [stationEvents, hLookup]
      apply station_eq _ hBusy
      · simp [Transition.run, Station.step, station]
      · simp [Transition.run, Station.step, station]
      · simp [Transition.run, Station.step, station]
  | exitUnknown id exitCode now hLookup =>
      simp [stationEvents, hLookup]
  | timeout id it hLookup =>
      have hBusy := busy_releaseLane
        (hInv.sound.taken_pos hLookup)
      simp only [stationEvents, hLookup]
      apply station_eq _ hBusy
      · simp [Transition.run, Station.step, station]
      · simp [Transition.run, Station.step, station]
      · simp [Transition.run, Station.step, station]
  | timeoutUnknown id hLookup =>
      simp [stationEvents, hLookup]

/- A server only gets free when it was taken. -/
theorem legal_stationEvents
    {s : Scheduler}
    (hInv : LaneInv s)
    (event : Event) :
    Transition.Along Station.step Station.Legal s.station
      (s.stationEvents event) := by
  cases event with
  | push pj =>
      simp [stationEvents, Transition.along_cons_iff,
        Station.Legal]
  | stop => simp [stationEvents]
  | tick pid now =>
      simp only [stationEvents]
      split
      · simp
      · simp [Transition.along_cons_iff, Station.Legal]
  | exit id exitCode now =>
      simp only [stationEvents]
      cases hLookup : s.running.lookup id with
      | none => simp
      | some it =>
          have hBusy := busy_pos_of_lookup hInv hLookup
          simpa [Transition.along_cons_iff, Station.Legal,
            station] using hBusy
  | timeout id =>
      simp only [stationEvents]
      cases hLookup : s.running.lookup id with
      | none => simp
      | some it =>
          have hBusy := busy_pos_of_lookup hInv hLookup
          simpa [Transition.along_cons_iff, Station.Legal,
            station] using hBusy

end Scheduler

end Aps

end Inks

------------------------------------------------------------
-- Runs
------------------------------------------------------------

namespace Inks

namespace Aps

namespace Scheduler

/- Within its lane sizes a scheduler is like its station. -/
def LikeStation
    (s : Scheduler)
    (st : Station PendingJob) : Prop :=
  LaneInv s ∧ s.station = st

theorem simulates_station :
    Transition.Simulates step Station.step stationEvents
      LikeStation := by
  rintro s st event ⟨hInv, rfl⟩
  exact ⟨hInv.step event, station_step hInv event⟩

theorem station_run
    {s : Scheduler}
    (hInv : LaneInv s)
    (events : List Event) :
    LaneInv (s.run events) ∧
      (s.run events).station =
        s.station.run
          (Transition.trace step stationEvents s events) :=
  simulates_station.run ⟨hInv, rfl⟩ events

theorem legal_trace
    {s : Scheduler}
    (hInv : LaneInv s)
    (events : List Event) :
    Transition.Along Station.step Station.Legal s.station
      (Transition.trace step stationEvents s events) := by
  refine simulates_station.along ?_ ⟨hInv, rfl⟩ events
  rintro t st event ⟨hThere, rfl⟩
  exact legal_stationEvents hThere event

/-
  The scheduler implements a station with one line and as
  many servers as it has lanes: in every run it is, state
  for state, the station that starts with the queue and no
  busy server, and in that run a server gets free only when
  it was busy.
-/
theorem refines_station
    {pq : PendingQ}
    {storage : FinishedStorage}
    {lane : UInt64}
    {s : Scheduler}
    (hNew : new pq storage lane = .ok s)
    (events : List Event) :
    let idle : Station PendingJob :=
      { servers := lane.toNat
        busy := 0
        waiting := pq.q
        served := [] }
    let matching :=
      Transition.trace step stationEvents s events
    (s.run events).station = idle.run matching ∧
      Transition.Along Station.step Station.Legal idle
        matching ∧
      (s.run events).busy ≤ lane.toNat := by
  have hInv := LaneInv.new hNew
  have hIdle :
      s.station =
        { servers := lane.toNat
          busy := 0
          waiting := pq.q
          served := [] } := by
    rcases new_eq_ok_iff.mp hNew with ⟨_, rfl⟩
    rfl
  have hRun := station_run hInv events
  have hLegal := legal_trace hInv events
  have hBusy := busy_le_totalLane hRun.1
  have hServers :
      (s.run events).station.servers = lane.toNat := by
    rw [hRun.2, Station.run_servers, hIdle]
  rw [hIdle] at hRun hLegal
  refine ⟨hRun.2, hLegal, ?_⟩
  rw [← hServers]
  exact hBusy

theorem refines_station_small :
    (small.run [.push (smallJob 1 .slow), .tick 7 0,
        .timeout [1]]).station =
      Station.run
        { servers := 4
          busy := 0
          waiting := []
          served := [] }
        (Transition.trace step stationEvents small
          [.push (smallJob 1 .slow), .tick 7 0,
            .timeout [1]]) :=
  (refines_station new_small _).1

/-
  Bounded waiting, for fast and slow jobs alike. When in the
  end the scheduler is not stopped and can start nothing,
  the job that was at place `k` of the queue has been
  started, as the `k`-th start from then on, unless the
  slots that were free and the running jobs that have left
  since are `k` at most together.
-/
theorem waits_for_departures
    {pq : PendingQ}
    {storage : FinishedStorage}
    {lane : UInt64}
    {s : Scheduler}
    (hNew : new pq storage lane = .ok s)
    (past future : List Event)
    {k : Nat}
    {pj : PendingJob}
    (hPlace : (s.run past).pq.q[k]? = some pj)
    (hGoing :
      ((s.run past).run future).stop = false)
    (hNothing :
      ((s.run past).run future).admitted = none) :
    (((s.run past).run future).starts.map Start.job)[
        (s.run past).starts.length + k]? = some pj ∨
      departures (s.run past) future +
        (lane.toNat - (s.run past).busy) ≤ k := by
  have hPast := station_run (LaneInv.new hNew) past
  have hInv := hPast.1
  have hRun := station_run hInv future
  have hServers :
      (s.run past).station.servers = lane.toNat := by
    rw [hPast.2, Station.run_servers]
    rcases new_eq_ok_iff.mp hNew with ⟨_, rfl⟩
    rfl
  have hBlocked :
      ((s.run past).station.run
        (Transition.trace step stationEvents (s.run past)
          future)).Blocked := by
    rw [← hRun.2]
    exact blocked_of_not_admitted hRun.1 hGoing hNothing
  have hWait :=
    Station.served_or_few_leaves
      (legal_trace hInv future) (busy_le_totalLane hInv)
      hBlocked hPlace
  rw [leaves_trace, ← hRun.2] at hWait
  rw [← hServers]
  simpa [station] using hWait

/- The second of two jobs, with slots for both. -/
theorem waits_for_departures_small :
    (((small.run [.push (smallJob 1 .slow),
            .push (smallJob 2 .slow)]).run
          [.tick 7 0, .tick 8 0]).starts.map Start.job)[
        (small.run [.push (smallJob 1 .slow),
          .push (smallJob 2 .slow)]).starts.length + 1]? =
        some (smallJob 2 .slow) ∨
      departures
          (small.run [.push (smallJob 1 .slow),
            .push (smallJob 2 .slow)])
          [.tick 7 0, .tick 8 0] +
        ((4 : UInt64).toNat -
          (small.run [.push (smallJob 1 .slow),
            .push (smallJob 2 .slow)]).busy) ≤ 1 :=
  waits_for_departures new_small _ _ rfl rfl rfl

end Scheduler

end Aps

end Inks
