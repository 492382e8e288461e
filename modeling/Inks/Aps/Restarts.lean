import Inks.Aps.Station

/-
  How often a job is started. A start beyond the one that
  was asked for needs a timeout, and a timeout needs a start
  in the fast lane: the first one of a fast job, or one for
  which a slow job borrows a fast slot. Nothing bounds how
  often a slow job may do that.

  Key definitions include:
    * `Aps.Scheduler.evictions`
    * `Aps.Scheduler.Borrowing`

  Key theorems include:
    * `Aps.Scheduler.starts_append_queue`
    * `Aps.Scheduler.evictions_le_starts`
    * `Aps.Scheduler.starts_bounded`
    * `Aps.Scheduler.borrower_restarts`
-/

------------------------------------------------------------
-- Evictions
------------------------------------------------------------

namespace Inks

namespace Aps

/- The jobs that producers push, in order. -/
def pushedJobs
    (events : List Event) : List PendingJob :=
  events.filterMap fun
    | .push pj => some pj
    | _ => none

theorem pushedJobs_append
    (past future : List Event) :
    pushedJobs (past ++ future) =
      pushedJobs past ++ pushedJobs future := by
  simp [pushedJobs]

namespace Scheduler

/- The entry that a timeout takes out, if there is one. -/
def evicted
    (s : Scheduler) : Event → List RunningJob
| .timeout id => (s.running.lookup id).toList
| _ => []

def evictions
    (s : Scheduler)
    (events : List Event) : List RunningJob :=
  Transition.trace step evicted s events

theorem evictions_concat
    (s : Scheduler)
    (past : List Event)
    (event : Event) :
    evictions s (past ++ [event]) =
      evictions s past ++ (s.run past).evicted event :=
  Transition.trace_concat s past event

/- Who arrives was pushed or has timed out. -/
theorem countP_stationEvents
    (p : PendingJob → Bool)
    (s : Scheduler)
    (event : Event) :
    (Station.arrivals (s.stationEvents event)).countP p =
      (pushedJobs [event]).countP p +
        ((s.evicted event).map requeue).countP p := by
  cases event with
  | push pj =>
      simp [stationEvents, Station.arrivals, pushedJobs,
        evicted]
  | stop => rfl
  | tick pid now =>
      simp only [stationEvents]
      split <;> rfl
  | exit id exitCode now =>
      simp only [stationEvents]
      split <;> rfl
  | timeout id =>
      cases hLookup : s.running.lookup id <;>
        simp [stationEvents, Station.arrivals, pushedJobs,
          evicted, hLookup]

theorem countP_arrivals
    (p : PendingJob → Bool)
    (s : Scheduler)
    (events : List Event) :
    (Station.arrivals
        (Transition.trace step stationEvents s
          events)).countP p =
      (pushedJobs events).countP p +
        ((evictions s events).map requeue).countP p := by
  induction events using List.reverseRecOn with
  | nil => rfl
  | append_singleton events event ih =>
      have hLast := countP_stationEvents p (s.run events) event
      simp only [Transition.trace_concat,
        Station.arrivals_append, pushedJobs_append,
        evictions_concat, List.map_append,
        List.countP_append]
      change
        _ + (Station.arrivals
          ((s.run events).stationEvents event)).countP p = _
      omega

/-
  The jobs that were started and those that wait are the
  ones that were there, were pushed or have timed out.
-/
theorem starts_append_queue
    {s : Scheduler}
    (hInv : LaneInv s)
    (p : PendingJob → Bool)
    (events : List Event) :
    ((s.run events).starts.map Start.job).countP p +
        (s.run events).pq.q.countP p =
      (s.starts.map Start.job).countP p + s.pq.q.countP p +
        (pushedJobs events).countP p +
        ((evictions s events).map requeue).countP p := by
  have hRun := (station_run hInv events).2
  have hLine :=
    Station.served_append_waiting s.station
      (Transition.trace step stationEvents s events)
  rw [← hRun] at hLine
  have hCount := congrArg (List.countP p) hLine
  simp only [List.countP_append, countP_arrivals] at hCount
  change
    ((s.run events).starts.map Start.job).countP p +
        (s.run events).pq.q.countP p =
      (s.starts.map Start.job).countP p + s.pq.q.countP p +
        _ at hCount
  rw [hCount, Nat.add_assoc _ _ (List.countP p _)]

/- A start makes one entry, or none under an id in use. -/
theorem count_schedule_le
    (q : JobSpecification → Lane → Bool)
    (s : Scheduler)
    (pj : PendingJob)
    (pid now : Int) :
    (s.schedule pj pid now).running.count
          (fun rj => q rj.spec rj.lane) +
        s.starts.countP (fun st => q st.job.spec st.lane) ≤
      s.running.count (fun rj => q rj.spec rj.lane) +
        (s.schedule pj pid now).starts.countP
          (fun st => q st.job.spec st.lane) := by
  have hAdd :=
    s.running.count_emplace_le
      (k := pj.spec.id) (v := s.newEntry pj pid now)
      (fun rj : RunningJob => q rj.spec rj.lane)
  simp only [schedule_frame, List.countP_append,
    List.countP_singleton]
  cases hCounted : q pj.spec (s.actualLane pj) with
  | true =>
      simp only [newEntry, start, hCounted, if_true] at hAdd ⊢
      omega
  | false =>
      simp only [newEntry, start, hCounted, if_false,
        Bool.false_eq_true] at hAdd ⊢
      omega

/-
  An entry is taken out once, and each was made by a start
  of its own. A start under an id in use makes none.
-/
theorem evictions_le_starts
    (q : JobSpecification → Lane → Bool)
    {s : Scheduler}
    (hNone : s.running = ∅)
    (events : List Event) :
    (s.run events).running.count
          (fun rj => q rj.spec rj.lane) +
        (evictions s events).countP
          (fun rj => q rj.spec rj.lane) ≤
      (s.run events).starts.countP
        (fun st => q st.job.spec st.lane) := by
  induction events using List.reverseRecOn with
  | nil =>
      rw [show s.run [] = s from rfl, hNone]
      simp [evictions]
  | append_singleton events event ih =>
      rw [run_concat, evictions_concat, List.countP_append]
      generalize s.run events = t at ih ⊢
      have hMove := step_move t event
      generalize t.step event = u at hMove ⊢
      cases hMove with
      | push pj => exact ih
      | stop => exact ih
      | idle pid now hNothing => exact ih
      | exitUnknown id exitCode now hLookup => exact ih
      | timeoutUnknown id hLookup =>
          simp only [evicted, hLookup]
          exact ih
      | start pj rest pid now hAdmitted hQueue =>
          have hAdd :=
            count_schedule_le q
              { t with pq := { q := rest } } pj pid now
          simp only [evicted, List.countP_nil]
          change
            _ + t.starts.countP
                (fun st => q st.job.spec st.lane) ≤
              t.running.count (fun rj => q rj.spec rj.lane) +
                _ at hAdd
          omega
      | exit id it exitCode now hLookup =>
          have hErase :=
            Table.count_erase
              (fun rj : RunningJob => q rj.spec rj.lane)
              hLookup
          simp only [evicted, List.countP_nil,
            releaseLane_frame]
          omega
      | timeout id it hLookup =>
          have hErase :=
            Table.count_erase
              (fun rj : RunningJob => q rj.spec rj.lane)
              hLookup
          simp only [evicted, hLookup, Option.toList_some,
            List.countP_singleton, releaseLane_frame]
          omega

end Scheduler

end Aps

end Inks

------------------------------------------------------------
-- Starts
------------------------------------------------------------

namespace Inks

namespace Aps

theorem countP_le_add
    {α : Type}
    {p q r : α → Bool}
    (hEither : ∀ a, p a = true → q a = true ∨ r a = true)
    (l : List α) :
    l.countP p ≤ l.countP q + l.countP r := by
  induction l with
  | nil => rfl
  | cons a l ih =>
      simp only [List.countP_cons]
      cases hLeft : p a with
      | false =>
          simp only [Bool.false_eq_true, if_false]
          omega
      | true =>
          rcases hEither a hLeft with hFirst | hSecond
          · simp only [hFirst, if_true]
            omega
          · simp only [hSecond, if_true]
            omega

/- A job that asks for a lane, under an id. -/
def PendingJob.asks
    (id : ByteString)
    (lane : Lane)
    (pj : PendingJob) : Bool :=
  pj.spec.id = id ∧ pj.lane = lane

/- A slow job that got a slot of the fast lane. -/
def Start.borrowed
    (id : ByteString)
    (st : Start) : Bool :=
  st.job.spec.id = id ∧ st.job.lane = .slow ∧
    st.lane = .fast

/- An entry under an id, in a lane. -/
def RunningJob.ran
    (id : ByteString)
    (lane : Lane)
    (rj : RunningJob) : Bool :=
  rj.spec.id = id ∧ rj.lane = lane

theorem RunningJob.ran_of_requeue
    {id : ByteString}
    {rj : RunningJob}
    (hId : decide ((requeue rj).spec.id = id) = true) :
    rj.ran id .fast = true ∨ rj.ran id .slow = true := by
  have hSpec : rj.spec.id = id := of_decide_eq_true hId
  cases hLane : rj.lane <;> simp [ran, hSpec, hLane]

theorem Start.asks_or_borrowed
    {id : ByteString}
    {st : Start}
    (hStart :
      decide (st.job.spec.id = id ∧ st.lane = .fast) =
        true) :
    st.job.asks id .fast = true ∨ st.borrowed id = true := by
  rcases of_decide_eq_true hStart with ⟨hSpec, hLane⟩
  cases hJob : st.job.lane <;>
    simp [PendingJob.asks, borrowed, hSpec, hLane, hJob]

namespace Scheduler

/-
  A job is started at most as often as it was asked for, and
  once more for each request that was a fast one, for each
  time it borrowed a fast slot, and for each timeout that
  took it out of the slow lane.
-/
theorem starts_bounded
    {pq : PendingQ}
    {storage : FinishedStorage}
    {lane : UInt64}
    {s : Scheduler}
    (hNew : new pq storage lane = .ok s)
    (events : List Event)
    (id : ByteString) :
    let requests := pq.q ++ pushedJobs events
    (s.run events).starts.countP (·.job.spec.id = id) +
        (s.run events).pq.q.countP (·.spec.id = id) ≤
      requests.countP (·.spec.id = id) +
        requests.countP (PendingJob.asks id .fast) +
        (s.run events).starts.countP (Start.borrowed id) +
        (evictions s events).countP
          (RunningJob.ran id .slow) := by
  intro requests
  have hInv := LaneInv.new hNew
  rcases new_eq_ok_iff.mp hNew with ⟨_, hState⟩
  have hStarts : s.starts = [] := by rw [hState]
  have hQueue : s.pq = pq := by rw [hState]
  have hNone : s.running = ∅ := by rw [hState]
  have hAll :=
    starts_append_queue hInv (·.spec.id = id) events
  have hFast :=
    starts_append_queue hInv (PendingJob.asks id .fast)
      events
  have hEntries :
      (s.run events).running.count (RunningJob.ran id .fast) +
          (evictions s events).countP
            (RunningJob.ran id .fast) ≤
        (s.run events).starts.countP
          (fun st =>
            st.job.spec.id = id ∧ st.lane = .fast) :=
    evictions_le_starts
      (fun spec lane => spec.id = id ∧ lane = .fast) hNone
      events
  rw [hStarts, hQueue] at hAll hFast
  have hSlowly :
      ((evictions s events).map requeue).countP
        (PendingJob.asks id .fast) = 0 := by
    simp [requeue, PendingJob.asks]
  have hLanes :
      (evictions s events).countP
          (fun rj => (requeue rj).spec.id = id) ≤
        (evictions s events).countP
            (RunningJob.ran id .fast) +
          (evictions s events).countP
            (RunningJob.ran id .slow) :=
    countP_le_add (fun _ => RunningJob.ran_of_requeue) _
  have hReasons :
      (s.run events).starts.countP
          (fun st =>
            st.job.spec.id = id ∧ st.lane = .fast) ≤
        (s.run events).starts.countP
            (fun st => st.job.asks id .fast) +
          (s.run events).starts.countP
            (Start.borrowed id) :=
    countP_le_add (fun _ => Start.asks_or_borrowed) _
  simp only [List.countP_map, List.map_nil, List.countP_nil]
    at hAll hFast hSlowly
  simp only [requests, List.countP_append]
  simp only [Function.comp_def] at hAll hFast hSlowly
  omega

/- A fast job that times out once: it has its two starts. -/
theorem starts_bounded_small :
    let events : List Event :=
      [.push (smallJob 1 .fast), .tick 7 0, .timeout [1],
        .tick 8 1]
    let requests := [] ++ pushedJobs events
    (small.run events).starts.countP
          (·.job.spec.id = [1]) +
        (small.run events).pq.q.countP (·.spec.id = [1]) ≤
      requests.countP (·.spec.id = [1]) +
        requests.countP (PendingJob.asks [1] .fast) +
        (small.run events).starts.countP
          (Start.borrowed [1]) +
        (evictions small events).countP
          (RunningJob.ran [1] .slow) :=
  starts_bounded new_small _ [1]

end Scheduler

end Aps

end Inks

------------------------------------------------------------
-- Restarts without Bound
------------------------------------------------------------

namespace Inks

namespace Aps

namespace Scheduler

/-
  A slow job is all that waits, none with its id is running,
  the slow lane is full, and the fast lane has a slot that
  the job can borrow.
-/
structure Borrowing
    (s : Scheduler)
    (pj : PendingJob) : Prop where
  going : s.stop = false
  waits : s.pq.q = [pj]
  lane : pj.lane = .slow
  full : s.slowLane ≤ s.runningSlow
  room : s.runningFast < s.fastLane
  idle : pj.spec.id ∉ s.running

variable {s : Scheduler} {pj : PendingJob}

/- The next tick starts the job in the fast lane. -/
theorem Borrowing.starts
    (hInv : LaneInv s)
    (hBorrowing : Borrowing s pj)
    (pid now : Int) :
    s.step (.tick pid now) =
      schedule { s with pq := { q := [] } } pj pid now := by
  have hSlow : s.runningSlow.toNat ≤ s.slowLane.toNat :=
    hInv.sound.within .slow
  have hFast := UInt64.lt_iff_toNat_lt.mp hBorrowing.room
  have hFree : s.busy < s.totalLane.toNat := by
    have hSplit := hInv.split
    unfold busy
    omega
  have hGo : s.schedulable pj = true :=
    (schedulable_iff_busy hInv pj).mpr hFree
  have hAdmitted : s.admitted = some pj := by
    simp [admitted, hBorrowing.going, hBorrowing.waits, hGo]
  rcases runLoop_of_admitted hAdmitted pid now with
    ⟨rest, hQueue, hRun⟩
  rw [hBorrowing.waits] at hQueue
  cases hQueue
  exact hRun

theorem Borrowing.lane_eq
    (hBorrowing : Borrowing s pj) :
    s.actualLane pj = .fast := by
  have hFull : ¬ s.runningSlow < s.slowLane :=
    UInt64.not_lt.mpr hBorrowing.full
  simp [actualLane, hBorrowing.lane, hFull]

/-
  When the job times out, everything is as it was before it
  was started.
-/
theorem Borrowing.turn
    (hInv : LaneInv s)
    (hBorrowing : Borrowing s pj)
    (pid now : Int) :
    s.run [.tick pid now, .timeout pj.spec.id] =
      { s with
        starts :=
          s.starts ++
            [{ job := pj, lane := .fast, pid := pid }]
        terminated := s.terminated ++ [pid] } := by
  change
    (s.step (.tick pid now)).handleTimeout pj.spec.id = _
  rw [hBorrowing.starts hInv]
  have hPopped :
      Scheduler.actualLane { s with pq := { q := [] } } pj =
        .fast :=
    hBorrowing.lane_eq
  have hEntry (rj : RunningJob) :
      (s.running.emplace pj.spec.id rj).lookup pj.spec.id =
          some rj ∧
        (s.running.emplace pj.spec.id rj).erase pj.spec.id =
          s.running :=
    ⟨Table.lookup_emplace_of_notMem hBorrowing.idle,
      Table.erase_emplace_of_notMem hBorrowing.idle⟩
  have hBack (rj : RunningJob) (hSpec : rj.spec = pj.spec) :
      requeue rj = pj := by
    rcases pj with ⟨spec, lane⟩
    have hSlow : lane = .slow := hBorrowing.lane
    rw [requeue, hSpec, hSlow]
  have hNe : s.runningFast + 1 ≠ 0 := by
    intro hZero
    have hNat := congrArg UInt64.toNat hZero
    have hRoom := UInt64.lt_iff_toNat_lt.mp hBorrowing.room
    have hBound := s.fastLane.toNat_lt
    simp only [UInt64.toNat_add, UInt64.toNat_ofNat] at hNat
    omega
  have hQueue : s.pq = { q := [pj] } := by
    rw [← hBorrowing.waits]
  have hLookup :
      (schedule { s with pq := { q := [] } } pj pid
          now).running.lookup pj.spec.id =
        some
          (newEntry { s with pq := { q := [] } } pj pid
            now) := by
    rw [(schedule_frame _ pj pid now).2.2.2.2.2.2.2.1]
    exact (hEntry _).1
  rw [handleTimeout_of_lookup hLookup, hBack _ rfl, newEntry]
  simp only [schedule, hPopped, takeLane, releaseLane, start,
    hEntry, PendingQ.push]
  simp [hNe, hQueue]

/- A tick and a timeout, over and over. -/
def borrowTurns
    (id : ByteString)
    (turns : List (Int × Int)) : List Event :=
  turns.flatMap fun turn =>
    [.tick turn.1 turn.2, .timeout id]

theorem Borrowing.turns
    (hInv : LaneInv s)
    (hBorrowing : Borrowing s pj)
    (turns : List (Int × Int)) :
    s.run (borrowTurns pj.spec.id turns) =
      { s with
        starts :=
          s.starts ++
            turns.map fun turn =>
              { job := pj, lane := .fast, pid := turn.1 }
        terminated := s.terminated ++ turns.map Prod.fst } :=
    by
  induction turns generalizing s with
  | nil => simp [borrowTurns, run]
  | cons turn turns ih =>
      have hTurn := hBorrowing.turn hInv turn.1 turn.2
      have hSplit :
          s.run (borrowTurns pj.spec.id (turn :: turns)) =
            (s.run [.tick turn.1 turn.2,
              .timeout pj.spec.id]).run
              (borrowTurns pj.spec.id turns) :=
        Transition.run_append step s _ _
      have hNext :=
        (station_run hInv [.tick turn.1 turn.2,
          .timeout pj.spec.id]).1
      rw [hTurn] at hNext
      rw [hSplit, hTurn, ih hNext]
      · simp
      · exact
          { going := hBorrowing.going
            waits := hBorrowing.waits
            lane := hBorrowing.lane
            full := hBorrowing.full
            room := hBorrowing.room
            idle := hBorrowing.idle }

/-
  A job that borrows can be started and killed any number of
  times, and nothing else changes meanwhile: no other job
  starts or ends, and no result is stored.
-/
theorem borrower_restarts
    {pq : PendingQ}
    {storage : FinishedStorage}
    {lane : UInt64}
    {new : Scheduler}
    (hNew : Scheduler.new pq storage lane = .ok new)
    {past : List Event}
    {pj : PendingJob}
    (hBorrowing : Borrowing (new.run past) pj)
    (turns : List (Int × Int)) :
    let s := new.run past
    s.run (borrowTurns pj.spec.id turns) =
      { s with
        starts :=
          s.starts ++
            turns.map fun turn =>
              { job := pj, lane := .fast, pid := turn.1 }
        terminated := s.terminated ++ turns.map Prod.fst } :=
  hBorrowing.turns (station_run (LaneInv.new hNew) past).1
    turns

/- Three slow jobs run, and a fourth one borrows twice. -/
theorem borrower_restarts_small :
    let s :=
      small.run
        [.push (smallJob 1 .slow), .push (smallJob 2 .slow),
          .push (smallJob 3 .slow), .push (smallJob 4 .slow),
          .tick 11 0, .tick 12 1, .tick 13 2]
    let turns : List (Int × Int) := [(14, 3), (15, 40)]
    s.run (borrowTurns (smallJob 4 .slow).spec.id turns) =
      { s with
        starts :=
          s.starts ++
            turns.map fun turn =>
              { job := smallJob 4 .slow
                lane := .fast
                pid := turn.1 }
        terminated := s.terminated ++ turns.map Prod.fst } :=
    by
  intro s turns
  have hBorrowing : Borrowing s (smallJob 4 .slow) :=
    { going := by decide +kernel
      waits := by decide +kernel
      lane := rfl
      full := by decide +kernel
      room := by decide +kernel
      idle := by decide +kernel }
  exact borrower_restarts new_small hBorrowing turns

end Scheduler

end Aps

end Inks
