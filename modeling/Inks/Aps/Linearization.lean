import Inks.Aps.Interleaving
import Inks.Aps.Station

/-
  The run loop step by step, seen as a run loop whose calls
  are single steps: each call takes effect when it takes its
  job out of the queue. A `stop_` that is set during a call
  takes effect after that call.

  Key definitions include:
    * `Aps.RunLoop.takesEffect`
    * `Aps.RunLoop.linearize`
    * `Aps.RunLoop.Follows`

  Key theorems include:
    * `Aps.Scheduler.schedulable_interruption`
    * `Aps.RunLoop.simulates_calls`
    * `Aps.RunLoop.calls_linearize`
-/

------------------------------------------------------------
-- Effects
------------------------------------------------------------

namespace Inks

namespace Aps

namespace RunLoop

/- The last step of a call, and the stop put off by it. -/
def returns
    (l : RunLoop)
    (pid : Int)
    (now : Int) : List Event :=
  if l.sched.stop then
    [.tick pid now, .stop]
  else
    [.tick pid now]

/- What a step does to a scheduler with atomic calls. -/
def takesEffect
    (l : RunLoop) : LoopEvent → List Event
| .next pid now =>
    match l.point with
    | .outside => []
    | .entered =>
        if !l.sched.pq.empty then [] else l.returns pid now
    | .nonempty =>
        match l.sched.pq.front with
        | none => l.returns pid now
        | some _ => []
    | .looked head =>
        if l.sched.schedulable head then
          []
        else
          l.returns pid now
    | .approved _ => l.returns pid now
| .interrupt .stop =>
    if l.point = .outside then [.stop] else []
| .interrupt i => [i.event]

/- The atomic run that explains a run of the run loop. -/
def linearize
    (l : RunLoop)
    (events : List LoopEvent) : List Event :=
  Transition.trace step takesEffect l events

end RunLoop

/- What the other threads do, the stops left out. -/
def Event.ofOthers : Event → Option Event
| .tick _ _ => none
| .stop => none
| event => some event

def LoopEvent.ofOthers : LoopEvent → Option Event
| .next _ _ => none
| .interrupt i => i.event.ofOthers

/- The calls of the run loop in an atomic run. -/
def Event.isTick : Event → Bool
| .tick _ _ => true
| _ => false

end Aps

end Inks

------------------------------------------------------------
-- Interruptions
------------------------------------------------------------

namespace Inks

namespace Aps

namespace Scheduler

/- Interruptions take no slot. -/
theorem busy_interruption
    {s : Scheduler}
    (hInv : LaneInv s)
    (i : Interruption) :
    (s.step i.event).busy ≤ s.busy ∧
      (s.step i.event).totalLane = s.totalLane := by
  refine ⟨?_, (step_lanes s i.event).1⟩
  cases i with
  | push pj => exact Nat.le_refl _
  | stop => exact Nat.le_refl _
  | exit id exitCode now =>
      have hStep :=
        station_step hInv (.exit id exitCode now)
      have hBusy := congrArg Station.busy hStep
      rcases (s.running.lookup id).eq_none_or_eq_some with
        hNone | ⟨it, hSome⟩
      · simp only [stationEvents, hNone] at hBusy
        exact Nat.le_of_eq hBusy
      · simp only [stationEvents, hSome] at hBusy
        exact (Nat.le_of_eq hBusy).trans (Nat.sub_le _ _)
  | timeout id =>
      have hStep := station_step hInv (.timeout id)
      have hBusy := congrArg Station.busy hStep
      rcases (s.running.lookup id).eq_none_or_eq_some with
        hNone | ⟨it, hSome⟩
      · simp only [stationEvents, hNone] at hBusy
        exact Nat.le_of_eq hBusy
      · simp only [stationEvents, hSome] at hBusy
        exact (Nat.le_of_eq hBusy).trans (Nat.sub_le _ _)

/-
  An approval stays right until the job is taken out: only
  the run loop takes slots.
-/
theorem schedulable_interruption
    {s : Scheduler}
    {head : PendingJob}
    (hInv : LaneInv s)
    (hGo : s.schedulable head = true)
    (i : Interruption) :
    (s.step i.event).schedulable head = true := by
  have hNext := hInv.step i.event
  rw [schedulable_iff_busy hInv] at hGo
  rw [schedulable_iff_busy hNext]
  have hBusy := busy_interruption hInv i
  rw [hBusy.2]
  omega

end Scheduler

end Aps

end Inks

------------------------------------------------------------
-- The Stop Flag
------------------------------------------------------------

namespace Inks

namespace Aps

namespace Scheduler

def setStop
    (s : Scheduler)
    (b : Bool) : Scheduler :=
  { s with stop := b }

@[simp] theorem setStop_frame
    (s : Scheduler)
    (b : Bool) :
    (s.setStop b).stop = b ∧
      (s.setStop b).pq = s.pq ∧
      (s.setStop b).running = s.running := by
  simp [setStop]

@[simp] theorem setStop_setStop
    (s : Scheduler)
    (b c : Bool) :
    (s.setStop b).setStop c = s.setStop c := rfl

theorem setStop_eq_self
    {s : Scheduler}
    {b : Bool}
    (hStop : s.stop = b) :
    s.setStop b = s := by
  subst hStop
  rfl

@[simp] theorem schedulable_setStop
    (s : Scheduler)
    (b : Bool)
    (pj : PendingJob) :
    (s.setStop b).schedulable pj = s.schedulable pj := rfl

theorem laneInv_setStop_iff
    (s : Scheduler)
    (b : Bool) :
    LaneInv (s.setStop b) ↔ LaneInv s := by
  constructor
  · intro hInv
    exact ⟨hInv.split, hInv.sound, hInv.notWrapped⟩
  · intro hInv
    exact ⟨hInv.split, hInv.sound, hInv.notWrapped⟩

/- Scheduling a job does not look at `stop_`. -/
theorem schedule_setStop
    (s : Scheduler)
    (pj : PendingJob)
    (pid now : Int)
    (b : Bool) :
    (s.setStop b).schedule pj pid now =
      (s.schedule pj pid now).setStop b := by
  have hLane :
      (s.setStop b).actualLane pj = s.actualLane pj := rfl
  unfold schedule
  rw [hLane]
  cases s.actualLane pj <;> rfl

/- Nor does any event but a tick. -/
theorem step_setStop
    (s : Scheduler)
    {i : Interruption}
    (hOther : i ≠ .stop)
    (b : Bool) :
    (s.setStop b).step i.event =
      (s.step i.event).setStop b := by
  cases i with
  | push pj => rfl
  | stop => exact absurd rfl hOther
  | exit id exitCode now =>
      simp only [Interruption.event, step]
      rcases (s.running.lookup id).eq_none_or_eq_some with
        hNone | ⟨it, hSome⟩
      · rw [handleExit_of_not_running hNone,
          handleExit_of_not_running (by simpa using hNone)]
      · rw [handleExit_of_lookup hSome,
          handleExit_of_lookup (by simpa using hSome)]
        cases it.lane <;> rfl
  | timeout id =>
      simp only [Interruption.event, step]
      rcases (s.running.lookup id).eq_none_or_eq_some with
        hNone | ⟨it, hSome⟩
      · rw [handleTimeout_of_not_running hNone,
          handleTimeout_of_not_running
            (by simpa using hNone)]
      · rw [handleTimeout_of_lookup hSome,
          handleTimeout_of_lookup (by simpa using hSome)]
        cases it.lane <;> rfl

end Scheduler

end Aps

end Inks

------------------------------------------------------------
-- Simulation
------------------------------------------------------------

namespace Inks

namespace Aps

namespace RunLoop

/-
  The scheduler as the atomic calls have left it: a stop
  that came during the current call has not come yet.
-/
def settled
    (l : RunLoop) : Scheduler :=
  if l.point = .outside then
    l.sched
  else
    l.sched.setStop false

/- What holds between any two steps of the run loop. -/
structure Ready
    (l : RunLoop) : Prop where
  sound : l.Sound
  lanes : Scheduler.LaneInv l.sched
  approved :
    ∀ head, l.point = .approved head →
      l.sched.schedulable head = true

def Follows
    (l : RunLoop)
    (s : Scheduler) : Prop :=
  l.Ready ∧ s = l.settled

theorem settled_of_outside
    {l : RunLoop}
    (hPoint : l.point = .outside) :
    l.settled = l.sched :=
  if_pos hPoint

theorem settled_of_inside
    {l : RunLoop}
    (hPoint : l.point ≠ .outside) :
    l.settled = l.sched.setStop false :=
  if_neg hPoint

theorem laneInv_settled_iff
    (l : RunLoop) :
    Scheduler.LaneInv l.settled ↔
      Scheduler.LaneInv l.sched := by
  unfold settled
  split
  · exact Iff.rfl
  · exact Scheduler.laneInv_setStop_iff l.sched false

/- A call returns, and then a stop that was put off comes. -/
theorem run_returns
    {l : RunLoop}
    {s : Scheduler}
    {pid now : Int}
    (hTick :
      (l.sched.setStop false).runLoop pid now =
        s.setStop false)
    (hStop : s.stop = l.sched.stop) :
    (l.sched.setStop false).run (l.returns pid now) = s := by
  unfold returns
  cases hWas : l.sched.stop with
  | false =>
      rw [hWas] at hStop
      simp only [Bool.false_eq_true, if_false]
      exact hTick.trans (Scheduler.setStop_eq_self hStop)
  | true =>
      rw [hWas] at hStop
      simp only [if_true]
      have hRun :
          (l.sched.setStop false).run
              [.tick pid now, .stop] =
            ((l.sched.setStop false).runLoop pid
              now).setStop true := rfl
      rw [hRun, hTick, Scheduler.setStop_setStop]
      exact Scheduler.setStop_eq_self hStop

/- A call that finds no job to start changes nothing. -/
theorem run_returns_of_not_admitted
    {l : RunLoop}
    (hNone : (l.sched.setStop false).admitted = none)
    (pid now : Int) :
    (l.sched.setStop false).run (l.returns pid now) =
      l.sched :=
  run_returns
    (Scheduler.runLoop_of_not_admitted hNone pid now) rfl

/- Going on within a call has no effect. -/
theorem settled_goes_on
    {l t : RunLoop}
    (hPoint : l.point ≠ .outside)
    (hNext : t.point ≠ .outside)
    (hSame : t.sched = l.sched) :
    t.settled = l.settled.run [] := by
  rw [settled_of_inside hPoint, settled_of_inside hNext,
    hSame]
  rfl

end RunLoop

end Aps

end Inks

------------------------------------------------------------
-- Steps of a Call
------------------------------------------------------------

namespace Inks

namespace Aps

namespace RunLoop

variable {l : RunLoop}

theorem settled_outside
    (hPoint : l.point = .outside)
    (pid now : Int) :
    (l.next pid now).settled =
      l.settled.run (l.takesEffect (.next pid now)) := by
  have hEffect : l.takesEffect (.next pid now) = [] := by
    simp [takesEffect, hPoint]
  rw [hEffect, settled_of_outside hPoint]
  by_cases hStop : l.sched.stop = true
  · have hNext : l.next pid now = l := by
      simp [next, hPoint, hStop]
    rw [hNext, settled_of_outside hPoint]
    rfl
  · have hNext :
        l.next pid now =
          { l with
            point := .entered
            past := l.past ++ [l.tick]
            tick := {} } := by
      simp [next, hPoint, hStop]
    rw [hNext, settled_of_inside (by simp)]
    apply Scheduler.setStop_eq_self
    simpa using hStop

theorem settled_entered
    (hPoint : l.point = .entered)
    (pid now : Int) :
    (l.next pid now).settled =
      l.settled.run (l.takesEffect (.next pid now)) := by
  have hInside : l.point ≠ .outside := by
    simp [hPoint]
  cases hQueue : l.sched.pq.q with
  | nil =>
      have hNone :
          (l.sched.setStop false).admitted = none := by
        simp [Scheduler.admitted, hQueue]
      simp only [takesEffect, next, hPoint, PendingQ.empty,
        hQueue, List.isEmpty_nil, Bool.not_true,
        Bool.false_eq_true, if_false]
      rw [settled_of_inside hInside,
        run_returns_of_not_admitted hNone]
      exact settled_of_outside rfl
  | cons head rest =>
      simp only [takesEffect, next, hPoint, PendingQ.empty,
        hQueue, List.isEmpty_cons, Bool.not_false, if_true]
      exact settled_goes_on hInside (by simp) rfl

theorem settled_nonempty
    (hPoint : l.point = .nonempty)
    (hSome : l.sched.pq.q ≠ [])
    (pid now : Int) :
    (l.next pid now).settled =
      l.settled.run (l.takesEffect (.next pid now)) := by
  have hInside : l.point ≠ .outside := by
    simp [hPoint]
  rcases List.exists_cons_of_ne_nil hSome with
    ⟨head, rest, hQueue⟩
  simp only [takesEffect, next, hPoint, PendingQ.front,
    hQueue, List.head?_cons]
  exact settled_goes_on hInside (by simp) rfl

theorem settled_looked
    {head : PendingJob}
    (hPoint : l.point = .looked head)
    (hHead : l.sched.pq.q.head? = some head)
    (pid now : Int) :
    (l.next pid now).settled =
      l.settled.run (l.takesEffect (.next pid now)) := by
  have hInside : l.point ≠ .outside := by
    simp [hPoint]
  by_cases hGo : l.sched.schedulable head = true
  · simp only [takesEffect, next, hPoint, hGo, if_true]
    exact settled_goes_on hInside (by simp) rfl
  · rcases List.head?_eq_some_iff.mp hHead with
      ⟨rest, hQueue⟩
    have hNone :
        (l.sched.setStop false).admitted = none := by
      simp [Scheduler.admitted, hQueue, hGo]
    simp only [takesEffect, next, hPoint, if_neg hGo]
    rw [settled_of_inside hInside,
      run_returns_of_not_admitted hNone]
    exact settled_of_outside rfl

theorem settled_approved
    {head : PendingJob}
    (hPoint : l.point = .approved head)
    (hHead : l.sched.pq.q.head? = some head)
    (hGo : l.sched.schedulable head = true)
    (pid now : Int) :
    (l.next pid now).settled =
      l.settled.run (l.takesEffect (.next pid now)) := by
  have hInside : l.point ≠ .outside := by
    simp [hPoint]
  rcases List.head?_eq_some_iff.mp hHead with
    ⟨rest, hQueue⟩
  have hPop :
      l.sched.pq.pop = some (head, { q := rest }) := by
    simp [PendingQ.pop, hQueue]
  have hAdmitted :
      (l.sched.setStop false).admitted = some head := by
    simp [Scheduler.admitted, hQueue, hGo]
  have hTick :
      (l.sched.setStop false).runLoop pid now =
        (Scheduler.schedule
          { l.sched with pq := { q := rest } } head pid
          now).setStop false := by
    rcases Scheduler.runLoop_of_admitted hAdmitted pid now
      with ⟨tail, hTail, hRun⟩
    have hSame : rest = tail := by
      simpa [hQueue] using hTail
    rw [hRun, ← hSame, ← Scheduler.schedule_setStop]
    rfl
  simp only [takesEffect, next, hPoint, hPop]
  rw [settled_of_inside hInside, run_returns hTick (by simp)]
  exact settled_of_outside rfl

/- Each step of a call does what its effects do. -/
theorem settled_next
    (hReady : l.Ready)
    (pid now : Int) :
    (l.next pid now).settled =
      l.settled.run (l.takesEffect (.next pid now)) := by
  have hSound := hReady.sound.point
  unfold AtPoint at hSound
  cases hPoint : l.point with
  | outside => exact settled_outside hPoint pid now
  | entered => exact settled_entered hPoint pid now
  | nonempty =>
      simp only [hPoint] at hSound
      exact settled_nonempty hPoint hSound.2 pid now
  | looked head =>
      simp only [hPoint] at hSound
      exact settled_looked hPoint hSound.2 pid now
  | approved head =>
      simp only [hPoint] at hSound
      exact settled_approved hPoint hSound.2
        (hReady.approved head hPoint) pid now

/- An interruption has its effect at once, unless it stops. -/
theorem settled_interrupt
    (i : Interruption) :
    (l.interrupt i).settled =
      l.settled.run (l.takesEffect (.interrupt i)) := by
  by_cases hOther : i = .stop
  · subst hOther
    by_cases hPoint : l.point = .outside
    · simp only [takesEffect, hPoint, if_true]
      rw [settled_of_outside hPoint]
      exact settled_of_outside hPoint
    · simp only [takesEffect, if_neg hPoint]
      rw [settled_of_inside hPoint]
      exact settled_of_inside hPoint
  · have hEffect :
        l.takesEffect (.interrupt i) = [i.event] := by
      cases i <;> simp_all [takesEffect]
    rw [hEffect]
    by_cases hPoint : l.point = .outside
    · rw [settled_of_outside hPoint]
      exact settled_of_outside hPoint
    · rw [settled_of_inside hPoint]
      refine Eq.trans (settled_of_inside hPoint) ?_
      exact (Scheduler.step_setStop l.sched hOther
        false).symm

theorem settled_step
    (hReady : l.Ready)
    (event : LoopEvent) :
    (l.step event).settled =
      l.settled.run (l.takesEffect event) := by
  cases event with
  | next pid now => exact settled_next hReady pid now
  | interrupt i => exact settled_interrupt i

end RunLoop

end Aps

end Inks

------------------------------------------------------------
-- Runs
------------------------------------------------------------

namespace Inks

namespace Aps

namespace RunLoop

variable {l : RunLoop}

/- A step to an approval found the head schedulable. -/
theorem looked_of_next_approved
    {head : PendingJob}
    {pid now : Int}
    (hNext : (l.next pid now).point = .approved head) :
    l.sched.schedulable head = true ∧
      (l.next pid now).sched = l.sched := by
  unfold next at hNext ⊢
  cases hPoint : l.point with
  | outside =>
      simp only [hPoint] at hNext
      split at hNext <;> simp_all
  | entered =>
      simp only [hPoint] at hNext
      split at hNext <;> simp_all
  | nonempty =>
      simp only [hPoint] at hNext
      cases hFront : l.sched.pq.front <;> simp_all
  | looked other =>
      simp only [hPoint] at hNext ⊢
      split at hNext
      · next hGo =>
          cases hNext
          exact ⟨hGo, by simp [hGo]⟩
      · simp at hNext
  | approved other =>
      simp only [hPoint] at hNext
      cases hPop : l.sched.pq.pop <;> simp_all

theorem Ready.step
    (hReady : l.Ready)
    (event : LoopEvent) :
    (l.step event).Ready where
  sound := hReady.sound.step event
  lanes := by
    rw [← laneInv_settled_iff, settled_step hReady event]
    have hInit :=
      (laneInv_settled_iff l).mpr hReady.lanes
    exact
      (Transition.always_of_step hInit
        (fun _ e hInv => hInv.step e)
        (l.takesEffect event)).last
  approved := by
    intro head hPoint
    cases event with
    | next pid now =>
        have hLooked := looked_of_next_approved hPoint
        simp only [RunLoop.step]
        rw [hLooked.2]
        exact hLooked.1
    | interrupt i =>
        exact Scheduler.schedulable_interruption
          hReady.lanes (hReady.approved head hPoint) i

theorem Ready.begin
    {pq : PendingQ}
    {storage : FinishedStorage}
    {lane : UInt64}
    {s : Scheduler}
    (hNew : Scheduler.new pq storage lane = .ok s) :
    (begin s).Ready where
  sound := Sound.begin hNew
  lanes := Scheduler.LaneInv.new hNew
  approved := by
    intro head hPoint
    cases hPoint

/- The run loop follows a scheduler with atomic calls. -/
theorem simulates_calls :
    Transition.Simulates step Scheduler.step takesEffect
      Follows := by
  rintro l s event ⟨hReady, rfl⟩
  exact
    ⟨hReady.step event, (settled_step hReady event).symm⟩

/- Whether a call of the run loop is going on. -/
def inProgress
    (l : RunLoop) : Nat :=
  if l.point = .outside then 0 else 1

/- A call that was begun has a tick, or is going on. -/
theorem ticks_step
    (l : RunLoop)
    (event : LoopEvent) :
    (l.takesEffect event).countP Event.isTick +
        (l.step event).inProgress + l.past.length =
      l.inProgress + (l.step event).past.length := by
  have hReturns :
      ∀ pid now,
        (l.returns pid now).countP Event.isTick = 1 := by
    intro pid now
    unfold returns
    split <;> rfl
  cases event with
  | interrupt i =>
      have hNone :
          (l.takesEffect (.interrupt i)).countP
            Event.isTick = 0 := by
        cases i with
        | stop =>
            simp only [takesEffect]
            split <;> rfl
        | push pj => rfl
        | exit id exitCode now => rfl
        | timeout id => rfl
      rw [hNone, Nat.zero_add]
      rfl
  | next pid now =>
      simp only [takesEffect, step, next]
      cases hPoint : l.point with
      | outside =>
          simp only
          split
          · simp [inProgress, hPoint]
          · simp [inProgress, hPoint, Nat.add_comm]
      | entered =>
          simp only
          split
          · simp [inProgress, hPoint]
          · simp [inProgress, hPoint, hReturns]
      | nonempty =>
          simp only
          cases l.sched.pq.front with
          | none => simp [inProgress, hPoint, hReturns]
          | some head => simp [inProgress, hPoint]
      | looked head =>
          simp only
          split
          · simp [inProgress, hPoint]
          · simp [inProgress, hPoint, hReturns]
      | approved head =>
          simp only
          cases l.sched.pq.pop with
          | none => simp [inProgress, hPoint, hReturns]
          | some popped =>
              simp [inProgress, hPoint, hReturns]

theorem ticks_run
    (events : List LoopEvent)
    (hInit : l.inProgress = l.past.length) :
    (linearize l events).countP Event.isTick +
        (Transition.run step l events).inProgress =
      (Transition.run step l events).past.length := by
  induction events using List.reverseRecOn with
  | nil => simpa [linearize] using hInit
  | append_singleton events event ih =>
      have hStep :=
        ticks_step (Transition.run step l events) event
      rw [Transition.run_concat, linearize,
        Transition.trace_concat, List.countP_append]
      rw [linearize] at ih
      omega

/- The others' part of the effects is what they did. -/
theorem ofOthers_takesEffect
    (l : RunLoop)
    (event : LoopEvent) :
    (l.takesEffect event).filterMap Event.ofOthers =
      event.ofOthers.toList := by
  have hReturns :
      ∀ pid now,
        (l.returns pid now).filterMap Event.ofOthers =
          [] := by
    intro pid now
    unfold returns
    split <;> rfl
  cases event with
  | interrupt i =>
      cases i with
      | stop =>
          simp only [takesEffect]
          split <;> rfl
      | push pj => rfl
      | exit id exitCode now => rfl
      | timeout id => rfl
  | next pid now =>
      simp only [takesEffect, LoopEvent.ofOthers]
      cases l.point with
      | outside => rfl
      | entered =>
          simp only
          split
          · rfl
          · exact hReturns pid now
      | nonempty =>
          simp only
          cases l.sched.pq.front with
          | none => exact hReturns pid now
          | some head => rfl
      | looked head =>
          simp only
          split
          · rfl
          · exact hReturns pid now
      | approved head => exact hReturns pid now

/-
  The calls of the run loop are atomic, however pushes,
  exits, timeouts and stops come between their steps: there
  is a run of the scheduler with one tick for each call that
  has returned, with what the others did in the same order,
  that ends in the same state. Only `stop_` is put off, to
  the end of the call that it came in.
-/
theorem calls_linearize
    {pq : PendingQ}
    {storage : FinishedStorage}
    {lane : UInt64}
    {s : Scheduler}
    (hNew : Scheduler.new pq storage lane = .ok s)
    (events : List LoopEvent) :
    let l := Transition.run step (begin s) events
    let calls := linearize (begin s) events
    (s.run calls).setStop l.sched.stop = l.sched ∧
      (l.point = .outside → s.run calls = l.sched) ∧
      calls.filterMap Event.ofOthers =
        events.filterMap LoopEvent.ofOthers ∧
      calls.countP Event.isTick + l.inProgress =
        l.past.length := by
  have hFollows :=
    simulates_calls.run (s := begin s) (t := s)
      ⟨Ready.begin hNew, rfl⟩ events
  have hSettled :
      s.run (linearize (begin s) events) =
        (Transition.run step (begin s) events).settled :=
    hFollows.2
  refine ⟨?_, ?_, ?_, ?_⟩
  · rw [hSettled]
    unfold settled
    split
    · exact Scheduler.setStop_eq_self rfl
    · rw [Scheduler.setStop_setStop]
      exact Scheduler.setStop_eq_self rfl
  · intro hPoint
    rw [hSettled, settled_of_outside hPoint]
  · have hStep :
        ∀ t event, Ready t → Ready (step t event) := by
      intro t event hReady
      exact hReady.step event
    exact
      Transition.filterMap_trace hStep
        (fun t event _ => ofOthers_takesEffect t event)
        (Ready.begin hNew) events
  · exact ticks_run events rfl

/- A stop comes between the look and the removal. -/
theorem calls_linearize_small :
    (Scheduler.small.run
        (linearize (begin Scheduler.small)
          [.interrupt (.push (smallJob 1 .fast)),
            .next 10 0, .next 10 0, .next 10 0, .next 10 0,
            .interrupt .stop, .next 10 0])).setStop true =
      (Transition.run step (begin Scheduler.small)
        [.interrupt (.push (smallJob 1 .fast)),
          .next 10 0, .next 10 0, .next 10 0, .next 10 0,
          .interrupt .stop, .next 10 0]).sched :=
  (calls_linearize Scheduler.new_small _).1

end RunLoop

end Aps

end Inks
