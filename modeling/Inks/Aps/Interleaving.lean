import Inks.Aps.Steps

/-
  The run loop step by step. The queue is asked whether it
  is empty, then for its head, and then to pop it, and each
  time it is locked anew: between two of these steps other
  threads may push, and jobs that timed out come back.

  Key definitions include:
    * `Aps.Interruption`
    * `Aps.LoopPoint`
    * `Aps.RunLoop`, `Aps.RunLoop.next`
    * `Aps.RunLoop.StartsInOrder`

  Key theorems include:
    * `Aps.RunLoop.next_uninterrupted`
    * `Aps.RunLoop.Sound.step`
    * `Aps.RunLoop.starts_in_order`
-/

------------------------------------------------------------
-- State
------------------------------------------------------------

namespace Inks

namespace Aps

/- What can happen between two steps of the run loop. -/
inductive Interruption where
| push (pj : PendingJob)
| exit (id : ByteString) (exitCode : Int) (now : Int)
| timeout (id : ByteString)
| stop
deriving DecidableEq, Repr

def Interruption.event : Interruption → Event
| .push pj => .push pj
| .exit id exitCode now => .exit id exitCode now
| .timeout id => .timeout id
| .stop => .stop

/- How far the current call of `run_loop` has come. -/
inductive LoopPoint where
-- Between two calls.
| outside
-- `stop_` was false.
| entered
-- `empty` was false.
| nonempty
-- `front` has returned a copy of the head.
| looked (head : PendingJob)
-- `schedulable` has approved this copy.
| approved (head : PendingJob)
deriving DecidableEq, Repr

/- What one call of `run_loop` approves and starts. -/
structure Tick where
  approved : List PendingJob := []
  started : List PendingJob := []
deriving DecidableEq, Repr

structure RunLoop where
  sched : Scheduler
  point : LoopPoint := .outside
  -- Ghost: the queue was empty at a `front` or a `pop`.
  undefined : Bool := false
  -- Ghost: all that was pushed, by whomever, in order.
  pushes : List PendingJob
  -- Ghost: the calls before, and the last one.
  past : List Tick := []
  tick : Tick := {}

inductive LoopEvent where
| next (pid : Int) (now : Int)
| interrupt (i : Interruption)
deriving DecidableEq, Repr

end Aps

end Inks

------------------------------------------------------------
-- Steps
------------------------------------------------------------

namespace Inks

namespace Aps

/- The jobs that an interruption pushes. -/
def Scheduler.pushed
    (s : Scheduler) : Interruption → List PendingJob
| .push pj => [pj]
| .timeout id =>
    match s.running.lookup id with
    | none => []
    | some it => [requeue it]
| _ => []

namespace RunLoop

/-
  The next step of the run loop. The popped job goes to
  `schedule` at once; a push in between would not matter,
  as `Scheduler.schedule_push` shows.
-/
def next
    (pid : Int)
    (now : Int)
    (l : RunLoop) : RunLoop :=
  match l.point with
  | .outside =>
      if l.sched.stop then
        l
      else
        { l with
          point := .entered
          past := l.past ++ [l.tick]
          tick := {} }
  | .entered =>
      if !l.sched.pq.empty then
        { l with point := .nonempty }
      else
        { l with point := .outside }
  | .nonempty =>
      match l.sched.pq.front with
      | none =>
          { l with point := .outside, undefined := true }
      | some head => { l with point := .looked head }
  | .looked head =>
      if l.sched.schedulable head then
        { l with
          point := .approved head
          tick :=
            { l.tick with
              approved := l.tick.approved ++ [head] } }
      else
        { l with point := .outside }
  | .approved _ =>
      match l.sched.pq.pop with
      | none =>
          { l with point := .outside, undefined := true }
      | some (pj, rest) =>
          { l with
            sched :=
              Scheduler.schedule { l.sched with pq := rest }
                pj pid now
            point := .outside
            tick :=
              { l.tick with
                started := l.tick.started ++ [pj] } }

def interrupt
    (l : RunLoop)
    (i : Interruption) : RunLoop :=
  { l with
    sched := l.sched.step i.event
    pushes := l.pushes ++ l.sched.pushed i }

def step
    (l : RunLoop) : LoopEvent → RunLoop
| .next pid now => l.next pid now
| .interrupt i => l.interrupt i

/- What is in the queue at first was pushed before. -/
def begin
    (s : Scheduler) : RunLoop where
  sched := s
  pushes := s.pq.q

end RunLoop

end Aps

end Inks

------------------------------------------------------------
-- Uninterrupted Calls
------------------------------------------------------------

namespace Inks

namespace Aps

namespace Scheduler

/- Scheduling a job and pushing another one commute. -/
theorem schedule_push
    (s : Scheduler)
    (pj other : PendingJob)
    (pid now : Int) :
    (s.schedule pj pid now).step (.push other) =
      (s.step (.push other)).schedule pj pid now := by
  have hLane :
      (s.step (.push other)).actualLane pj =
        s.actualLane pj := rfl
  unfold schedule
  rw [hLane]
  cases s.actualLane pj <;> rfl

end Scheduler

namespace RunLoop

/-
  Without interruptions the steps of one call together are
  the call as a whole.
-/
theorem next_uninterrupted
    {l : RunLoop}
    (hOutside : l.point = .outside)
    (pid now : Int) :
    ∃ n, 0 < n ∧ n ≤ 5 ∧
      ((next pid now)^[n] l).point = .outside ∧
      ((next pid now)^[n] l).sched =
        l.sched.runLoop pid now := by
  by_cases hStop : l.sched.stop
  · refine ⟨1, by omega, by omega, ?_, ?_⟩
    · simp [next, hOutside, hStop]
    · simp [next, hOutside, hStop, Scheduler.runLoop]
  · cases hQueue : l.sched.pq.q with
    | nil =>
        refine ⟨2, by omega, by omega, ?_, ?_⟩
        · simp [next, hOutside, hStop, PendingQ.empty,
            hQueue]
        · simp [next, hOutside, hStop, PendingQ.empty,
            hQueue, Scheduler.runLoop, PendingQ.front]
    | cons head rest =>
        by_cases hGo : l.sched.schedulable head
        · refine ⟨5, by omega, by omega, ?_, ?_⟩
          · simp [next, hOutside, hStop, PendingQ.empty,
              PendingQ.front, PendingQ.pop, hQueue, hGo]
          · simp [next, hOutside, hStop, PendingQ.empty,
              PendingQ.front, PendingQ.pop, hQueue, hGo,
              Scheduler.runLoop]
        · refine ⟨4, by omega, by omega, ?_, ?_⟩
          · simp [next, hOutside, hStop, PendingQ.empty,
              PendingQ.front, hQueue, hGo]
          · simp [next, hOutside, hStop, PendingQ.empty,
              PendingQ.front, hQueue, hGo,
              Scheduler.runLoop]

end RunLoop

end Aps

end Inks

------------------------------------------------------------
-- Jobs in Order
------------------------------------------------------------

namespace Inks

namespace Aps

/- A call starts only what it approved, and one job only. -/
def Tick.Right
    (tick : Tick) : Prop :=
  tick.started <+: tick.approved ∧ tick.approved.length ≤ 1

namespace RunLoop

/-
  No `front` and no `pop` meets an empty queue, each call
  starts only the job that it approved, and the jobs that
  were pushed are the started ones, in order, and then those
  in the queue.
-/
structure StartsInOrder
    (l : RunLoop) : Prop where
  defined : l.undefined = false
  order :
    l.pushes = l.sched.starts.map Start.job ++ l.sched.pq.q
  started :
    l.sched.starts.map Start.job =
      (l.past ++ [l.tick]).flatMap Tick.started
  right : ∀ tick ∈ l.past ++ [l.tick], tick.Right

/-
  What holds at each point of a call. From `empty` on there
  is a head, and it is the one that was looked at, since
  only the run loop takes jobs out.
-/
def AtPoint
    (l : RunLoop) : Prop :=
  match l.point with
  | .outside => l.tick.Right
  | .entered => l.tick = {}
  | .nonempty => l.tick = {} ∧ l.sched.pq.q ≠ []
  | .looked head =>
      l.tick = {} ∧ l.sched.pq.q.head? = some head
  | .approved head =>
      l.tick = { approved := [head] } ∧
        l.sched.pq.q.head? = some head

structure Sound
    (l : RunLoop) : Prop where
  defined : l.undefined = false
  order :
    l.pushes = l.sched.starts.map Start.job ++ l.sched.pq.q
  started :
    l.sched.starts.map Start.job =
      (l.past ++ [l.tick]).flatMap Tick.started
  past : ∀ tick ∈ l.past, tick.Right
  point : l.AtPoint

end RunLoop

namespace Scheduler

/-
  An interruption only adds to the end of the queue, and it
  starts no job.
-/
theorem queue_interruption
    (s : Scheduler)
    (i : Interruption) :
    (s.step i.event).pq.q = s.pq.q ++ s.pushed i ∧
      (s.step i.event).starts = s.starts := by
  cases i with
  | push pj => simp [Interruption.event, step, pushed]
  | stop => simp [Interruption.event, step, pushed]
  | exit id exitCode now =>
      simp only [Interruption.event, step, pushed]
      cases hLookup : s.running.lookup id with
      | none =>
          simp [handleExit_of_not_running hLookup]
      | some it =>
          simp [handleExit_of_lookup hLookup]
  | timeout id =>
      simp only [Interruption.event, step, pushed]
      cases hLookup : s.running.lookup id with
      | none =>
          simp [handleTimeout_of_not_running hLookup]
      | some it =>
          simp [handleTimeout_of_lookup hLookup]

end Scheduler

namespace RunLoop

/- At every point the current call is right so far. -/
theorem AtPoint.right
    {l : RunLoop}
    (hPoint : l.AtPoint) :
    l.tick.Right := by
  unfold AtPoint at hPoint
  split at hPoint
  · exact hPoint
  · simp [hPoint, Tick.Right]
  · simp [hPoint.1, Tick.Right]
  · simp [hPoint.1, Tick.Right]
  · simp [hPoint.1, Tick.Right]

theorem AtPoint.interrupt
    {l : RunLoop}
    (hPoint : l.AtPoint)
    (i : Interruption) :
    (l.interrupt i).AtPoint := by
  have hQueue := (l.sched.queue_interruption i).1
  have hHead : ∀ head, l.sched.pq.q.head? = some head →
      (l.sched.step i.event).pq.q.head? = some head := by
    intro head hHead
    simp [hQueue, List.head?_append, hHead]
  unfold AtPoint at hPoint ⊢
  cases hAt : l.point with
  | outside =>
      simpa [RunLoop.interrupt, hAt] using hPoint
  | entered =>
      simpa [RunLoop.interrupt, hAt] using hPoint
  | nonempty =>
      simp only [RunLoop.interrupt, hAt] at hPoint ⊢
      exact ⟨hPoint.1, by simp [hQueue, hPoint.2]⟩
  | looked head =>
      simp only [RunLoop.interrupt, hAt] at hPoint ⊢
      exact ⟨hPoint.1, hHead head hPoint.2⟩
  | approved head =>
      simp only [RunLoop.interrupt, hAt] at hPoint ⊢
      exact ⟨hPoint.1, hHead head hPoint.2⟩

/- Between its steps others only push behind the head. -/
theorem Sound.interrupt
    {l : RunLoop}
    (hSound : l.Sound)
    (i : Interruption) :
    (l.interrupt i).Sound := by
  rcases l.sched.queue_interruption i with
    ⟨hQueue, hStarts⟩
  exact
    { defined := hSound.defined
      order := by
        simp [RunLoop.interrupt, hQueue, hStarts,
          hSound.order]
      started := by
        simp only [RunLoop.interrupt, hStarts]
        exact hSound.started
      past := hSound.past
      point := hSound.point.interrupt i }

/- Each step of a call finds what the one before has left. -/
theorem Sound.next
    {l : RunLoop}
    (hSound : l.Sound)
    (pid now : Int) :
    (l.next pid now).Sound := by
  have hPoint := hSound.point
  unfold AtPoint at hPoint
  unfold RunLoop.next
  cases hAt : l.point with
  | outside =>
      simp only [hAt] at hPoint ⊢
      split
      · exact hSound
      · exact
          { defined := hSound.defined
            order := hSound.order
            started := by
              simpa using hSound.started
            past := by
              intro tick hMem
              rcases List.mem_append.mp hMem with hOld | hNew
              · exact hSound.past tick hOld
              · rw [List.mem_singleton.mp hNew]
                exact hPoint
            point := rfl }
  | entered =>
      simp only [hAt] at hPoint ⊢
      split
      · rename_i hSome
        exact
          { hSound with
            point := ⟨hPoint, by
              simpa [PendingQ.empty] using hSome⟩ }
      · exact
          { hSound with
            point := hSound.point.right }
  | nonempty =>
      simp only [hAt] at hPoint ⊢
      rcases List.exists_cons_of_ne_nil hPoint.2 with
        ⟨head, rest, hQueue⟩
      have hFront : l.sched.pq.front = some head := by
        simp [PendingQ.front, hQueue]
      rw [hFront]
      exact
        { hSound with
          point := ⟨hPoint.1, by simp [hQueue]⟩ }
  | looked head =>
      simp only [hAt] at hPoint ⊢
      rcases hPoint with ⟨hTick, hHead⟩
      split
      · exact
          { defined := hSound.defined
            order := hSound.order
            started := by
              simpa using hSound.started
            past := hSound.past
            point := ⟨by simp [hTick], hHead⟩ }
      · exact
          { hSound with
            point := hSound.point.right }
  | approved head =>
      simp only [hAt] at hPoint ⊢
      rcases hPoint with ⟨hTick, hHead⟩
      rcases List.head?_eq_some_iff.mp hHead with
        ⟨rest, hQueue⟩
      have hPop :
          l.sched.pq.pop = some (head, { q := rest }) := by
        simp [PendingQ.pop, hQueue]
      rw [hPop]
      exact
        { defined := hSound.defined
          order := by
            simp [hSound.order, hQueue]
          started := by
            simp [hSound.started]
          past := hSound.past
          point := by
            simp [AtPoint, Tick.Right, hTick] }

theorem Sound.step
    {l : RunLoop}
    (hSound : l.Sound)
    (event : LoopEvent) :
    (l.step event).Sound := by
  cases event with
  | next pid now => exact hSound.next pid now
  | interrupt i => exact hSound.interrupt i

theorem Sound.begin
    {pq : PendingQ}
    {storage : FinishedStorage}
    {lane : UInt64}
    {s : Scheduler}
    (hNew : Scheduler.new pq storage lane = .ok s) :
    (begin s).Sound := by
  rcases Scheduler.new_eq_ok_iff.mp hNew with ⟨_, rfl⟩
  exact
    { defined := rfl
      order := rfl
      started := rfl
      past := by
        intro tick hMem
        cases hMem
      point := by
        simp [AtPoint, RunLoop.begin, Tick.Right] }

theorem starts_in_order
    {pq : PendingQ}
    {storage : FinishedStorage}
    {lane : UInt64}
    {s : Scheduler}
    (hNew : Scheduler.new pq storage lane = .ok s)
    (events : List LoopEvent) :
    Transition.Always step StartsInOrder (begin s)
      events := by
  have hSound :=
    Transition.always_of_step (Sound.begin hNew)
      (fun _ event hSound => Sound.step hSound event) events
  intro past hPrefix
  have hHere := hSound past hPrefix
  refine
    { defined := hHere.defined
      order := hHere.order
      started := hHere.started
      right := ?_ }
  intro tick hMem
  rcases List.mem_append.mp hMem with hOld | hLast
  · exact hHere.past tick hOld
  · rw [List.mem_singleton.mp hLast]
    exact hHere.point.right

/- A push comes between the look and the removal. -/
theorem starts_in_order_small :
    Transition.Always step StartsInOrder
      (begin Scheduler.small)
      [.interrupt (.push (smallJob 1 .fast)),
        .next 10 0, .next 10 0, .next 10 0, .next 10 0,
        .interrupt (.push (smallJob 2 .slow)),
        .next 10 0, .interrupt (.timeout [1]),
        .next 11 0, .next 11 0] :=
  starts_in_order Scheduler.new_small _

end RunLoop

end Aps

end Inks
