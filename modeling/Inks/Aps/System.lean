import Inks.Aps.Entries
import Inks.Process.Steps

/-
  The scheduler with the processes and timers that it
  starts. The event loop delivers the exit of a child once,
  at any time after the child ended, and the expiry of a
  timer at any time after the timer fired. A timer dies with
  the running entry that owns it, but one that has fired is
  delivered all the same.

  Key definitions include:
    * `Aps.ExitCall`
    * `Aps.System`
    * `Aps.SystemEvent`
    * `Aps.System.step`

  Key theorems include:
    * `Aps.System.sched_step`
    * `Aps.System.invariant_run`
-/

------------------------------------------------------------
-- State
------------------------------------------------------------

namespace Inks

namespace Aps

/- A call of `handle_exit` by the callback of a process. -/
structure ExitCall where
  id : ByteString
  exitCode : Int
  -- Ghost: the start that the process belongs to.
  start : Nat
deriving DecidableEq, Repr

/- The exit callback that `schedule` passes to `spawn`. -/
def exitCallback
    (id : ByteString)
    (start : Nat)
    (exitCode : Int) : ExitCall where
  id := id
  exitCode := exitCode
  start := start

/- What `on_exit` gets for the process of a start. -/
def exitHandler
    (id : ByteString)
    (start : Nat)
    (exitCode : Int) : Option ExitCall :=
  some (exitCallback id start exitCode)

/- The handler tells which start it belongs to. -/
theorem exitHandler_inj
    {id other : ByteString}
    {start later : Nat}
    (hSame : exitHandler id start = exitHandler other later) :
    id = other ∧ start = later := by
  have hCall := congrFun hSame 0
  simpa [exitHandler, exitCallback] using hCall

inductive TimerPhase where
| armed
| fired
| delivered
deriving DecidableEq, Repr

/- A wait for the timer of a start in the fast lane. -/
structure TimerWait where
  id : ByteString
  -- Ghost: the start that the timer belongs to.
  start : Nat
  phase : TimerPhase := .armed
deriving DecidableEq, Repr

structure System where
  sched : Scheduler
  procs : ProcessManager ExitCall := {}
  timers : List TimerWait := []
  -- Ghost: the children whose exit has been delivered.
  delivered : List Nat := []

inductive SystemEvent where
| push (pj : PendingJob)
| tick (outcome : Option Nat) (taken : Bool) (now : Int)
| stop
| ends (n : Nat) (ending : Ending)
| reaps (n : Nat)
| deliverExit (n : Nat) (now : Int)
| expires (m : Nat)
| deliverTimeout (m : Nat)
deriving DecidableEq, Repr

end Aps

end Inks

------------------------------------------------------------
-- Steps
------------------------------------------------------------

namespace Inks

namespace Aps

namespace System

/- The waits for timers after starting a job in a lane. -/
def armTimer
    (sys : System)
    (id : ByteString) : Lane → List TimerWait
| .fast =>
    sys.timers ++
      [{ id := id, start := sys.sched.starts.length }]
| .slow => sys.timers

/-
  A turn of the run loop. When it starts a job, the process
  manager spawns its process.
-/
def tick
    (sys : System)
    (outcome : Option Nat)
    (taken : Bool)
    (now : Int) : System :=
  match sys.sched.admitted with
  | none => { sys with sched := sys.sched.runLoop (-1) now }
  | some pj =>
      let spawned :=
        sys.procs.spawn pj.spec.opts
          (some (exitCallback pj.spec.id
            sys.sched.starts.length))
          outcome taken
      { sys with
        sched := sys.sched.runLoop spawned.1 now
        procs := spawned.2
        timers :=
          sys.armTimer pj.spec.id
            (sys.sched.actualLane pj) }

/- The exit of a child is delivered once, after its end. -/
def deliverExit
    (sys : System)
    (n : Nat)
    (now : Int) : System :=
  match sys.procs.children[n]? with
  | none => sys
  | some child =>
      if child.phase = .running ∨ n ∈ sys.delivered then
        sys
      else
        let sys :=
          { sys with delivered := n :: sys.delivered }
        match child.onExit child.exitCode with
        | none => sys
        | some call =>
            { sys with
              sched :=
                sys.sched.handleExit call.id
                  call.exitCode now }

/- The entry of a start owns its timer. -/
def timerLives
    (sys : System)
    (timer : TimerWait) : Bool :=
  match sys.sched.running.lookup timer.id with
  | none => false
  | some it => it.start == timer.start && it.timer.isSome

def setTimer
    (sys : System)
    (m : Nat)
    (phase : TimerPhase) : System :=
  { sys with
    timers :=
      sys.timers.modify m
        (fun timer => { timer with phase := phase }) }

def expires
    (sys : System)
    (m : Nat) : System :=
  match sys.timers[m]? with
  | none => sys
  | some timer =>
      if timer.phase = .armed ∧ sys.timerLives timer then
        sys.setTimer m .fired
      else
        sys

/-
  The timeout of a start is delivered: `handle_timeout`
  terminates the pid of the entry it finds.
-/
def deliverTimeout
    (sys : System)
    (m : Nat) : System :=
  match sys.timers[m]? with
  | none => sys
  | some timer =>
      if timer.phase = .fired then
        let sys := sys.setTimer m .delivered
        match sys.sched.running.lookup timer.id with
        | none => sys
        | some it =>
            { sys with
              sched := sys.sched.handleTimeout timer.id
              procs := sys.procs.terminate it.pid }
      else
        sys

def step
    (sys : System) : SystemEvent → System
| .push pj =>
    { sys with sched := sys.sched.step (.push pj) }
| .tick outcome taken now => sys.tick outcome taken now
| .stop => { sys with sched := sys.sched.step .stop }
| .ends n ending =>
    { sys with procs := sys.procs.step (.ends n ending) }
| .reaps n =>
    { sys with procs := sys.procs.step (.reaps n) }
| .deliverExit n now => sys.deliverExit n now
| .expires m => sys.expires m
| .deliverTimeout m => sys.deliverTimeout m

end System

end Aps

end Inks

------------------------------------------------------------
-- The Scheduler in the System
------------------------------------------------------------

namespace Inks

namespace Aps

namespace System

@[simp] theorem setTimer_frame
    (sys : System)
    (m : Nat)
    (phase : TimerPhase) :
    (sys.setTimer m phase).sched = sys.sched ∧
      (sys.setTimer m phase).procs = sys.procs ∧
      (sys.setTimer m phase).delivered =
        sys.delivered := by
  simp [setTimer]

/- The exit of an ended child arrives at `handle_exit`. -/
theorem sched_deliverExit
    {sys : System}
    {n : Nat}
    {child : Child ExitCall}
    {id : ByteString}
    {start : Nat}
    (hChild : sys.procs.children[n]? = some child)
    (hEnded : child.phase ≠ .running)
    (hWaiting : n ∉ sys.delivered)
    (hCallback : child.onExit = exitHandler id start)
    (now : Int) :
    (sys.deliverExit n now).sched =
      sys.sched.handleExit id child.exitCode now := by
  simp only [deliverExit, hChild, hEnded, hWaiting,
    or_false, if_false, hCallback, exitHandler,
    exitCallback]

/-
  Every step of the system is a step of its scheduler or
  leaves the scheduler alone.
-/
theorem sched_step
    (sys : System)
    (event : SystemEvent) :
    (sys.step event).sched = sys.sched ∨
      ∃ inner,
        (sys.step event).sched = sys.sched.step inner := by
  cases event with
  | push pj => exact Or.inr ⟨.push pj, rfl⟩
  | stop => exact Or.inr ⟨.stop, rfl⟩
  | ends n ending => exact Or.inl rfl
  | reaps n => exact Or.inl rfl
  | tick outcome taken now =>
      simp only [step, tick]
      cases sys.sched.admitted with
      | none => exact Or.inr ⟨.tick (-1) now, rfl⟩
      | some pj => exact Or.inr ⟨.tick _ now, rfl⟩
  | deliverExit n now =>
      simp only [step, deliverExit]
      cases sys.procs.children[n]? with
      | none => exact Or.inl rfl
      | some child =>
          simp only
          split
          · exact Or.inl rfl
          · cases child.onExit child.exitCode with
            | none => exact Or.inl rfl
            | some call =>
                exact Or.inr
                  ⟨.exit call.id call.exitCode now, rfl⟩
  | expires m =>
      simp only [step, expires]
      cases sys.timers[m]? with
      | none => exact Or.inl rfl
      | some timer =>
          simp only
          split
          · exact Or.inl (sys.setTimer_frame m _).1
          · exact Or.inl rfl
  | deliverTimeout m =>
      simp only [step, deliverTimeout]
      cases sys.timers[m]? with
      | none => exact Or.inl rfl
      | some timer =>
          simp only [setTimer_frame]
          split
          · cases sys.sched.running.lookup timer.id with
            | none =>
                exact Or.inl (sys.setTimer_frame m _).1
            | some it =>
                exact Or.inr ⟨.timeout timer.id, rfl⟩
          · exact Or.inl rfl

/- What scheduler steps keep, steps of the system keep. -/
theorem invariant_step
    {Inv : Scheduler → Prop}
    (hStep :
      ∀ s event, Inv s → Inv (Scheduler.step s event))
    {sys : System}
    (hInv : Inv sys.sched)
    (event : SystemEvent) :
    Inv (sys.step event).sched := by
  rcases sched_step sys event with hSame | ⟨inner, hInner⟩
  · rw [hSame]
    exact hInv
  · rw [hInner]
    exact hStep _ inner hInv

/- An invariant of the scheduler holds in every system. -/
theorem invariant_run
    {Inv : Scheduler → Prop}
    (hStep :
      ∀ s event, Inv s → Inv (Scheduler.step s event))
    (sys : System)
    (hInit : Inv sys.sched)
    (events : List SystemEvent) :
    Inv (Transition.run step sys events).sched := by
  have hAlways :
      Transition.Always step (fun t => Inv t.sched) sys
        events := by
    refine Transition.always_of_step ?_ ?_ events
    · exact hInit
    · intro _ event hInv
      exact invariant_step hStep hInv event
  exact hAlways.last

end System

end Aps

end Inks
