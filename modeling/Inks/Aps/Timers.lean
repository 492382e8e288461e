import Inks.Aps.Notification

/-
  Timers and lanes. A job in the fast lane is always under
  the guard of a timer, one in the slow lane never is. That
  a timeout finds a job in the slow lane "should never
  happen by design"; it does when a job comes back in the
  slow lane before an old timeout was delivered.

  Key definitions include:
    * `Aps.System.TimerInv`
    * `Aps.System.CanTimeOut`
    * `Aps.System.FastTimeouts`
    * `Aps.System.StartsSlowQuiet`

  Key theorems include:
    * `Aps.System.TimerInv.step`
    * `Aps.System.fast_jobs_guarded`
    * `Aps.System.timeouts_fast_iff`
-/

------------------------------------------------------------
-- Single Steps
------------------------------------------------------------

namespace Inks

namespace Aps

namespace System

/-
  What an event does to the entries and the timers. Only a
  tick adds to them.
-/
inductive TimerMove
    (sys : System) : System → Prop where
| keeps
    {t : System}
    (hStarts : t.sched.starts = sys.sched.starts)
    (hRunning :
      ∀ id it, t.sched.running.lookup id = some it →
        sys.sched.running.lookup id = some it)
    (hTimers : t.timers = sys.timers) :
    TimerMove sys t
| fires
    {m : Nat}
    {timer : TimerWait}
    (hTimer : sys.timers[m]? = some timer)
    (hLives : sys.timerLives timer = true) :
    TimerMove sys (sys.setTimer m .fired)
| delivers
    {t : System}
    {m : Nat}
    {timer : TimerWait}
    (hTimer : sys.timers[m]? = some timer)
    (hStarts : t.sched.starts = sys.sched.starts)
    (hRunning :
      ∀ id it, t.sched.running.lookup id = some it →
        id ≠ timer.id ∧
          sys.sched.running.lookup id = some it)
    (hTimers :
      t.timers = (sys.setTimer m .delivered).timers) :
    TimerMove sys t
| starts
    {t : System}
    {pj : PendingJob}
    {pid now : Int}
    (hStarts :
      t.sched.starts =
        sys.sched.starts ++
          [{ job := pj
             lane := sys.sched.actualLane pj
             pid := pid }])
    (hRunning :
      t.sched.running =
        sys.sched.running.emplace pj.spec.id
          (sys.sched.newEntry pj pid now))
    (hTimers :
      t.timers =
        sys.armTimer pj.spec.id
          (sys.sched.actualLane pj)) :
    TimerMove sys t

end System

end Aps

end Inks

------------------------------------------------------------
-- Statements
------------------------------------------------------------

namespace Inks

namespace Aps

namespace System

/-
  The timeout of this entry can come: a timer of its start
  that was not delivered fires, or has fired, and its
  delivery then times out the job of the entry and kills its
  process.
-/
def CanTimeOut
    (sys : System)
    (id : ByteString)
    (it : RunningJob) : Prop :=
  ∃ (m : Nat) (timer : TimerWait),
    sys.timers[m]? = some timer ∧
      timer.id = id ∧
      timer.start = it.start ∧
      timer.phase ≠ .delivered ∧
      let t :=
        Transition.run step sys
          [.expires m, .deliverTimeout m]
      t.sched = sys.sched.handleTimeout id ∧
        t.procs = sys.procs.terminate it.pid

/- Every fast job can time out, no slow job has a timer. -/
def FastGuarded
    (sys : System) : Prop :=
  ∀ id it, sys.sched.running.lookup id = some it →
    (it.lane = .fast → sys.CanTimeOut id it) ∧
      (it.lane = .slow →
        ∀ (m : Nat) (timer : TimerWait),
          sys.timers[m]? = some timer →
          timer.start ≠ it.start)

/-
  Whatever timeout is yet to be delivered, the entry that it
  would find is in the fast lane.
-/
def FastTimeouts
    (sys : System) : Prop :=
  ∀ (m : Nat) (timer : TimerWait) it,
    sys.timers[m]? = some timer →
    timer.phase = .fired →
    sys.sched.running.lookup timer.id = some it →
    it.lane = .fast

/-
  A tick puts no job into the slow lane while a timeout for
  its id is yet to be delivered.
-/
def StartsSlowQuiet
    (sys : System) : SystemEvent → Prop
| .tick _ _ _ =>
    ∀ pj, sys.sched.admitted = some pj →
      pj.spec.id ∉ sys.sched.running →
      sys.sched.actualLane pj = .slow →
      ∀ (m : Nat) (timer : TimerWait),
        sys.timers[m]? = some timer →
        timer.phase = .fired →
        timer.id ≠ pj.spec.id
| _ => True

end System

end Aps

end Inks

------------------------------------------------------------
-- Moves of the System
------------------------------------------------------------

namespace Inks

namespace Aps

namespace System

theorem TimerMove.refl
    (sys : System) :
    TimerMove sys sys :=
  .keeps rfl (fun _ _ hLookup => hLookup) rfl

/- What a tick gets from `spawn` for the job it starts. -/
def spawned
    (sys : System)
    (pj : PendingJob)
    (outcome : Option Nat)
    (taken : Bool) : Int × ProcessManager ExitCall :=
  sys.procs.spawn pj.spec.opts
    (some (exitCallback pj.spec.id sys.sched.starts.length))
    outcome taken

/- What a tick does that starts a job. -/
theorem tick_of_admitted
    {sys : System}
    {pj : PendingJob}
    (hAdmitted : sys.sched.admitted = some pj)
    (outcome : Option Nat)
    (taken : Bool)
    (now : Int) :
    let pid := (sys.spawned pj outcome taken).1
    let t := sys.tick outcome taken now
    t.sched.starts =
        sys.sched.starts ++
          [{ job := pj
             lane := sys.sched.actualLane pj
             pid := pid }] ∧
      t.sched.running =
        sys.sched.running.emplace pj.spec.id
          (sys.sched.newEntry pj pid now) ∧
      t.timers =
        sys.armTimer pj.spec.id
          (sys.sched.actualLane pj) ∧
      t.procs = (sys.spawned pj outcome taken).2 ∧
      t.delivered = sys.delivered := by
  intro pid t
  rcases Scheduler.runLoop_of_admitted hAdmitted pid now
    with ⟨rest, _, hRun⟩
  have hTick :
      t =
        { sys with
          sched := sys.sched.runLoop pid now
          procs := (sys.spawned pj outcome taken).2
          timers :=
            sys.armTimer pj.spec.id
              (sys.sched.actualLane pj) } := by
    simp only [t, pid, tick, hAdmitted]
    rfl
  rw [hTick]
  refine ⟨?_, ?_, rfl, rfl, rfl⟩
  · exact Scheduler.runLoop_starts hAdmitted pid now
  · simp only [hRun, Scheduler.schedule_frame]
    rfl

theorem timerMove_tick
    (sys : System)
    (outcome : Option Nat)
    (taken : Bool)
    (now : Int) :
    TimerMove sys (sys.tick outcome taken now) := by
  cases hAdmitted : sys.sched.admitted with
  | none =>
      rw [tick_of_not_admitted hAdmitted]
      exact TimerMove.refl sys
  | some pj =>
      rcases tick_of_admitted hAdmitted outcome taken now
        with ⟨hStarts, hRunning, hTimers, _⟩
      exact .starts hStarts hRunning hTimers

theorem timerMove_deliverExit
    (sys : System)
    (n : Nat)
    (now : Int) :
    TimerMove sys (sys.deliverExit n now) := by
  unfold deliverExit
  cases sys.procs.children[n]? with
  | none => exact TimerMove.refl sys
  | some child =>
      simp only
      split
      · exact TimerMove.refl sys
      · cases child.onExit child.exitCode with
        | none =>
            exact .keeps rfl (fun _ _ hLookup => hLookup)
              rfl
        | some call =>
            have hRemoves :=
              Scheduler.step_only_removes sys.sched
                (.exit call.id call.exitCode now) (by simp)
            exact .keeps hRemoves.1 hRemoves.2 rfl

theorem timerMove_expires
    (sys : System)
    (m : Nat) :
    TimerMove sys (sys.expires m) := by
  unfold expires
  cases hTimer : sys.timers[m]? with
  | none => exact TimerMove.refl sys
  | some timer =>
      simp only
      split
      · next hArmed => exact .fires hTimer hArmed.2
      · exact TimerMove.refl sys

theorem timerMove_deliverTimeout
    (sys : System)
    (m : Nat) :
    TimerMove sys (sys.deliverTimeout m) := by
  unfold deliverTimeout
  cases hTimer : sys.timers[m]? with
  | none => exact TimerMove.refl sys
  | some timer =>
      simp only [setTimer_frame]
      split
      · rcases (sys.sched.running.lookup
          timer.id).eq_none_or_eq_some with
          hNone | ⟨it, hSome⟩
        · simp only [hNone]
          refine .delivers hTimer rfl ?_ rfl
          intro id it hLookup
          refine ⟨?_, hLookup⟩
          rintro rfl
          exact absurd (hNone.symm.trans hLookup) (by simp)
        · simp only [hSome]
          refine .delivers hTimer ?_ ?_ rfl
          · simp [Scheduler.handleTimeout_of_lookup hSome]
          · intro id other hLookup
            simp only [Scheduler.handleTimeout_of_lookup
              hSome] at hLookup
            exact Table.lookup_erase_cases hLookup
      · exact TimerMove.refl sys

theorem timerMove_step
    (sys : System)
    (event : SystemEvent) :
    TimerMove sys (sys.step event) := by
  cases event with
  | push pj =>
      exact .keeps rfl (fun _ _ hLookup => hLookup) rfl
  | stop =>
      exact .keeps rfl (fun _ _ hLookup => hLookup) rfl
  | ends n ending =>
      exact .keeps rfl (fun _ _ hLookup => hLookup) rfl
  | reaps n =>
      exact .keeps rfl (fun _ _ hLookup => hLookup) rfl
  | tick outcome taken now =>
      exact timerMove_tick sys outcome taken now
  | deliverExit n now =>
      exact timerMove_deliverExit sys n now
  | expires m => exact timerMove_expires sys m
  | deliverTimeout m => exact timerMove_deliverTimeout sys m

end System

end Aps

end Inks

------------------------------------------------------------
-- The Timer Invariant
------------------------------------------------------------

namespace Inks

namespace Aps

namespace System

/- Exactly the entries of the fast lane own a timer. -/
def OwnsTimer
    (it : RunningJob) : Prop :=
  it.timer.isSome = true ↔ it.lane = .fast

/- Some timer of the start of the entry may still time out. -/
def Guarded
    (sys : System)
    (id : ByteString)
    (it : RunningJob) : Prop :=
  ∃ (m : Nat) (timer : TimerWait),
    sys.timers[m]? = some timer ∧
      timer.id = id ∧
      timer.start = it.start ∧
      timer.phase ≠ .delivered

/- Timers belong to starts in the fast lane. -/
def FromFastLane
    (starts : List Start)
    (timer : TimerWait) : Prop :=
  ∃ st, starts[timer.start]? = some st ∧ st.lane = .fast

structure TimerInv
    (sys : System) : Prop where
  entries : Scheduler.EntryInv sys.sched
  owned :
    Table.All (fun _ it => OwnsTimer it) sys.sched.running
  guarded :
    ∀ id it, sys.sched.running.lookup id = some it →
      it.lane = .fast → sys.Guarded id it
  fast :
    ∀ (m : Nat) (timer : TimerWait),
      sys.timers[m]? = some timer →
      FromFastLane sys.sched.starts timer

theorem TimerInv.new
    {pq : PendingQ}
    {storage : FinishedStorage}
    {lane : UInt64}
    {s : Scheduler}
    (hNew : Scheduler.new pq storage lane = .ok s) :
    TimerInv { sched := s } := by
  have hEntries := Scheduler.EntryInv.new hNew
  rcases Scheduler.new_eq_ok_iff.mp hNew with ⟨_, rfl⟩
  constructor
  · exact hEntries
  · exact Table.all_empty
  · intro id it hLookup
    simp at hLookup
  · intro m timer hTimer
    simp at hTimer

theorem FromFastLane.append
    {starts later : List Start}
    {timer : TimerWait}
    (hFast : FromFastLane starts timer) :
    FromFastLane (starts ++ later) timer := by
  rcases hFast with ⟨st, hStart, hLane⟩
  refine ⟨st, ?_, hLane⟩
  rw [List.getElem?_append_left
    (List.getElem?_eq_some_iff.mp hStart).1]
  exact hStart

/- The timers after one of them changed its phase. -/
theorem getElem?_setTimer
    {sys : System}
    {m k : Nat}
    {phase : TimerPhase}
    {timer : TimerWait}
    (hTimer : sys.timers[k]? = some timer) :
    (sys.setTimer m phase).timers[k]? =
      some
        (if m = k then { timer with phase := phase }
          else timer) := by
  simp only [setTimer, List.getElem?_modify, hTimer,
    Option.map_eq_map, Option.map_some]

theorem ownsTimer_newEntry
    (s : Scheduler)
    (pj : PendingJob)
    (pid now : Int) :
    OwnsTimer (s.newEntry pj pid now) := by
  unfold OwnsTimer Scheduler.newEntry start
  cases hLane : s.actualLane pj with
  | fast => simp [Scheduler.armTimer]
  | slow => simp [Scheduler.armTimer]

theorem guarded_armTimer
    {sys t : System}
    {pj : PendingJob}
    {id : ByteString}
    {it : RunningJob}
    (hTimers :
      t.timers =
        sys.armTimer pj.spec.id (sys.sched.actualLane pj))
    (hGuarded : sys.Guarded id it) :
    t.Guarded id it := by
  rcases hGuarded with ⟨m, timer, hTimer, hRest⟩
  refine ⟨m, timer, ?_, hRest⟩
  have hLt := (List.getElem?_eq_some_iff.mp hTimer).1
  rw [hTimers]
  unfold armTimer
  cases sys.sched.actualLane pj with
  | fast =>
      simp only
      rw [List.getElem?_append_left hLt]
      exact hTimer
  | slow => exact hTimer

theorem Guarded.setTimer
    {sys : System}
    {m : Nat}
    {timer : TimerWait}
    {phase : TimerPhase}
    {id : ByteString}
    {it : RunningJob}
    (hTimer : sys.timers[m]? = some timer)
    (hOpen : phase = .delivered → id ≠ timer.id)
    (hGuarded : sys.Guarded id it) :
    (sys.setTimer m phase).Guarded id it := by
  rcases hGuarded with ⟨k, guard, hGuard, hId, hStart, hWait⟩
  refine ⟨k, _, getElem?_setTimer hGuard, ?_⟩
  split
  · next hSame =>
      subst hSame
      rw [hTimer] at hGuard
      cases hGuard
      refine ⟨hId, hStart, ?_⟩
      intro hDone
      exact hOpen hDone hId.symm
  · exact ⟨hId, hStart, hWait⟩

theorem fast_setTimer
    {sys : System}
    (hFast :
      ∀ (m : Nat) (timer : TimerWait),
        sys.timers[m]? = some timer →
        FromFastLane sys.sched.starts timer)
    (m : Nat)
    (phase : TimerPhase) :
    ∀ (k : Nat) (timer : TimerWait),
      (sys.setTimer m phase).timers[k]? = some timer →
      FromFastLane sys.sched.starts timer := by
  intro k timer hTimer
  rcases setTimer_cases hTimer with
    hOld | ⟨old, rfl, hOld, rfl⟩
  · exact hFast k timer hOld
  · exact hFast k old hOld

/- What every event keeps. -/
theorem TimerInv.move
    {sys t : System}
    (hInv : TimerInv sys)
    (hEntries : Scheduler.EntryInv t.sched)
    (hMove : TimerMove sys t) :
    TimerInv t := by
  cases hMove with
  | keeps hStarts hRunning hTimers =>
      refine ⟨hEntries, ?_, ?_, ?_⟩
      · intro id it hLookup
        exact hInv.owned id it (hRunning id it hLookup)
      · intro id it hLookup hLane
        unfold Guarded
        rw [hTimers]
        exact hInv.guarded id it (hRunning id it hLookup)
          hLane
      · rw [hTimers, hStarts]
        exact hInv.fast
  | fires hTimer hLives =>
      refine ⟨hEntries, hInv.owned, ?_, ?_⟩
      · intro id it hLookup hLane
        apply Guarded.setTimer hTimer (by simp)
        exact hInv.guarded id it hLookup hLane
      · exact fast_setTimer hInv.fast _ _
  | delivers hTimer hStarts hRunning hTimers =>
      refine ⟨hEntries, ?_, ?_, ?_⟩
      · intro id it hLookup
        exact hInv.owned id it (hRunning id it hLookup).2
      · intro id it hLookup hLane
        have hBefore := hRunning id it hLookup
        unfold Guarded
        rw [hTimers]
        exact Guarded.setTimer hTimer (fun _ => hBefore.1)
          (hInv.guarded id it hBefore.2 hLane)
      · rw [hTimers, hStarts]
        exact fast_setTimer hInv.fast _ _
  | starts hStarts hRunning hTimers =>
      rename_i pj pid now
      refine ⟨hEntries, ?_, ?_, ?_⟩
      · rw [hRunning]
        apply Table.All.emplace hInv.owned
        intro _
        exact ownsTimer_newEntry _ pj pid now
      · intro id it hLookup hLane
        rw [hRunning] at hLookup
        rcases Table.lookup_emplace_cases hLookup with
          hOld | ⟨_, rfl, rfl⟩
        · exact guarded_armTimer hTimers
            (hInv.guarded id it hOld hLane)
        · have hFast : sys.sched.actualLane pj = .fast :=
            hLane
          refine
            ⟨sys.timers.length,
              { id := pj.spec.id
                start := sys.sched.starts.length },
              ?_, rfl, rfl, by simp⟩
          simp [hTimers, armTimer, hFast]
      · intro m timer hTimer
        rw [hStarts]
        rw [hTimers] at hTimer
        unfold armTimer at hTimer
        cases hLane : sys.sched.actualLane pj with
        | fast =>
            simp only [hLane] at hTimer
            rcases getElem?_concat_cases hTimer with
              hOld | ⟨_, rfl⟩
            · exact (hInv.fast m timer hOld).append
            · exact
                ⟨_, List.getElem?_concat_length, rfl⟩
        | slow =>
            simp only [hLane] at hTimer
            exact (hInv.fast m timer hTimer).append

theorem TimerInv.step
    {sys : System}
    (hInv : TimerInv sys)
    (event : SystemEvent) :
    TimerInv (sys.step event) :=
  hInv.move
    (invariant_step
      (fun _ inner hInner => hInner.step inner)
      hInv.entries event)
    (timerMove_step sys event)

end System

end Aps

end Inks

------------------------------------------------------------
-- Fast Jobs Are Guarded
------------------------------------------------------------

namespace Inks

namespace Aps

namespace System

/- A delivery that finds an entry times out its job. -/
theorem deliverTimeout_of_fired
    {sys : System}
    {m : Nat}
    {timer : TimerWait}
    {it : RunningJob}
    (hTimer : sys.timers[m]? = some timer)
    (hFired : timer.phase = .fired)
    (hLookup :
      sys.sched.running.lookup timer.id = some it) :
    (sys.deliverTimeout m).sched =
        sys.sched.handleTimeout timer.id ∧
      (sys.deliverTimeout m).procs =
        sys.procs.terminate it.pid := by
  simp [deliverTimeout, hTimer, hFired, hLookup]

/- The timer of a running start fires when its time is up. -/
theorem expires_of_lives
    {sys : System}
    {m : Nat}
    {timer : TimerWait}
    (hTimer : sys.timers[m]? = some timer)
    (hArmed : timer.phase = .armed)
    (hLives : sys.timerLives timer = true) :
    sys.expires m = sys.setTimer m .fired := by
  simp [expires, hTimer, hArmed, hLives]

theorem TimerInv.canTimeOut
    {sys : System}
    (hInv : TimerInv sys)
    {id : ByteString}
    {it : RunningJob}
    (hLookup : sys.sched.running.lookup id = some it)
    (hLane : it.lane = .fast) :
    sys.CanTimeOut id it := by
  rcases hInv.guarded id it hLookup hLane with
    ⟨m, timer, hTimer, rfl, hStart, hWait⟩
  have hRun :
      Transition.run System.step sys
          [.expires m, .deliverTimeout m] =
        (sys.expires m).deliverTimeout m := rfl
  refine ⟨m, timer, hTimer, rfl, hStart, hWait, ?_⟩
  simp only [hRun]
  cases hPhase : timer.phase with
  | delivered => exact absurd hPhase hWait
  | fired =>
      have hIdle : sys.expires m = sys := by
        simp [expires, hTimer, hPhase]
      have hDone :=
        deliverTimeout_of_fired hTimer hPhase hLookup
      rw [hIdle]
      exact hDone
  | armed =>
      have hOwns : it.timer.isSome = true :=
        (hInv.owned timer.id it hLookup).mpr hLane
      have hLives : sys.timerLives timer = true := by
        simp [timerLives, hLookup, hStart, hOwns]
      have hFires := expires_of_lives hTimer hPhase hLives
      have hThere :
          (sys.setTimer m .fired).timers[m]? =
            some { timer with phase := .fired } := by
        rw [getElem?_setTimer hTimer, if_pos rfl]
      have hDone :=
        deliverTimeout_of_fired hThere rfl
          (by simpa using hLookup)
      rw [hFires]
      simpa using hDone

/-
  In every state of every run, each job in the fast lane can
  still time out: its timer is armed, or has fired and waits
  for its delivery, whatever happened to other jobs, to its
  id and to late notifications. No job in the slow lane has
  a timer, so a slow job that hangs keeps its slot.
-/
theorem fast_jobs_guarded
    {pq : PendingQ}
    {storage : FinishedStorage}
    {lane : UInt64}
    {s : Scheduler}
    (hNew : Scheduler.new pq storage lane = .ok s)
    (events : List SystemEvent) :
    Transition.Always step FastGuarded { sched := s }
      events := by
  have hAlways :=
    Transition.always_of_step (TimerInv.new hNew)
      (fun _ event hInv => TimerInv.step hInv event) events
  intro past hPrefix
  have hInv := hAlways past hPrefix
  intro id it hLookup
  refine ⟨hInv.canTimeOut hLookup, ?_⟩
  intro hSlow m timer hTimer hSame
  rcases hInv.fast m timer hTimer with ⟨st, hStart, hFast⟩
  rcases hInv.entries id it hLookup with
    ⟨_, su, hMade, _, hLane, _⟩
  rw [hSame, hMade] at hStart
  cases hStart
  rw [hLane, hSlow] at hFast
  cases hFast

theorem fast_jobs_guarded_small :
    Transition.Always step FastGuarded
      { sched := Scheduler.small }
      [.push (smallJob 1 .fast), .tick (some 7) true 0,
        .expires 0, .push (smallJob 1 .fast),
        .tick none true 5] :=
  fast_jobs_guarded Scheduler.new_small _

end System

end Aps

end Inks

------------------------------------------------------------
-- When Timeouts Find Fast Jobs
------------------------------------------------------------

namespace Inks

namespace Aps

namespace System

/- A started job meets no old timeout, or is a fast one. -/
theorem fastTimeouts_starts_iff
    {sys t : System}
    {pj : PendingJob}
    {pid now : Int}
    (hFast : FastTimeouts sys)
    (hRunning :
      t.sched.running =
        sys.sched.running.emplace pj.spec.id
          (sys.sched.newEntry pj pid now))
    (hTimers :
      t.timers =
        sys.armTimer pj.spec.id
          (sys.sched.actualLane pj)) :
    FastTimeouts t ↔
      (pj.spec.id ∉ sys.sched.running →
        sys.sched.actualLane pj = .slow →
        ∀ (m : Nat) (timer : TimerWait),
          sys.timers[m]? = some timer →
          timer.phase = .fired →
          timer.id ≠ pj.spec.id) := by
  have hKept :
      ∀ (m : Nat) (timer : TimerWait),
        sys.timers[m]? = some timer →
        t.timers[m]? = some timer := by
    intro m timer hTimer
    have hLt := (List.getElem?_eq_some_iff.mp hTimer).1
    rw [hTimers]
    unfold armTimer
    cases sys.sched.actualLane pj with
    | fast =>
        simp only
        rw [List.getElem?_append_left hLt]
        exact hTimer
    | slow => exact hTimer
  have hAdded :
      ∀ (m : Nat) (timer : TimerWait),
        t.timers[m]? = some timer →
        timer.phase = .fired →
        sys.timers[m]? = some timer := by
    intro m timer hTimer hFired
    rw [hTimers] at hTimer
    unfold armTimer at hTimer
    cases hLane : sys.sched.actualLane pj with
    | slow => simpa [hLane] using hTimer
    | fast =>
        simp only [hLane] at hTimer
        rcases getElem?_concat_cases hTimer with
          hOld | ⟨_, rfl⟩
        · exact hOld
        · cases hFired
  constructor
  · intro hAfter hNotMem hSlow m timer hTimer hFired hSame
    have hLookup :
        t.sched.running.lookup timer.id =
          some (sys.sched.newEntry pj pid now) := by
      rw [hRunning, hSame]
      exact Table.lookup_emplace_of_notMem hNotMem
    have hLane :=
      hAfter m timer _ (hKept m timer hTimer) hFired hLookup
    have hNew :
        (sys.sched.newEntry pj pid now).lane =
          sys.sched.actualLane pj := rfl
    rw [hNew, hSlow] at hLane
    cases hLane
  · intro hQuiet m timer it hTimer hFired hLookup
    have hOld := hAdded m timer hTimer hFired
    rw [hRunning] at hLookup
    rcases Table.lookup_emplace_cases hLookup with
      hBefore | ⟨hNotMem, hSame, rfl⟩
    · exact hFast m timer it hOld hFired hBefore
    · have hNew :
          (sys.sched.newEntry pj pid now).lane =
            sys.sched.actualLane pj := rfl
      rw [hNew]
      cases hLane : sys.sched.actualLane pj with
      | fast => rfl
      | slow =>
          exact absurd hSame
            (hQuiet hNotMem hLane m timer hOld hFired)

theorem startsSlowQuiet_of_startsNothing
    (sys : System)
    {event : SystemEvent}
    (hNothing : startsNothing event = true) :
    StartsSlowQuiet sys event := by
  cases event <;> simp_all [startsNothing, StartsSlowQuiet]

theorem fastTimeouts_settles
    {sys : System}
    (hInv : TimerInv sys)
    (hFast : FastTimeouts sys)
    {event : SystemEvent}
    (hNothing : startsNothing event = true) :
    FastTimeouts (sys.step event) := by
  have hSettles := settles_step sys hNothing
  intro m timer it hTimer hFired hLookup
  have hBefore := hSettles.running timer.id it hLookup
  rcases hSettles.timers m timer hTimer with
    ⟨old, hOld, hId, _, hWhen⟩
  rw [← hId] at hBefore
  rcases hWhen hFired with hOldFired | hLives
  · exact hFast m old it hOld hOldFired hBefore
  · have hOwns : it.timer.isSome = true := by
      simp only [timerLives, hBefore, Bool.and_eq_true]
        at hLives
      exact hLives.2
    exact (hInv.owned _ it hBefore).mp hOwns

theorem fastTimeouts_step_iff
    {sys : System}
    (hInv : TimerInv sys)
    (hFast : FastTimeouts sys)
    (event : SystemEvent) :
    FastTimeouts (sys.step event) ↔
      StartsSlowQuiet sys event := by
  cases hNothing : startsNothing event with
  | true =>
      constructor
      · intro _
        exact startsSlowQuiet_of_startsNothing sys hNothing
      · intro _
        exact fastTimeouts_settles hInv hFast hNothing
  | false =>
      rcases eq_tick_of_startsNothing hNothing with
        ⟨outcome, taken, now, rfl⟩
      cases hAdmitted : sys.sched.admitted with
      | none =>
          simp only [step, tick_of_not_admitted hAdmitted,
            StartsSlowQuiet, hAdmitted]
          simpa using hFast
      | some pj =>
          rcases tick_of_admitted hAdmitted outcome taken now
            with ⟨_, hRunning, hTimers, _⟩
          simp only [step, StartsSlowQuiet, hAdmitted,
            Option.some.injEq, forall_eq']
          exact fastTimeouts_starts_iff hFast hRunning
            hTimers

/-
  "Should never happen by design": in every state of a run
  every timeout that is yet to be delivered finds its job in
  the fast lane, if it finds one, exactly when no tick of
  the run puts a job into the slow lane while a timeout for
  its id is yet to be delivered.
-/
theorem timeouts_fast_iff
    {pq : PendingQ}
    {storage : FinishedStorage}
    {lane : UInt64}
    {s : Scheduler}
    (hNew : Scheduler.new pq storage lane = .ok s)
    (events : List SystemEvent) :
    Transition.Always step FastTimeouts { sched := s }
        events ↔
      Transition.Along step StartsSlowQuiet { sched := s }
        events := by
  apply Transition.always_iff_along (TimerInv.new hNew)
  · intro m timer it hTimer
    simp at hTimer
  · intro _ event hInv
    exact hInv.step event
  · intro _ event hInv hFast
    exact fastTimeouts_step_iff hInv hFast event

theorem timeouts_fast_iff_small :
    Transition.Always step FastTimeouts
        { sched := Scheduler.small }
        [.push (smallJob 1 .fast), .tick (some 7) true 0] ↔
      Transition.Along step StartsSlowQuiet
        { sched := Scheduler.small }
        [.push (smallJob 1 .fast), .tick (some 7) true 0] :=
  timeouts_fast_iff Scheduler.new_small _

/-
  It happens: the exit of a job is delivered after its timer
  fired, and before the timeout the job comes back slow.
-/
example :
    ¬ FastTimeouts
      (Transition.run step { sched := Scheduler.small }
        [.push (smallJob 1 .fast), .tick (some 7) true 0,
          .expires 0, .ends 0 (.exited 0),
          .deliverExit 0 5, .push (smallJob 1 .slow),
          .tick (some 8) true 6]) := by
  intro hFast
  have hLane := hFast 0 { id := [1], start := 0, phase := .fired } _ rfl rfl rfl
  cases hLane

end System

end Aps

end Inks
