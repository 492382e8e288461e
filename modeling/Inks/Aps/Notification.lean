import Inks.Aps.System

/-
  Whether a notification acts only on the start that caused
  it. The handlers find a job by its id alone, so a late
  notification can meet the entry of another start.

  Key definitions include:
    * `Aps.System.Awaits`
    * `Aps.System.ActsOnOwn`
    * `Aps.System.StartsQuietId`
    * `Aps.System.OwnInv`
    * `Aps.System.Settles`

  Key theorems include:
    * `Aps.System.settles_step`
    * `Aps.System.ownInv_step_iff`
    * `Aps.System.notifications_act_on_own_iff`
-/

------------------------------------------------------------
-- Statements
------------------------------------------------------------

namespace Inks

namespace Aps

namespace System

/-
  The exit or the timeout of a start of the job is still to
  be delivered.
-/
def Awaits
    (sys : System)
    (id : ByteString)
    (start : Nat) : Prop :=
  (∃ n, n ∉ sys.delivered ∧
    sys.procs.callbacks[n]? = some (exitHandler id start)) ∨
  ∃ (m : Nat) (timer : TimerWait),
    sys.timers[m]? = some timer ∧
    timer.phase = .fired ∧
    timer.id = id ∧ timer.start = start

/-
  A delivery for one start that finds the entry of another
  start under its id leaves the scheduler as it is, and so
  the entry, its lane, the queue and the storage, and kills
  no process.
-/
def ActsOnOwn
    (sys : System) : SystemEvent → Prop
| .deliverExit n now =>
    ∀ id start it,
      sys.procs.callbacks[n]? =
        some (exitHandler id start) →
      sys.sched.running.lookup id = some it →
      it.start ≠ start →
        (sys.deliverExit n now).sched = sys.sched ∧
          (sys.deliverExit n now).procs = sys.procs
| .deliverTimeout m =>
    ∀ (timer : TimerWait) it,
      sys.timers[m]? = some timer →
      sys.sched.running.lookup timer.id = some it →
      it.start ≠ timer.start →
        (sys.deliverTimeout m).sched = sys.sched ∧
          (sys.deliverTimeout m).procs = sys.procs
| _ => True

/-
  A tick starts a job only when no notification of an
  earlier start of its id is awaited. Under an id that is
  still running it gets no process.
-/
def StartsQuietId
    (sys : System) : SystemEvent → Prop
| .tick outcome _ _ =>
    ∀ pj, sys.sched.admitted = some pj →
      (pj.spec.id ∈ sys.sched.running → outcome = none) ∧
      (pj.spec.id ∉ sys.sched.running →
        ∀ start, ¬ sys.Awaits pj.spec.id start)
| _ => True

def startsNothing : SystemEvent → Bool
| .tick _ _ _ => false
| _ => true

theorem eq_tick_of_startsNothing
    {event : SystemEvent}
    (hTick : startsNothing event = false) :
    ∃ outcome taken now,
      event = .tick outcome taken now := by
  cases event <;> simp_all [startsNothing]

theorem startsQuietId_of_startsNothing
    (sys : System)
    {event : SystemEvent}
    (hNothing : startsNothing event = true) :
    StartsQuietId sys event := by
  cases event <;> simp_all [startsNothing, StartsQuietId]

end System

end Aps

end Inks

------------------------------------------------------------
-- Steps That Start Nothing
------------------------------------------------------------

namespace Inks

namespace Aps

namespace Scheduler

/- All that is not a tick only takes entries away. -/
theorem step_only_removes
    (s : Scheduler)
    (event : Event)
    (hTick : ∀ pid now, event ≠ .tick pid now) :
    (s.step event).starts = s.starts ∧
      ∀ id it,
        (s.step event).running.lookup id = some it →
        s.running.lookup id = some it := by
  have hMove := step_move s event
  generalize s.step event = t at hMove ⊢
  cases hMove with
  | push pj => exact ⟨rfl, fun _ _ hLookup => hLookup⟩
  | stop => exact ⟨rfl, fun _ _ hLookup => hLookup⟩
  | idle pid now hNone => exact absurd rfl (hTick pid now)
  | start pj rest pid now hAdmitted hQueue =>
      exact absurd rfl (hTick pid now)
  | exit id it exitCode now hLookup =>
      refine ⟨by simp, ?_⟩
      intro other rj hOther
      exact (Table.lookup_erase_cases hOther).2
  | exitUnknown id exitCode now hLookup =>
      exact ⟨rfl, fun _ _ hOther => hOther⟩
  | timeout id it hLookup =>
      refine ⟨by simp, ?_⟩
      intro other rj hOther
      exact (Table.lookup_erase_cases hOther).2
  | timeoutUnknown id hLookup =>
      exact ⟨rfl, fun _ _ hOther => hOther⟩

end Scheduler

namespace System

/-
  What every event but a tick does: it starts nothing, and a
  timer fires only while its start has the entry.
-/
structure Settles
    (s t : System) : Prop where
  callbacks : t.procs.callbacks = s.procs.callbacks
  starts : t.sched.starts = s.sched.starts
  running :
    ∀ id it, t.sched.running.lookup id = some it →
      s.sched.running.lookup id = some it
  delivered :
    ∀ n, n ∈ s.delivered → n ∈ t.delivered
  newlyDelivered :
    ∀ n, n ∈ t.delivered →
      n ∈ s.delivered ∨ n < s.procs.callbacks.length
  timers :
    ∀ (m : Nat) (timer : TimerWait),
      t.timers[m]? = some timer →
      ∃ old : TimerWait, s.timers[m]? = some old ∧
        old.id = timer.id ∧ old.start = timer.start ∧
        (timer.phase = .fired →
          old.phase = .fired ∨ s.timerLives old = true)

theorem Settles.of_same
    {s t : System}
    (hCallbacks : t.procs.callbacks = s.procs.callbacks)
    (hStarts : t.sched.starts = s.sched.starts)
    (hRunning : t.sched.running = s.sched.running)
    (hDelivered : t.delivered = s.delivered)
    (hTimers : t.timers = s.timers) :
    Settles s t where
  callbacks := hCallbacks
  starts := hStarts
  running := by
    intro id it hLookup
    rw [hRunning] at hLookup
    exact hLookup
  delivered := by
    intro n hMem
    rw [hDelivered]
    exact hMem
  newlyDelivered := by
    intro n hMem
    rw [hDelivered] at hMem
    exact Or.inl hMem
  timers := by
    intro m timer hTimer
    rw [hTimers] at hTimer
    exact ⟨timer, hTimer, rfl, rfl, Or.inl⟩

theorem Settles.refl
    (s : System) :
    Settles s s :=
  Settles.of_same rfl rfl rfl rfl rfl

theorem settles_deliverExit
    (sys : System)
    (n : Nat)
    (now : Int) :
    Settles sys (sys.deliverExit n now) := by
  unfold deliverExit
  cases hChild : sys.procs.children[n]? with
  | none => exact Settles.refl sys
  | some child =>
      have hLt : n < sys.procs.callbacks.length := by
        unfold ProcessManager.callbacks
        rw [List.length_map]
        exact (List.getElem?_eq_some_iff.mp hChild).1
      have hNew :
          ∀ k, k ∈ n :: sys.delivered →
            k ∈ sys.delivered ∨
              k < sys.procs.callbacks.length := by
        intro k hMem
        rcases List.mem_cons.mp hMem with rfl | hOld
        · exact Or.inr hLt
        · exact Or.inl hOld
      simp only
      split
      · exact Settles.refl sys
      · cases child.onExit child.exitCode with
        | none =>
            exact
              { Settles.refl sys with
                delivered := fun _ => List.mem_cons_of_mem n
                newlyDelivered := hNew }
        | some call =>
            have hRemoves :=
              Scheduler.step_only_removes sys.sched
                (.exit call.id call.exitCode now) (by simp)
            exact
              { callbacks := rfl
                starts := hRemoves.1
                running := hRemoves.2
                delivered := fun _ => List.mem_cons_of_mem n
                newlyDelivered := hNew
                timers := (Settles.refl sys).timers }

/- A timer after one of the timers changed its phase. -/
theorem setTimer_cases
    {sys : System}
    {m k : Nat}
    {phase : TimerPhase}
    {timer : TimerWait}
    (hTimer :
      (sys.setTimer m phase).timers[k]? = some timer) :
    sys.timers[k]? = some timer ∨
      ∃ old, k = m ∧ sys.timers[m]? = some old ∧
        timer = { old with phase := phase } := by
  unfold setTimer at hTimer
  by_cases hEq : m = k
  · subst hEq
    rw [List.getElem?_modify_eq] at hTimer
    rcases Option.map_eq_some_iff.mp hTimer with
      ⟨old, hOld, hNew⟩
    exact Or.inr ⟨old, rfl, hOld, hNew.symm⟩
  · rw [List.getElem?_modify_ne _ _ hEq] at hTimer
    exact Or.inl hTimer

theorem settles_setTimer
    {sys : System}
    {m : Nat}
    {phase : TimerPhase}
    (hFires :
      ∀ timer, sys.timers[m]? = some timer →
        phase = .fired → sys.timerLives timer = true) :
    Settles sys (sys.setTimer m phase) := by
  have hFrame := sys.setTimer_frame m phase
  refine
    { Settles.refl sys with
      timers := ?_ }
  intro k timer hTimer
  rcases setTimer_cases hTimer with
    hOld | ⟨old, rfl, hOld, rfl⟩
  · exact ⟨timer, hOld, rfl, rfl, Or.inl⟩
  · refine ⟨old, hOld, rfl, rfl, ?_⟩
    intro hFired
    exact Or.inr (hFires old hOld hFired)

theorem settles_expires
    (sys : System)
    (m : Nat) :
    Settles sys (sys.expires m) := by
  unfold expires
  cases hTimer : sys.timers[m]? with
  | none => exact Settles.refl sys
  | some timer =>
      simp only
      split
      · rename_i hArmed
        apply settles_setTimer
        intro other hOther _
        rw [hTimer] at hOther
        cases hOther
        exact hArmed.2
      · exact Settles.refl sys

theorem settles_deliverTimeout
    (sys : System)
    (m : Nat) :
    Settles sys (sys.deliverTimeout m) := by
  unfold deliverTimeout
  cases hTimer : sys.timers[m]? with
  | none => exact Settles.refl sys
  | some timer =>
      have hSet :
          Settles sys (sys.setTimer m .delivered) := by
        apply settles_setTimer
        intro _ _ hFired
        cases hFired
      simp only [setTimer_frame]
      split
      · cases sys.sched.running.lookup timer.id with
        | none => exact hSet
        | some it =>
            have hRemoves :=
              Scheduler.step_only_removes sys.sched
                (.timeout timer.id) (by simp)
            refine
              { hSet with
                callbacks := ?_
                starts := hRemoves.1
                running := hRemoves.2 }
            exact
              (ProcessManager.Quieter.terminate
                sys.procs it.pid).callbacks
      · exact Settles.refl sys

theorem settles_step
    (sys : System)
    {event : SystemEvent}
    (hNothing : startsNothing event = true) :
    Settles sys (sys.step event) := by
  cases event with
  | tick outcome taken now => cases hNothing
  | push pj => exact Settles.of_same rfl rfl rfl rfl rfl
  | stop => exact Settles.of_same rfl rfl rfl rfl rfl
  | ends n ending =>
      refine Settles.of_same ?_ rfl rfl rfl rfl
      exact
        (ProcessManager.quieter_step sys.procs
          (.ends n ending) (by simp)).callbacks
  | reaps n =>
      refine Settles.of_same ?_ rfl rfl rfl rfl
      exact
        (ProcessManager.quieter_step sys.procs
          (.reaps n) (by simp)).callbacks
  | deliverExit n now => exact settles_deliverExit sys n now
  | expires m => exact settles_expires sys m
  | deliverTimeout m => exact settles_deliverTimeout sys m

end System

end Aps

end Inks

------------------------------------------------------------
-- Steps That Start a Job
------------------------------------------------------------

namespace Inks

namespace Aps

namespace System

/- What a tick does that starts a job. -/
structure Launches
    (s : System)
    (pj : PendingJob)
    (outcome : Option Nat)
    (t : System) : Prop where
  callbacks :
    t.procs.callbacks =
      s.procs.callbacks ++
        match outcome with
        | none => []
        | some _ =>
            [exitHandler pj.spec.id s.sched.starts.length]
  running :
    ∃ rj : RunningJob,
      rj.start = s.sched.starts.length ∧
        t.sched.running =
          s.sched.running.emplace pj.spec.id rj
  starts :
    t.sched.starts.length = s.sched.starts.length + 1
  delivered : t.delivered = s.delivered
  timersKept :
    ∀ (m : Nat) (timer : TimerWait),
      s.timers[m]? = some timer →
      t.timers[m]? = some timer
  timersAdded :
    ∀ (m : Nat) (timer : TimerWait),
      t.timers[m]? = some timer →
      s.timers[m]? = some timer ∨
        (timer.phase = .armed ∧
          timer.start = s.sched.starts.length)

theorem callbacks_spawn_outcome
    (pm : ProcessManager ExitCall)
    (opts : ProcessOptions)
    (id : ByteString)
    (start : Nat)
    (outcome : Option Nat)
    (taken : Bool) :
    (pm.spawn opts (some (exitCallback id start))
        outcome taken).2.callbacks =
      pm.callbacks ++
        match outcome with
        | none => []
        | some _ => [exitHandler id start] := by
  cases outcome with
  | none =>
      rw [List.append_nil]
      rfl
  | some pid =>
      exact ProcessManager.callbacks_spawn pm opts _ pid
        taken

theorem launches_tick
    {sys : System}
    {pj : PendingJob}
    (hAdmitted : sys.sched.admitted = some pj)
    (outcome : Option Nat)
    (taken : Bool)
    (now : Int) :
    Launches sys pj outcome
      (sys.tick outcome taken now) := by
  simp only [tick, hAdmitted]
  constructor
  · exact callbacks_spawn_outcome _ _ _ _ _ _
  · rcases Scheduler.runLoop_of_admitted hAdmitted
      (sys.procs.spawn pj.spec.opts
        (some (exitCallback pj.spec.id
          sys.sched.starts.length)) outcome taken).1 now
      with ⟨rest, _, hRun⟩
    rw [hRun]
    simp only [Scheduler.schedule_frame]
    exact ⟨_, rfl, rfl⟩
  · rw [Scheduler.runLoop_starts hAdmitted]
    simp
  · rfl
  · intro m timer hTimer
    have hLt := (List.getElem?_eq_some_iff.mp hTimer).1
    unfold armTimer
    cases sys.sched.actualLane pj with
    | fast =>
        simp only
        rw [List.getElem?_append_left hLt]
        exact hTimer
    | slow => exact hTimer
  · intro m timer hTimer
    unfold armTimer at hTimer
    cases hLane : sys.sched.actualLane pj with
    | fast =>
        simp only [hLane] at hTimer
        rcases getElem?_concat_cases hTimer with
          hOld | ⟨_, rfl⟩
        · exact Or.inl hOld
        · exact Or.inr ⟨rfl, rfl⟩
    | slow =>
        simp only [hLane] at hTimer
        exact Or.inl hTimer

/- An idle tick changes nothing. -/
theorem tick_of_not_admitted
    {sys : System}
    (hNone : sys.sched.admitted = none)
    (outcome : Option Nat)
    (taken : Bool)
    (now : Int) :
    sys.tick outcome taken now = sys := by
  simp only [tick, hNone,
    Scheduler.runLoop_of_not_admitted hNone]

end System

end Aps

end Inks

------------------------------------------------------------
-- What Is Known of the Starts
------------------------------------------------------------

namespace Inks

namespace Aps

namespace System

/-
  Entries, callbacks and timers belong to starts that have
  happened, and only exits of children are delivered.
-/
structure KnownInv
    (sys : System) : Prop where
  entries : Scheduler.EntryInv sys.sched
  callbacks :
    ∀ (n : Nat) id start,
      sys.procs.callbacks[n]? =
        some (exitHandler id start) →
      start < sys.sched.starts.length
  timers :
    ∀ (m : Nat) (timer : TimerWait),
      sys.timers[m]? = some timer →
      timer.start < sys.sched.starts.length
  delivered :
    ∀ n, n ∈ sys.delivered →
      n < sys.procs.callbacks.length

theorem KnownInv.new
    {pq : PendingQ}
    {storage : FinishedStorage}
    {lane : UInt64}
    {s : Scheduler}
    (hNew : Scheduler.new pq storage lane = .ok s) :
    KnownInv { sched := s } where
  entries := Scheduler.EntryInv.new hNew
  callbacks := by
    intro n id start hCallback
    simp [ProcessManager.callbacks] at hCallback
  timers := by
    intro m timer hTimer
    simp at hTimer
  delivered := by
    intro n hMem
    simp at hMem

theorem KnownInv.settles
    {s t : System}
    (hKnown : KnownInv s)
    (hEntries : Scheduler.EntryInv t.sched)
    (hSettles : Settles s t) :
    KnownInv t where
  entries := hEntries
  callbacks := by
    intro n id start hCallback
    rw [hSettles.callbacks] at hCallback
    rw [hSettles.starts]
    exact hKnown.callbacks n id start hCallback
  timers := by
    intro m timer hTimer
    rcases hSettles.timers m timer hTimer with
      ⟨old, hOld, _, hStart, _⟩
    rw [hSettles.starts, ← hStart]
    exact hKnown.timers m old hOld
  delivered := by
    intro n hMem
    rw [hSettles.callbacks]
    rcases hSettles.newlyDelivered n hMem with hOld | hNew
    · exact hKnown.delivered n hOld
    · exact hNew

theorem KnownInv.launches
    {s t : System}
    {pj : PendingJob}
    {outcome : Option Nat}
    (hKnown : KnownInv s)
    (hEntries : Scheduler.EntryInv t.sched)
    (hLaunches : Launches s pj outcome t) :
    KnownInv t where
  entries := hEntries
  callbacks := by
    intro n id start hCallback
    rw [hLaunches.callbacks] at hCallback
    rw [hLaunches.starts]
    cases outcome with
    | none =>
        rw [List.append_nil] at hCallback
        have hLt := hKnown.callbacks n id start hCallback
        omega
    | some pid =>
        rcases getElem?_concat_cases hCallback with
          hOld | ⟨_, hNew⟩
        · have hLt := hKnown.callbacks n id start hOld
          omega
        · rw [(exitHandler_inj hNew).2]
          omega
  timers := by
    intro m timer hTimer
    rw [hLaunches.starts]
    rcases hLaunches.timersAdded m timer hTimer with
      hOld | ⟨_, hStart⟩
    · have hLt := hKnown.timers m timer hOld
      omega
    · omega
  delivered := by
    intro n hMem
    rw [hLaunches.delivered] at hMem
    rw [hLaunches.callbacks, List.length_append]
    have hLt := hKnown.delivered n hMem
    omega

theorem KnownInv.step
    {sys : System}
    (hKnown : KnownInv sys)
    (event : SystemEvent) :
    KnownInv (sys.step event) := by
  have hEntries : Scheduler.EntryInv (sys.step event).sched :=
    invariant_step
      (fun _ inner hInner => hInner.step inner)
      hKnown.entries event
  cases hNothing : startsNothing event with
  | true =>
      exact hKnown.settles hEntries
        (settles_step sys hNothing)
  | false =>
      rcases eq_tick_of_startsNothing hNothing with
        ⟨outcome, taken, now, rfl⟩
      cases hAdmitted : sys.sched.admitted with
      | none =>
          simp only [System.step,
            tick_of_not_admitted hAdmitted]
          exact hKnown
      | some pj =>
          exact hKnown.launches hEntries
            (launches_tick hAdmitted outcome taken now)

end System

end Aps

end Inks

------------------------------------------------------------
-- Notifications of the Running Start
------------------------------------------------------------

namespace Inks

namespace Aps

namespace System

/-
  Whatever notification is awaited for an id, the entry
  under this id, if there is one, is of the same start.
-/
def OwnInv
    (sys : System) : Prop :=
  ∀ id start it, sys.Awaits id start →
    sys.sched.running.lookup id = some it →
    it.start = start

theorem OwnInv.new
    {pq : PendingQ}
    {storage : FinishedStorage}
    {lane : UInt64}
    {s : Scheduler}
    (hNew : Scheduler.new pq storage lane = .ok s) :
    OwnInv { sched := s } := by
  rcases Scheduler.new_eq_ok_iff.mp hNew with ⟨_, rfl⟩
  intro id start it _ hLookup
  simp at hLookup

theorem OwnInv.settles
    {s t : System}
    (hOwn : OwnInv s)
    (hSettles : Settles s t) :
    OwnInv t := by
  intro id start it hAwaits hLookup
  have hBefore := hSettles.running id it hLookup
  rcases hAwaits with
    ⟨n, hWaiting, hCallback⟩ | ⟨m, timer, hTimer, hFired,
      rfl, rfl⟩
  · apply hOwn id start it _ hBefore
    refine Or.inl ⟨n, ?_, ?_⟩
    · intro hMem
      exact hWaiting (hSettles.delivered n hMem)
    · rw [← hSettles.callbacks]
      exact hCallback
  · rcases hSettles.timers m timer hTimer with
      ⟨old, hOld, hId, hStart, hWhen⟩
    rcases hWhen hFired with hOldFired | hLives
    · apply hOwn timer.id timer.start it _ hBefore
      exact Or.inr ⟨m, old, hOld, hOldFired, hId, hStart⟩
    · unfold timerLives at hLives
      rw [hId, hBefore] at hLives
      simp only [Bool.and_eq_true, beq_iff_eq] at hLives
      exact hLives.1.trans hStart

/- What is awaited after a job was started. -/
theorem awaits_launches
    {s t : System}
    {pj : PendingJob}
    {outcome : Option Nat}
    (hLaunches : Launches s pj outcome t)
    {id : ByteString}
    {start : Nat}
    (hAwaits : t.Awaits id start) :
    s.Awaits id start ∨
      (outcome ≠ none ∧ id = pj.spec.id ∧
        start = s.sched.starts.length) := by
  rcases hAwaits with
    ⟨n, hWaiting, hCallback⟩ | ⟨m, timer, hTimer, hFired,
      rfl, rfl⟩
  · rw [hLaunches.delivered] at hWaiting
    rw [hLaunches.callbacks] at hCallback
    cases outcome with
    | none =>
        rw [List.append_nil] at hCallback
        exact Or.inl (Or.inl ⟨n, hWaiting, hCallback⟩)
    | some pid =>
        rcases getElem?_concat_cases hCallback with
          hOld | ⟨_, hNew⟩
        · exact Or.inl (Or.inl ⟨n, hWaiting, hOld⟩)
        · rcases exitHandler_inj hNew with ⟨hId, hStart⟩
          exact Or.inr ⟨by simp, hId, hStart⟩
  · rcases hLaunches.timersAdded m timer hTimer with
      hOld | ⟨hArmed, _⟩
    · exact Or.inl
        (Or.inr ⟨m, timer, hOld, hFired, rfl, rfl⟩)
    · rw [hArmed] at hFired
      cases hFired

/- What was awaited before a start is awaited after it. -/
theorem Awaits.launches
    {s t : System}
    {pj : PendingJob}
    {outcome : Option Nat}
    (hLaunches : Launches s pj outcome t)
    {id : ByteString}
    {start : Nat}
    (hAwaits : s.Awaits id start) :
    t.Awaits id start := by
  rcases hAwaits with
    ⟨n, hWaiting, hCallback⟩ | ⟨m, timer, hTimer, hRest⟩
  · refine Or.inl ⟨n, ?_, ?_⟩
    · rw [hLaunches.delivered]
      exact hWaiting
    · have hLt := (List.getElem?_eq_some_iff.mp hCallback).1
      rw [hLaunches.callbacks,
        List.getElem?_append_left hLt]
      exact hCallback
  · exact Or.inr
      ⟨m, timer, hLaunches.timersKept m timer hTimer,
        hRest⟩

/- The exit of a process that was started is awaited. -/
theorem awaits_new
    {s t : System}
    {pj : PendingJob}
    {pid : Nat}
    (hKnown : KnownInv s)
    (hLaunches : Launches s pj (some pid) t) :
    t.Awaits pj.spec.id s.sched.starts.length := by
  refine Or.inl ⟨s.procs.callbacks.length, ?_, ?_⟩
  · rw [hLaunches.delivered]
    intro hMem
    have hLt := hKnown.delivered _ hMem
    omega
  · rw [hLaunches.callbacks]
    exact List.getElem?_concat_length

/-
  A started job owns all the notifications for its id when
  the id was quiet, and not otherwise.
-/
theorem ownInv_launches_iff
    {s t : System}
    {pj : PendingJob}
    {outcome : Option Nat}
    (hKnown : KnownInv s)
    (hOwn : OwnInv s)
    (hLaunches : Launches s pj outcome t) :
    OwnInv t ↔
      (pj.spec.id ∈ s.sched.running → outcome = none) ∧
        (pj.spec.id ∉ s.sched.running →
          ∀ start, ¬ s.Awaits pj.spec.id start) := by
  rcases hLaunches.running with ⟨rj, hNew, hRunning⟩
  constructor
  · intro hAfter
    constructor
    · intro hMem
      rcases Table.exists_lookup_of_mem hMem with
        ⟨it, hLookup⟩
      have hLt : it.start < s.sched.starts.length :=
        (hKnown.entries _ it hLookup).start_lt
      cases outcome with
      | none => rfl
      | some pid =>
          have hLater :
              t.sched.running.lookup pj.spec.id =
                some it := by
            rw [hRunning]
            exact Table.lookup_emplace_of_lookup hLookup
          have hSame :=
            hAfter _ _ it (awaits_new hKnown hLaunches)
              hLater
          omega
    · intro hNotMem start hAwaits
      have hLookup :
          t.sched.running.lookup pj.spec.id = some rj := by
        rw [hRunning]
        exact Table.lookup_emplace_of_notMem hNotMem
      have hSame :=
        hAfter _ _ rj (hAwaits.launches hLaunches) hLookup
      have hLt : start < s.sched.starts.length := by
        rcases hAwaits with
          ⟨n, _, hCallback⟩ | ⟨m, timer, hTimer, _, _, rfl⟩
        · exact hKnown.callbacks n _ start hCallback
        · exact hKnown.timers m timer hTimer
      omega
  · rintro ⟨hBusy, hQuiet⟩ id start it hAwaits hLookup
    rw [hRunning] at hLookup
    rcases Table.lookup_emplace_cases hLookup with
      hOld | ⟨hNotMem, rfl, rfl⟩
    · rcases awaits_launches hLaunches hAwaits with
        hBefore | ⟨hSpawned, rfl, _⟩
      · exact hOwn id start it hBefore hOld
      · exact absurd
          (hBusy (Table.mem_of_lookup hOld)) hSpawned
    · rcases awaits_launches hLaunches hAwaits with
        hBefore | ⟨_, _, rfl⟩
      · exact absurd hBefore (hQuiet hNotMem start)
      · exact hNew

theorem ownInv_step_iff
    {sys : System}
    (hKnown : KnownInv sys)
    (hOwn : OwnInv sys)
    (event : SystemEvent) :
    OwnInv (sys.step event) ↔ StartsQuietId sys event := by
  cases hNothing : startsNothing event with
  | true =>
      constructor
      · intro _
        exact startsQuietId_of_startsNothing sys hNothing
      · intro _
        exact hOwn.settles (settles_step sys hNothing)
  | false =>
      rcases eq_tick_of_startsNothing hNothing with
        ⟨outcome, taken, now, rfl⟩
      cases hAdmitted : sys.sched.admitted with
      | none =>
          simp only [step, tick_of_not_admitted hAdmitted,
            StartsQuietId, hAdmitted]
          simpa using hOwn
      | some pj =>
          simp only [step, StartsQuietId, hAdmitted,
            Option.some.injEq, forall_eq']
          exact ownInv_launches_iff hKnown hOwn
            (launches_tick hAdmitted outcome taken now)

/- Then every delivery acts on the start it belongs to. -/
theorem OwnInv.actsOnOwn
    {sys : System}
    (hOwn : OwnInv sys)
    (event : SystemEvent) :
    ActsOnOwn sys event := by
  cases event with
  | deliverExit n now =>
      intro id start it hCallback hLookup hOther
      by_cases hDelivered : n ∈ sys.delivered
      · unfold deliverExit
        cases sys.procs.children[n]? with
        | none => exact ⟨rfl, rfl⟩
        | some child => simp [hDelivered]
      · have hAwaits : sys.Awaits id start :=
          Or.inl ⟨n, hDelivered, hCallback⟩
        exact absurd (hOwn id start it hAwaits hLookup)
          hOther
  | deliverTimeout m =>
      intro timer it hTimer hLookup hOther
      by_cases hFired : timer.phase = .fired
      · have hAwaits : sys.Awaits timer.id timer.start :=
          Or.inr ⟨m, timer, hTimer, hFired, rfl, rfl⟩
        exact absurd
          (hOwn timer.id timer.start it hAwaits hLookup)
          hOther
      · simp [deliverTimeout, hTimer, hFired]
  | tick outcome taken now => trivial
  | push pj => trivial
  | stop => trivial
  | ends n ending => trivial
  | reaps n => trivial
  | expires m => trivial

end System

end Aps

end Inks

------------------------------------------------------------
-- When Notifications Act on Their Own Start
------------------------------------------------------------

namespace Inks

namespace Aps

namespace Scheduler

/- Taking an entry away changes the scheduler. -/
theorem ne_of_running_erase
    {s t : Scheduler}
    {id : ByteString}
    {it : RunningJob}
    (hLookup : s.running.lookup id = some it)
    (hErased : t.running = s.running.erase id) :
    t ≠ s := by
  rintro rfl
  have hGone := AList.lookup_erase (s := t.running) id
  rw [← hErased, hLookup] at hGone
  cases hGone

theorem handleExit_ne
    {s : Scheduler}
    {id : ByteString}
    {it : RunningJob}
    (hLookup : s.running.lookup id = some it)
    (exitCode now : Int) :
    s.handleExit id exitCode now ≠ s := by
  apply ne_of_running_erase hLookup
  rw [handleExit_of_lookup hLookup]

theorem handleTimeout_ne
    {s : Scheduler}
    {id : ByteString}
    {it : RunningJob}
    (hLookup : s.running.lookup id = some it) :
    s.handleTimeout id ≠ s := by
  apply ne_of_running_erase hLookup
  rw [handleTimeout_of_lookup hLookup]

end Scheduler

namespace System

/-
  A process whose exit is awaited while another start has
  the entry can end, and its exit then hits that entry.
-/
theorem exit_misdelivered
    {sys : System}
    {n : Nat}
    {id : ByteString}
    {start : Nat}
    {it : RunningJob}
    (hWaiting : n ∉ sys.delivered)
    (hCallback :
      sys.procs.callbacks[n]? =
        some (exitHandler id start))
    (hLookup : sys.sched.running.lookup id = some it)
    (hOther : it.start ≠ start) :
    ¬ Transition.Along step ActsOnOwn sys
      [.ends n (.exited 0), .deliverExit n 0] := by
  intro hAlong
  rw [Transition.along_cons_iff,
    Transition.along_cons_iff] at hAlong
  have hSettles :
      Settles sys (sys.step (.ends n (.exited 0))) :=
    settles_step sys rfl
  have hSame :=
    (hAlong.2.1 id start it
      (hSettles.callbacks.symm ▸ hCallback)
      hLookup hOther).1
  unfold ProcessManager.callbacks at hCallback
  rw [List.getElem?_map] at hCallback
  rcases Option.map_eq_some_iff.mp hCallback with
    ⟨child, hChild, hHandler⟩
  have hEnded :
      (sys.step (.ends n (.exited 0))).procs.children[n]? =
        some (child.ends (.exited 0)) := by
    simp only [step, ProcessManager.step,
      List.getElem?_modify_eq, hChild, Option.map_eq_map,
      Option.map_some]
  have hKept :
      (child.ends (.exited 0)).onExit =
        exitHandler id start :=
    (Child.ends_frame _ _).2.trans hHandler
  rw [sched_deliverExit hEnded
    (Child.ends_not_running _ _) hWaiting hKept] at hSame
  exact Scheduler.handleExit_ne hLookup _ _ hSame

theorem timeout_misdelivered
    {sys : System}
    {m : Nat}
    {timer : TimerWait}
    {it : RunningJob}
    (hTimer : sys.timers[m]? = some timer)
    (hFired : timer.phase = .fired)
    (hLookup :
      sys.sched.running.lookup timer.id = some it)
    (hOther : it.start ≠ timer.start) :
    ¬ Transition.Along step ActsOnOwn sys
      [.deliverTimeout m] := by
  intro hAlong
  rw [Transition.along_cons_iff] at hAlong
  have hSame :=
    (hAlong.1 timer it hTimer hLookup hOther).1
  simp only [deliverTimeout, hTimer, hFired, if_true,
    setTimer_frame, hLookup] at hSame
  exact Scheduler.handleTimeout_ne hLookup hSame

/-
  Once a notification is awaited that is not for the start
  of the entry, nothing more has to be started for it to act
  on the entry.
-/
theorem misdelivered_of_not_ownInv
    {sys : System}
    (hNot : ¬ OwnInv sys) :
    ∃ later : List SystemEvent,
      (∀ event ∈ later, startsNothing event = true) ∧
        ¬ Transition.Along step ActsOnOwn sys later := by
  simp only [OwnInv, not_forall] at hNot
  rcases hNot with
    ⟨id, start, it, hAwaits, hLookup, hOther⟩
  rcases hAwaits with
    ⟨n, hWaiting, hCallback⟩ | ⟨m, timer, hTimer, hFired,
      rfl, rfl⟩
  · exact
      ⟨_, by simp [startsNothing],
        exit_misdelivered hWaiting hCallback hLookup
          hOther⟩
  · exact
      ⟨_, by simp [startsNothing],
        timeout_misdelivered hTimer hFired hLookup
          hOther⟩

/-
  Every notification acts on its own start, in a run and
  however a part of the run goes on without new starts.
-/
def AllActOnOwn
    (sys : System)
    (events : List SystemEvent) : Prop :=
  ∀ past later, past <+: events →
    (∀ event ∈ later, startsNothing event = true) →
    Transition.Along step ActsOnOwn sys (past ++ later)

/-
  Every notification acts only on the start that caused it
  exactly in the runs in which no tick starts a job while a
  notification of an earlier start of its id is awaited, and
  none gets a process under an id that is still running.
-/
theorem notifications_act_on_own_iff
    {pq : PendingQ}
    {storage : FinishedStorage}
    {lane : UInt64}
    {s : Scheduler}
    (hNew : Scheduler.new pq storage lane = .ok s)
    (events : List SystemEvent) :
    AllActOnOwn { sched := s } events ↔
      Transition.Along step StartsQuietId { sched := s }
        events := by
  have hOwn :
      ∀ run, Transition.Always step OwnInv { sched := s }
          run ↔
        Transition.Along step StartsQuietId { sched := s }
          run :=
    Transition.always_iff_along (KnownInv.new hNew)
      (OwnInv.new hNew)
      (fun _ event hKnown => hKnown.step event)
      (fun _ event hKnown hOwn =>
        ownInv_step_iff hKnown hOwn event)
  constructor
  · intro hAll
    apply (hOwn events).mp
    intro past hPrefix
    by_contra hNot
    rcases misdelivered_of_not_ownInv hNot with
      ⟨later, hNothing, hWrong⟩
    exact hWrong
      (Transition.along_append_iff.mp
        (hAll past later hPrefix hNothing)).2
  · intro hQuiet past later hPrefix hNothing
    have hRun :
        Transition.Along step StartsQuietId { sched := s }
          (past ++ later) := by
      refine Transition.along_append_iff.mpr
        ⟨hQuiet.of_prefix hPrefix, ?_⟩
      intro earlier event hEarlier
      apply startsQuietId_of_startsNothing
      apply hNothing
      exact hEarlier.subset (by simp)
    intro earlier event hEarlier
    have hThen :=
      (hOwn _).mpr hRun earlier
        ((List.prefix_append _ _).trans hEarlier)
    exact hThen.actsOnOwn event

/- The second start waits for the exit of the first one. -/
theorem notifications_act_on_own_iff_small :
    let events : List SystemEvent :=
      [.push (smallJob 1 .fast), .tick (some 7) true 0,
        .expires 0, .deliverTimeout 0, .deliverExit 0 2,
        .tick (some 8) true 3, .ends 1 (.exited 0),
        .deliverExit 1 5]
    AllActOnOwn { sched := Scheduler.small } events ↔
      Transition.Along step StartsQuietId
        { sched := Scheduler.small } events :=
  notifications_act_on_own_iff Scheduler.new_small _

/-
  A job times out, is killed and started again. Then the
  exit of the process that was killed arrives, and takes the
  entry of the second start away.
-/
theorem notification_of_other_start :
    ¬ Transition.Along step ActsOnOwn
      { sched := Scheduler.small }
      [.push (smallJob 1 .fast), .tick (some 7) true 0,
        .expires 0, .deliverTimeout 0,
        .tick (some 8) true 1, .deliverExit 0 2] := by
  intro hAlong
  have hExit :=
    hAlong
      [.push (smallJob 1 .fast), .tick (some 7) true 0,
        .expires 0, .deliverTimeout 0,
        .tick (some 8) true 1]
      (.deliverExit 0 2) (List.prefix_refl _)
  have hSame :=
    (hExit [1] 0 _ rfl rfl (by decide)).1
  have hFast := congrArg Scheduler.runningSlow hSame
  revert hFast
  decide

end System

end Aps

end Inks
