import Inks.Aps.Processes
import Mathlib.Algebra.Order.Group.Multiset

/-
  The handlers that the scheduler leaves in the process
  manager. It spawns a process for each start, but it never
  waits for one: only the timeout of a job terminates its
  process and so gives the handler up. The handler of a job
  that ends by itself stays in the table.

  Key definitions include:
    * `Aps.System.startedPids`, `Aps.System.killedPids`
    * `Aps.System.HandlerMove`
    * `Aps.System.HandlerInv`

  Key theorems include:
    * `Aps.System.handlerMove_step`
    * `Aps.System.HandlerInv.move`
    * `Aps.System.handlers_until_timeout`
-/

------------------------------------------------------------
-- Statements
------------------------------------------------------------

namespace Inks

namespace Aps

namespace System

/- The pids in the table of the process manager. -/
def handlerPids
    (sys : System) : Multiset Int :=
  (sys.procs.handlers.keys : Multiset Int)

/- Those that are pids, and not a failed start. -/
def processPids
    (pids : List Int) : Multiset Int :=
  ((pids.filter (· ≠ -1) : List Int) : Multiset Int)

/- The pids of all starts that got a process. -/
def startedPids
    (sys : System) : Multiset Int :=
  processPids (sys.sched.starts.map Start.pid)

/- The pids of all processes that a timeout terminated. -/
def killedPids
    (sys : System) : Multiset Int :=
  processPids sys.sched.terminated

/- What a step can do to entries and handlers. -/
inductive HandlerMove
    (sys t : System) : Prop where
| keeps
    (hStarted : t.startedPids = sys.startedPids)
    (hKilled : t.killedPids = sys.killedPids)
    (hPids : t.handlerPids = sys.handlerPids)
    (hRunning :
      ∀ id it, t.sched.running.lookup id = some it →
        sys.sched.running.lookup id = some it)
| fails
    {id : ByteString}
    {entry : RunningJob}
    (hPid : entry.pid = -1)
    (hStarted : t.startedPids = sys.startedPids)
    (hKilled : t.killedPids = sys.killedPids)
    (hPids : t.handlerPids = sys.handlerPids)
    (hRunning :
      t.sched.running = sys.sched.running.emplace id entry)
| starts
    {id : ByteString}
    {entry : RunningJob}
    (hFresh : entry.pid ∉ sys.handlerPids)
    (hStarted :
      t.startedPids = entry.pid ::ₘ sys.startedPids)
    (hKilled : t.killedPids = sys.killedPids)
    (hPids :
      t.handlerPids = entry.pid ::ₘ sys.handlerPids)
    (hRunning :
      t.sched.running = sys.sched.running.emplace id entry)
| kills
    {id : ByteString}
    {it : RunningJob}
    (hLookup : sys.sched.running.lookup id = some it)
    (hStarted : t.startedPids = sys.startedPids)
    (hKilled :
      t.killedPids =
        if it.pid = -1 then
          sys.killedPids
        else
          it.pid ::ₘ sys.killedPids)
    (hPids :
      t.handlerPids = sys.handlerPids.erase it.pid)
    (hRunning :
      t.sched.running = sys.sched.running.erase id)

/-
  Running entries have handlers, each its own, and every pid
  started is in the table until it is killed.
-/
structure HandlerInv
    (sys : System) : Prop where
  handled :
    ∀ id it, sys.sched.running.lookup id = some it →
      it.pid ≠ -1 → it.pid ∈ sys.handlerPids
  apart :
    ∀ id it other it',
      sys.sched.running.lookup id = some it →
      sys.sched.running.lookup other = some it' →
      it.pid ≠ -1 → it.pid = it'.pid → id = other
  balance :
    sys.handlerPids + sys.killedPids = sys.startedPids

end System

end Aps

end Inks

------------------------------------------------------------
-- Moves of the System
------------------------------------------------------------

namespace Inks

/- Terminating a pid takes its handler out of the table. -/
theorem ProcessManager.keys_terminate
    {ε : Type}
    (pm : ProcessManager ε)
    (pid : Int) :
    (pm.terminate pid).handlers.keys =
      pm.handlers.keys.erase pid := by
  unfold ProcessManager.terminate ProcessManager.findHandler
    ProcessManager.removeHandler
  cases hLookup : pm.handlers.lookup pid with
  | none =>
      have hNotMem : pid ∉ pm.handlers.keys := by
        rw [← AList.mem_keys]
        exact AList.lookup_eq_none.mp hLookup
      simp [List.erase_of_not_mem hNotMem]
  | some h => simp [hLookup, AList.keys_erase]

namespace Aps

namespace System

theorem processPids_concat
    (pids : List Int)
    (pid : Int) :
    processPids (pids ++ [pid]) =
      if pid = -1 then
        processPids pids
      else
        pid ::ₘ processPids pids := by
  unfold processPids
  by_cases hPid : pid = -1
  · simp [hPid]
  · rw [if_neg hPid, Multiset.cons_coe, Multiset.coe_eq_coe,
      List.filter_append]
    simp [hPid, List.perm_append_singleton]

/- Most of a system has to do with neither of them. -/
theorem HandlerMove.frame
    {sys t : System}
    (hStarts : t.sched.starts = sys.sched.starts)
    (hTerminated :
      t.sched.terminated = sys.sched.terminated)
    (hRunning :
      ∀ id it, t.sched.running.lookup id = some it →
        sys.sched.running.lookup id = some it)
    (hHandlers : t.procs.handlers = sys.procs.handlers) :
    HandlerMove sys t := by
  refine .keeps ?_ ?_ ?_ hRunning
  · simp only [startedPids, hStarts]
  · simp only [killedPids, hTerminated]
  · simp only [handlerPids, hHandlers]

theorem HandlerMove.same
    {sys t : System}
    (hSched : t.sched = sys.sched)
    (hHandlers : t.procs.handlers = sys.procs.handlers) :
    HandlerMove sys t := by
  refine HandlerMove.frame ?_ ?_ ?_ hHandlers <;>
    simp [hSched]

theorem handlerMove_tick
    {sys : System}
    {outcome : Option Nat}
    {taken : Bool}
    {now : Int}
    (hFresh :
      SpawnsFreshPid sys (.tick outcome taken now)) :
    HandlerMove sys (sys.tick outcome taken now) := by
  cases hAdmitted : sys.sched.admitted with
  | none =>
      rw [tick_of_not_admitted hAdmitted]
      exact HandlerMove.same rfl rfl
  | some pj =>
      rcases tick_of_admitted hAdmitted outcome taken now
        with ⟨hStarts, hRunning, _, hProcs, _⟩
      have hTerminated :
          (sys.tick outcome taken now).sched.terminated =
            sys.sched.terminated := by
        simp only [tick, hAdmitted]
        rcases Scheduler.runLoop_of_admitted hAdmitted
          (sys.spawned pj outcome taken).1 now with
          ⟨rest, _, hRun⟩
        unfold spawned at hRun
        rw [hRun]
        simp
      have hKilled :
          (sys.tick outcome taken now).killedPids =
            sys.killedPids := by
        simp only [killedPids, hTerminated]
      cases outcome with
      | none =>
          refine .fails ?_ ?_ hKilled ?_ hRunning
          · rfl
          · rw [startedPids, hStarts, List.map_append]
            exact
              (processPids_concat _ _).trans (if_pos rfl)
          · simp only [handlerPids, hProcs]
            rfl
      | some pid =>
          have hNotMem : (pid : Int) ∉ sys.procs.handlers :=
            hFresh (by simp [hAdmitted])
          have hSpawn :=
            ProcessManager.spawn_of_fresh hNotMem
              pj.spec.opts
              (some (exitCallback pj.spec.id
                sys.sched.starts.length)) taken
          unfold spawned at hStarts hRunning hProcs
          rw [hSpawn] at hStarts hRunning hProcs
          refine .starts ?_ ?_ hKilled ?_ hRunning
          · exact fun hMem => hNotMem (AList.mem_keys.mpr hMem)
          · have hPid : (pid : Int) ≠ -1 := by omega
            rw [startedPids, hStarts, List.map_append]
            exact
              (processPids_concat _ _).trans (if_neg hPid)
          · simp only [handlerPids, hProcs]
            exact Table.keys_emplace_of_notMem hNotMem

theorem handlerMove_deliverExit
    (sys : System)
    (n : Nat)
    (now : Int) :
    HandlerMove sys (sys.deliverExit n now) := by
  unfold deliverExit
  cases sys.procs.children[n]? with
  | none => exact HandlerMove.same rfl rfl
  | some child =>
      simp only
      split
      · exact HandlerMove.same rfl rfl
      · cases child.onExit child.exitCode with
        | none => exact HandlerMove.same rfl rfl
        | some call =>
            rcases (sys.sched.running.lookup
              call.id).eq_none_or_eq_some with
              hNone | ⟨it, hSome⟩
            · exact
                HandlerMove.same
                  (Scheduler.handleExit_of_not_running hNone
                    _ _) rfl
            · simp only [Scheduler.handleExit_of_lookup hSome]
              refine HandlerMove.frame ?_ ?_ ?_ rfl
              · simp
              · simp
              · intro id other hOther
                exact (Table.lookup_erase_cases hOther).2

theorem handlerMove_expires
    (sys : System)
    (m : Nat) :
    HandlerMove sys (sys.expires m) := by
  unfold expires
  cases sys.timers[m]? with
  | none => exact HandlerMove.same rfl rfl
  | some timer =>
      simp only
      split <;> exact HandlerMove.same rfl rfl

theorem handlerMove_deliverTimeout
    (sys : System)
    (m : Nat) :
    HandlerMove sys (sys.deliverTimeout m) := by
  unfold deliverTimeout
  cases sys.timers[m]? with
  | none => exact HandlerMove.same rfl rfl
  | some timer =>
      simp only [setTimer_frame]
      split
      · rcases (sys.sched.running.lookup
          timer.id).eq_none_or_eq_some with
          hNone | ⟨it, hSome⟩
        · simp only [hNone]
          exact HandlerMove.same rfl rfl
        · simp only [hSome]
          refine .kills hSome ?_ ?_ ?_ ?_
          · simp [startedPids,
              Scheduler.handleTimeout_of_lookup hSome]
          · simp only [killedPids,
              Scheduler.handleTimeout_of_lookup hSome]
            exact processPids_concat _ _
          · simp only [handlerPids,
              ProcessManager.keys_terminate]
            rfl
          · simp [Scheduler.handleTimeout_of_lookup hSome]
      · exact HandlerMove.same rfl rfl

theorem handlerMove_step
    (sys : System)
    (event : SystemEvent)
    (hFresh : SpawnsFreshPid sys event) :
    HandlerMove sys (sys.step event) := by
  cases event with
  | push pj =>
      exact
        HandlerMove.frame rfl rfl
          (fun _ _ hLookup => hLookup) rfl
  | stop =>
      exact
        HandlerMove.frame rfl rfl
          (fun _ _ hLookup => hLookup) rfl
  | ends n ending => exact HandlerMove.same rfl rfl
  | reaps n => exact HandlerMove.same rfl rfl
  | tick outcome taken now => exact handlerMove_tick hFresh
  | deliverExit n now =>
      exact handlerMove_deliverExit sys n now
  | expires m => exact handlerMove_expires sys m
  | deliverTimeout m =>
      exact handlerMove_deliverTimeout sys m

end System

end Aps

end Inks

------------------------------------------------------------
-- Balance
------------------------------------------------------------

namespace Inks

namespace Aps

namespace System

/- The pids in the table are those of processes. -/
theorem HandlerInv.not_mem_failed
    {sys : System}
    (hInv : HandlerInv sys) :
    (-1 : Int) ∉ sys.handlerPids := by
  intro hMem
  have hStarted : (-1 : Int) ∈ sys.startedPids := by
    rw [← hInv.balance]
    exact Multiset.mem_add.mpr (Or.inl hMem)
  simp [startedPids, processPids] at hStarted

/- It is kept where no entry with a process is new. -/
theorem HandlerInv.of_old
    {sys t : System}
    (hInv : HandlerInv sys)
    (hStarted : t.startedPids = sys.startedPids)
    (hKilled : t.killedPids = sys.killedPids)
    (hPids : t.handlerPids = sys.handlerPids)
    (hOld :
      ∀ id it, t.sched.running.lookup id = some it →
        it.pid ≠ -1 →
        sys.sched.running.lookup id = some it) :
    HandlerInv t := by
  constructor
  · intro id it hLookup hPid
    rw [hPids]
    exact hInv.handled id it (hOld id it hLookup hPid) hPid
  · intro id it other it' hLookup hOther hPid hSame
    exact
      hInv.apart id it other it' (hOld id it hLookup hPid)
        (hOld other it' hOther (hSame ▸ hPid)) hPid hSame
  · rw [hPids, hKilled, hStarted]
    exact hInv.balance

theorem HandlerInv.move
    {sys t : System}
    (hInv : HandlerInv sys)
    (hMove : HandlerMove sys t) :
    HandlerInv t := by
  cases hMove with
  | keeps hStarted hKilled hPids hRunning =>
      refine hInv.of_old hStarted hKilled hPids ?_
      intro id it hLookup _
      exact hRunning id it hLookup
  | fails hFailed hStarted hKilled hPids hRunning =>
      refine hInv.of_old hStarted hKilled hPids ?_
      intro other it hLookup hPid
      rw [hRunning] at hLookup
      rcases Table.lookup_emplace_cases hLookup with
        hOld | ⟨_, _, rfl⟩
      · exact hOld
      · exact absurd hFailed hPid
  | @starts id entry hFresh hStarted hKilled hPids
      hRunning =>
      -- No old entry has the new pid: it would be handled.
      have hCases :
          ∀ other it,
            t.sched.running.lookup other = some it →
            it.pid ≠ -1 →
            (sys.sched.running.lookup other = some it ∧
                it.pid ≠ entry.pid) ∨
              (other = id ∧ it = entry) := by
        intro other it hLookup hPid
        rw [hRunning] at hLookup
        rcases Table.lookup_emplace_cases hLookup with
          hOld | ⟨_, hKey, hEntry⟩
        · refine Or.inl ⟨hOld, ?_⟩
          intro hSame
          apply hFresh
          rw [← hSame]
          exact hInv.handled other it hOld hPid
        · exact Or.inr ⟨hKey, hEntry⟩
      constructor
      · intro other it hLookup hPid
        rw [hPids]
        rcases hCases other it hLookup hPid with
          ⟨hOld, _⟩ | ⟨_, rfl⟩
        · exact
            Multiset.mem_cons_of_mem
              (hInv.handled other it hOld hPid)
        · exact Multiset.mem_cons_self _ _
      · intro other it third it' hLookup hThird hPid hSame
        rcases hCases other it hLookup hPid with
          ⟨hOld, hNe⟩ | ⟨rfl, rfl⟩
        · rcases hCases third it' hThird (hSame ▸ hPid) with
            ⟨hOld', _⟩ | ⟨_, rfl⟩
          · exact
              hInv.apart other it third it' hOld hOld' hPid
                hSame
          · exact absurd hSame hNe
        · rcases hCases third it' hThird (hSame ▸ hPid) with
            ⟨_, hNe⟩ | ⟨hKey, _⟩
          · exact absurd hSame.symm hNe
          · exact hKey.symm
      · rw [hPids, hKilled, hStarted, Multiset.cons_add,
          hInv.balance]
  | @kills id it hLookup hStarted hKilled hPids hRunning =>
      have hOthers :
          ∀ other it',
            t.sched.running.lookup other = some it' →
            other ≠ id ∧
              sys.sched.running.lookup other = some it' := by
        intro other it' hOther
        rw [hRunning] at hOther
        exact Table.lookup_erase_cases hOther
      constructor
      · intro other it' hOther hPid
        rcases hOthers other it' hOther with ⟨hNe, hOld⟩
        have hMem := hInv.handled other it' hOld hPid
        rw [hPids]
        refine (Multiset.mem_erase_of_ne ?_).mpr hMem
        intro hSame
        exact hNe (hInv.apart other it' id it hOld hLookup
          hPid hSame)
      · intro other it' third it'' hOther hThird
        exact
          hInv.apart other it' third it''
            (hOthers other it' hOther).2
            (hOthers third it'' hThird).2
      · rw [hPids, hKilled, hStarted]
        by_cases hFailed : it.pid = -1
        · rw [if_pos hFailed, hFailed,
            Multiset.erase_of_notMem hInv.not_mem_failed]
          exact hInv.balance
        · have hMem := hInv.handled id it hLookup hFailed
          rw [if_neg hFailed, Multiset.add_cons,
            ← Multiset.cons_add, Multiset.cons_erase hMem]
          exact hInv.balance

theorem HandlerInv.new
    {pq : PendingQ}
    {storage : FinishedStorage}
    {lane : UInt64}
    {s : Scheduler}
    (hNew : Scheduler.new pq storage lane = .ok s) :
    HandlerInv { sched := s } := by
  rcases Scheduler.new_eq_ok_iff.mp hNew with ⟨_, rfl⟩
  constructor
  · intro id it hLookup
    cases hLookup
  · intro id it other it' hLookup
    cases hLookup
  · rfl

/-
  Handlers are given up by timeouts alone. In a run in which
  no process gets a pid that still has a handler, the table
  of the process manager holds at any time the pids of all
  processes that were ever started, without those that the
  timeout of their job terminated: no exit takes a handler
  out of it.
-/
theorem handlers_until_timeout
    {pq : PendingQ}
    {storage : FinishedStorage}
    {lane : UInt64}
    {s : Scheduler}
    (hNew : Scheduler.new pq storage lane = .ok s)
    {events : List SystemEvent}
    (hFresh :
      Transition.Along step SpawnsFreshPid { sched := s }
        events) :
    Transition.Always step
      (fun sys =>
        sys.handlerPids + sys.killedPids = sys.startedPids)
      { sched := s } events := by
  have hAlways :
      Transition.Always step HandlerInv { sched := s }
        events := by
    refine
      Transition.always_of_along (HandlerInv.new hNew) ?_
        hFresh
    intro sys event hInv hHere
    exact hInv.move (handlerMove_step sys event hHere)
  intro past hPrefix
  exact (hAlways past hPrefix).balance

/- A job that ends by itself, and one that times out. -/
theorem handlers_until_timeout_small :
    Transition.Always step
      (fun sys =>
        sys.handlerPids + sys.killedPids = sys.startedPids)
      { sched := Scheduler.small }
      [.push (smallJob 1 .fast), .tick (some 7) true 0,
        .expires 0, .deliverTimeout 0,
        .tick (some 8) true 0, .ends 1 (.exited 0),
        .deliverExit 1 0] := by
  apply handlers_until_timeout Scheduler.new_small
  simp only [Transition.along_cons_iff]
  refine
    ⟨trivial, ?_, trivial, trivial, ?_, trivial, trivial,
      Transition.along_nil _⟩
  · intro _
    decide
  · intro _
    decide

end System

end Aps

end Inks
