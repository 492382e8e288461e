import Inks.Aps.Station
import Inks.Aps.Timers
import Inks.Process.LiveTable

/-
  The processes that the scheduler has running. As long as
  no job starts while an earlier start of its id may still
  be notified, and no process gets a pid that the process
  manager still has a handler for, each running process is
  the one of a running job, under its slot.

  Key definitions include:
    * `Aps.System.SpawnsFreshPid`
    * `Aps.System.Owned`
    * `Aps.System.liveProcesses`
    * `Aps.System.ProcessInv`

  Key theorems include:
    * `Aps.System.ProcessInv.step`
    * `Aps.System.liveProcesses_le_busy`
    * `Aps.System.processes_within_lanes`
-/

------------------------------------------------------------
-- Statements
------------------------------------------------------------

namespace Inks

namespace Aps

namespace System

/- The pid given to the process of a job has no handler. -/
def SpawnsFreshPid
    (sys : System) : SystemEvent → Prop
| .tick (some pid) _ _ =>
    sys.sched.admitted ≠ none →
      (pid : Int) ∉ sys.procs.handlers
| _ => True

/- Child `n` is the process of the entry under an id. -/
def OwnedBy
    (sys : System)
    (child : Child ExitCall)
    (id : ByteString)
    (it : RunningJob) : Prop :=
  sys.sched.running.lookup id = some it ∧
    child.onExit = exitHandler id it.start ∧
    child.pid = it.pid

/- Every running process is the process of some entry. -/
def Owned
    (sys : System) : Prop :=
  ∀ (n : Nat) child, sys.procs.children[n]? = some child →
    child.phase = .running →
    ∃ id it, sys.OwnedBy child id it

def liveProcesses
    (sys : System) : Nat :=
  sys.procs.children.countP
    (fun child => child.phase == .running)

/- What holds in a run whose starts are kept apart. -/
structure ProcessInv
    (sys : System) : Prop where
  known : KnownInv sys
  own : OwnInv sys
  table : sys.procs.TableInv
  lanes : Scheduler.LaneInv sys.sched
  distinct : sys.procs.callbacks.Nodup
  handlers :
    ∀ callback ∈ sys.procs.callbacks,
      ∃ id start, callback = exitHandler id start
  owned : sys.Owned

end System

end Aps

end Inks

------------------------------------------------------------
-- The Process Table
------------------------------------------------------------

namespace Inks

namespace Aps

namespace System

/- Without a start processes only end. -/
theorem quieter_step
    (sys : System)
    {event : SystemEvent}
    (hNothing : startsNothing event = true) :
    ProcessManager.Quieter sys.procs
      (sys.step event).procs := by
  cases event with
  | tick outcome taken now => cases hNothing
  | push pj => exact ProcessManager.Quieter.refl _
  | stop => exact ProcessManager.Quieter.refl _
  | ends n ending =>
      exact ProcessManager.quieter_step sys.procs
        (.ends n ending) (by simp)
  | reaps n =>
      exact ProcessManager.quieter_step sys.procs
        (.reaps n) (by simp)
  | expires m =>
      have hSame : (sys.expires m).procs = sys.procs := by
        unfold expires
        cases sys.timers[m]? with
        | none => rfl
        | some timer =>
            simp only
            split <;> simp
      simp only [step, hSame]
      exact ProcessManager.Quieter.refl _
  | deliverExit n now =>
      have hSame :
          (sys.deliverExit n now).procs = sys.procs := by
        unfold deliverExit
        cases sys.procs.children[n]? with
        | none => rfl
        | some child =>
            simp only
            split
            · rfl
            · cases child.onExit child.exitCode <;> rfl
      simp only [step, hSame]
      exact ProcessManager.Quieter.refl _
  | deliverTimeout m =>
      simp only [step, deliverTimeout]
      cases sys.timers[m]? with
      | none => exact ProcessManager.Quieter.refl _
      | some timer =>
          simp only [setTimer_frame]
          split
          · cases sys.sched.running.lookup timer.id with
            | none =>
                simp only [setTimer_frame]
                exact ProcessManager.Quieter.refl _
            | some it =>
                exact ProcessManager.Quieter.terminate _ _
          · exact ProcessManager.Quieter.refl _

/- What a running process keeps when nothing starts. -/
theorem runs_before
    {sys : System}
    {event : SystemEvent}
    (hNothing : startsNothing event = true)
    {n : Nat}
    {child : Child ExitCall}
    (hChild :
      (sys.step event).procs.children[n]? = some child)
    (hRunning : child.phase = .running) :
    sys.procs.children[n]? = some child :=
  (quieter_step sys hNothing).running n child hChild
    hRunning

theorem getElem?_callbacks
    {sys : System}
    {n : Nat}
    {child : Child ExitCall}
    (hChild : sys.procs.children[n]? = some child) :
    sys.procs.callbacks[n]? = some child.onExit := by
  unfold ProcessManager.callbacks
  rw [List.getElem?_map, hChild]
  rfl

end System

end Aps

end Inks

------------------------------------------------------------
-- Deliveries
------------------------------------------------------------

namespace Inks

namespace Aps

namespace System

/- The exit of a process does not hit another process. -/
theorem owned_deliverExit
    {sys : System}
    (hInv : ProcessInv sys)
    (k : Nat)
    (now : Int) :
    (sys.step (.deliverExit k now)).Owned := by
  intro n child hChild hRunning
  have hBefore := runs_before rfl hChild hRunning
  rcases hInv.owned n child hBefore hRunning with
    ⟨id, it, hLookup, hCallback, hPid⟩
  refine ⟨id, it, ?_, hCallback, hPid⟩
  simp only [step, deliverExit]
  cases hEnded : sys.procs.children[k]? with
  | none => exact hLookup
  | some ended =>
      simp only
      split
      · exact hLookup
      · next hDue =>
          rcases not_or.mp hDue with ⟨hPhase, hWaiting⟩
          have hAt := getElem?_callbacks hEnded
          rcases hInv.handlers _
            (List.mem_of_getElem? hAt) with
            ⟨other, start, hHandler⟩
          have hCall :
              ended.onExit ended.exitCode =
                some (exitCallback other start
                  ended.exitCode) := by
            rw [hHandler]
            rfl
          simp only [hCall]
          by_cases hSame : other = id
          · -- Then both are the process of this entry.
            subst hSame
            have hStart :=
              hInv.own other start it
                (Or.inl ⟨k, hWaiting, hHandler ▸ hAt⟩)
                hLookup
            have hThere := getElem?_callbacks hBefore
            rw [hCallback, hStart, ← hHandler] at hThere
            have hLt :=
              (List.getElem?_eq_some_iff.mp hAt).1
            have hEq : k = n :=
              (List.getElem?_inj hLt hInv.distinct).mp
                (hAt.trans hThere.symm)
            subst hEq
            rw [hBefore] at hEnded
            cases hEnded
            exact absurd hRunning hPhase
          · rcases (sys.sched.running.lookup
              other).eq_none_or_eq_some with
              hNone | ⟨found, hSome⟩
            · simp only [exitCallback,
                Scheduler.handleExit_of_not_running hNone]
              exact hLookup
            · simp only [exitCallback,
                Scheduler.handleExit_of_lookup hSome]
              rw [AList.lookup_erase_ne (Ne.symm hSame)]
              exact hLookup

/- The timeout of a job ends the process of the job. -/
theorem owned_deliverTimeout
    {sys : System}
    (hInv : ProcessInv sys)
    (m : Nat) :
    (sys.step (.deliverTimeout m)).Owned := by
  intro n child hChild hRunning
  have hBefore := runs_before rfl hChild hRunning
  rcases hInv.owned n child hBefore hRunning with
    ⟨id, it, hLookup, hCallback, hPid⟩
  refine ⟨id, it, ?_, hCallback, hPid⟩
  simp only [step, deliverTimeout] at hChild ⊢
  cases hTimer : sys.timers[m]? with
  | none => exact hLookup
  | some timer =>
      simp only [hTimer, setTimer_frame] at hChild ⊢
      by_cases hFired : timer.phase = .fired
      · rcases (sys.sched.running.lookup
          timer.id).eq_none_or_eq_some with
          hNone | ⟨found, hSome⟩
        · simp only [hFired, if_true, hNone, setTimer_frame]
          exact hLookup
        · simp only [hFired, if_true, hSome] at hChild ⊢
          simp only [Scheduler.handleTimeout_of_lookup hSome]
          by_cases hSame : id = timer.id
          · -- Then its process was terminated.
            subst hSame
            rw [hLookup] at hSome
            cases hSome
            rcases hInv.table.found n child hBefore
              hRunning with ⟨h, hFound, hProc⟩
            rcases hInv.table.last child.pid h hFound with
              ⟨k, hK, hLast⟩
            rw [hProc] at hK
            cases hK
            have hKilled :=
              (hInv.table.terminatesLast
                (.terminate child.pid)).1 n child hLast
                hBefore hRunning
            rw [hPid] at hKilled
            rw [hKilled] at hChild
            rw [← Option.some.inj hChild] at hRunning
            exact absurd hRunning
              (Child.wait_not_running _ _)
          · rw [AList.lookup_erase_ne hSame]
            exact hLookup
      · simp only [if_neg hFired]
        exact hLookup

/- No event but a tick leaves a process without its job. -/
theorem owned_settles
    {sys : System}
    (hInv : ProcessInv sys)
    {event : SystemEvent}
    (hNothing : startsNothing event = true) :
    (sys.step event).Owned := by
  have hSame :
      (sys.step event).sched.running =
          sys.sched.running →
        (sys.step event).Owned := by
    intro hRunning n child hChild hPhase
    rcases hInv.owned n child
      (runs_before hNothing hChild hPhase) hPhase with
      ⟨id, it, hLookup, hRest⟩
    refine ⟨id, it, ?_, hRest⟩
    rw [hRunning]
    exact hLookup
  cases event with
  | tick outcome taken now => cases hNothing
  | push pj => exact hSame rfl
  | stop => exact hSame rfl
  | ends n ending => exact hSame rfl
  | reaps n => exact hSame rfl
  | deliverExit n now => exact owned_deliverExit hInv n now
  | deliverTimeout m => exact owned_deliverTimeout hInv m
  | expires m =>
      apply hSame
      simp only [step, expires]
      cases sys.timers[m]? with
      | none => rfl
      | some timer =>
          simp only
          split <;> simp

end System

end Aps

end Inks

------------------------------------------------------------
-- Starts
------------------------------------------------------------

namespace Inks

namespace Aps

namespace System

/- A job that starts owns the process that it gets. -/
theorem owned_tick
    {sys : System}
    (hInv : ProcessInv sys)
    {outcome : Option Nat}
    {taken : Bool}
    {now : Int}
    (hQuiet :
      StartsQuietId sys (.tick outcome taken now))
    (hFresh :
      SpawnsFreshPid sys (.tick outcome taken now)) :
    (sys.tick outcome taken now).Owned := by
  cases hAdmitted : sys.sched.admitted with
  | none =>
      rw [tick_of_not_admitted hAdmitted]
      exact hInv.owned
  | some pj =>
      rcases tick_of_admitted hAdmitted outcome taken now
        with ⟨_, hRunning, _, hProcs, _⟩
      intro n child hChild hPhase
      have hKept :
          sys.procs.children[n]? = some child →
            ∃ id it,
              (sys.tick outcome taken now).OwnedBy child id
                it := by
        intro hBefore
        rcases hInv.owned n child hBefore hPhase with
          ⟨id, it, hLookup, hRest⟩
        refine ⟨id, it, ?_, hRest⟩
        rw [hRunning]
        exact Table.lookup_emplace_of_lookup hLookup
      rw [hProcs] at hChild
      cases outcome with
      | none => exact hKept hChild
      | some pid =>
          have hFreshPid : (pid : Int) ∉ sys.procs.handlers :=
            hFresh (by simp [hAdmitted])
          have hNotMem :
              pj.spec.id ∉ sys.sched.running := by
            intro hMem
            have hNone := (hQuiet pj hAdmitted).1 hMem
            cases hNone
          unfold spawned at hChild hRunning
          rw [ProcessManager.spawn_of_fresh hFreshPid]
            at hChild hRunning
          rcases getElem?_concat_cases hChild with
            hBefore | ⟨_, rfl⟩
          · exact hKept hBefore
          · refine
              ⟨pj.spec.id, sys.sched.newEntry pj pid now,
                ?_, rfl, rfl⟩
            rw [hRunning]
            exact Table.lookup_emplace_of_notMem hNotMem

/- The exit handler of a new process is a new one. -/
theorem distinct_tick
    {sys : System}
    (hInv : ProcessInv sys)
    (outcome : Option Nat)
    (taken : Bool)
    (now : Int) :
    (sys.tick outcome taken now).procs.callbacks.Nodup ∧
      ∀ callback ∈
          (sys.tick outcome taken now).procs.callbacks,
        ∃ id start, callback = exitHandler id start := by
  cases hAdmitted : sys.sched.admitted with
  | none =>
      rw [tick_of_not_admitted hAdmitted]
      exact ⟨hInv.distinct, hInv.handlers⟩
  | some pj =>
      have hLaunches :=
        launches_tick hAdmitted outcome taken now
      rw [hLaunches.callbacks]
      cases outcome with
      | none =>
          rw [List.append_nil]
          exact ⟨hInv.distinct, hInv.handlers⟩
      | some pid =>
          constructor
          · rw [List.nodup_append_comm, List.singleton_append,
              List.nodup_cons]
            refine ⟨?_, hInv.distinct⟩
            intro hMem
            rcases List.mem_iff_getElem?.mp hMem with
              ⟨n, hAt⟩
            have hLt := hInv.known.callbacks n _ _ hAt
            omega
          · intro callback hMem
            rcases List.mem_append.mp hMem with hOld | hNew
            · exact hInv.handlers callback hOld
            · exact ⟨_, _, List.mem_singleton.mp hNew⟩

/- The table of the process manager after an event. -/
theorem table_step
    {sys : System}
    (hInv : ProcessInv sys)
    (event : SystemEvent)
    (hFresh : SpawnsFreshPid sys event) :
    (sys.step event).procs.TableInv := by
  cases hNothing : startsNothing event with
  | true =>
      exact hInv.table.quieter (quieter_step sys hNothing)
  | false =>
      rcases eq_tick_of_startsNothing hNothing with
        ⟨outcome, taken, now, rfl⟩
      cases hAdmitted : sys.sched.admitted with
      | none =>
          simp only [step, tick_of_not_admitted hAdmitted]
          exact hInv.table
      | some pj =>
          rcases tick_of_admitted hAdmitted outcome taken
            now with ⟨_, _, _, hProcs, _⟩
          simp only [step, hProcs]
          apply hInv.table.step
            (.spawn pj.spec.opts
              (some (exitCallback pj.spec.id
                sys.sched.starts.length)) outcome taken)
          cases outcome with
          | none => trivial
          | some pid => exact hFresh (by simp [hAdmitted])

/- A tick keeps its starts apart from what is awaited. -/
def StartsApart
    (sys : System)
    (event : SystemEvent) : Prop :=
  StartsQuietId sys event ∧ SpawnsFreshPid sys event

theorem ProcessInv.new
    {pq : PendingQ}
    {storage : FinishedStorage}
    {lane : UInt64}
    {s : Scheduler}
    (hNew : Scheduler.new pq storage lane = .ok s) :
    ProcessInv { sched := s } where
  known := KnownInv.new hNew
  own := OwnInv.new hNew
  table := ProcessManager.TableInv.empty
  lanes := Scheduler.LaneInv.new hNew
  distinct := List.nodup_nil
  handlers := by
    intro callback hMem
    simp [ProcessManager.callbacks] at hMem
  owned := by
    intro n child hChild
    simp at hChild

theorem ProcessInv.step
    {sys : System}
    (hInv : ProcessInv sys)
    (event : SystemEvent)
    (hApart : StartsApart sys event) :
    ProcessInv (sys.step event) := by
  have hLanes : Scheduler.LaneInv (sys.step event).sched :=
    invariant_step
      (fun _ inner hInner => hInner.step inner)
      hInv.lanes event
  have hOwn : OwnInv (sys.step event) :=
    (ownInv_step_iff hInv.known hInv.own event).mpr
      hApart.1
  have hTable := table_step hInv event hApart.2
  cases hNothing : startsNothing event with
  | true =>
      have hCallbacks :=
        (settles_step sys hNothing).callbacks
      exact
        { known := hInv.known.step event
          own := hOwn
          table := hTable
          lanes := hLanes
          distinct := by
            rw [hCallbacks]
            exact hInv.distinct
          handlers := by
            rw [hCallbacks]
            exact hInv.handlers
          owned := owned_settles hInv hNothing }
  | false =>
      rcases eq_tick_of_startsNothing hNothing with
        ⟨outcome, taken, now, rfl⟩
      have hDistinct := distinct_tick hInv outcome taken now
      exact
        { known := hInv.known.step _
          own := hOwn
          table := hTable
          lanes := hLanes
          distinct := hDistinct.1
          handlers := hDistinct.2
          owned := owned_tick hInv hApart.1 hApart.2 }

end System

end Aps

end Inks

------------------------------------------------------------
-- Counting Processes
------------------------------------------------------------

namespace Inks

namespace Aps

namespace System

/- The id of the job that a process was started for. -/
def jobId
    (child : Child ExitCall) : ByteString :=
  match child.onExit 0 with
  | none => []
  | some call => call.id

theorem jobId_of_ownedBy
    {sys : System}
    {child : Child ExitCall}
    {id : ByteString}
    {it : RunningJob}
    (hOwned : sys.OwnedBy child id it) :
    jobId child = id := by
  unfold jobId
  rw [hOwned.2.1]
  rfl

/- Two running processes are processes of different jobs. -/
theorem jobId_inj
    {sys : System}
    (hInv : ProcessInv sys)
    {child other : Child ExitCall}
    (hChild : child ∈ sys.procs.children)
    (hOther : other ∈ sys.procs.children)
    (hRunning : child.phase = .running)
    (hOtherRunning : other.phase = .running)
    (hSame : jobId child = jobId other) :
    child = other := by
  rcases List.mem_iff_getElem?.mp hChild with ⟨n, hAt⟩
  rcases List.mem_iff_getElem?.mp hOther with ⟨k, hThere⟩
  rcases hInv.owned n child hAt hRunning with
    ⟨id, it, hOwned⟩
  rcases hInv.owned k other hThere hOtherRunning with
    ⟨id', it', hOwned'⟩
  rw [jobId_of_ownedBy hOwned, jobId_of_ownedBy hOwned']
    at hSame
  subst hSame
  have hEntry := hOwned.1.symm.trans hOwned'.1
  cases hEntry
  have hCallback : child.onExit = other.onExit := by
    rw [hOwned.2.1, hOwned'.2.1]
  exact List.inj_on_of_nodup_map hInv.distinct hChild
    hOther hCallback

theorem nodup_children
    {sys : System}
    (hInv : ProcessInv sys) :
    sys.procs.children.Nodup :=
  List.Nodup.of_map _ hInv.distinct

/- Each running process has an entry of its own. -/
theorem liveProcesses_le_keys
    {sys : System}
    (hInv : ProcessInv sys) :
    sys.liveProcesses ≤ sys.sched.running.keys.length := by
  let live :=
    sys.procs.children.filter
      (fun child => child.phase == .running)
  have hRunning :
      ∀ child ∈ live,
        child ∈ sys.procs.children ∧
          child.phase = .running := by
    intro child hMem
    rcases List.mem_filter.mp hMem with ⟨hChild, hPhase⟩
    exact ⟨hChild, by simpa using hPhase⟩
  have hNodup : (live.map jobId).Nodup := by
    apply List.Nodup.map_on _
      ((nodup_children hInv).filter _)
    intro child hChild other hOther hSame
    have hHere := hRunning child hChild
    have hThere := hRunning other hOther
    exact jobId_inj hInv hHere.1 hThere.1 hHere.2
      hThere.2 hSame
  have hSubset :
      live.map jobId ⊆ sys.sched.running.keys := by
    intro id hMem
    rcases List.mem_map.mp hMem with ⟨child, hLive, rfl⟩
    have hHere := hRunning child hLive
    rcases List.mem_iff_getElem?.mp hHere.1 with ⟨n, hAt⟩
    rcases hInv.owned n child hAt hHere.2 with
      ⟨id, it, hOwned⟩
    rw [jobId_of_ownedBy hOwned]
    exact Table.mem_of_lookup hOwned.1
  have hLength := (hNodup.subperm hSubset).length_le
  rw [List.length_map] at hLength
  unfold liveProcesses
  rw [List.countP_eq_length_filter]
  exact hLength

/- Each entry has a slot, so the slots bound the entries. -/
theorem keys_le_busy
    {s : Scheduler}
    (hInv : Scheduler.LaneInv s) :
    s.running.keys.length ≤ s.busy := by
  have hFast := hInv.sound.covers .fast
  have hSlow := hInv.sound.covers .slow
  have hSplit :=
    List.length_eq_countP_add_countP
      (fun entry : Sigma fun _ : ByteString => RunningJob =>
        decide (entry.2.lane = .fast))
      (l := s.running.entries)
  have hRest :
      s.running.entries.countP
          (fun entry =>
            decide ¬decide (entry.2.lane = .fast) = true) =
        s.running.entries.countP
          (fun entry => decide (entry.2.lane = .slow)) := by
    apply List.countP_congr
    intro entry _
    cases entry.2.lane <;> simp
  have hKeys :
      s.running.keys.length = s.running.entries.length := by
    simp [AList.keys, List.keys]
  rw [hKeys, hSplit, hRest, Scheduler.busy_eq]
  exact Nat.add_le_add hFast hSlow

theorem liveProcesses_le_busy
    {sys : System}
    (hInv : ProcessInv sys) :
    sys.liveProcesses ≤ sys.sched.busy :=
  (liveProcesses_le_keys hInv).trans
    (keys_le_busy hInv.lanes)

/-
  No more processes than lanes. In a run in which no tick
  starts a job while an earlier start of its id may still be
  notified, and no process gets a pid that still has a
  handler, each running process is at any time the one of
  the running job with its id, its start and its pid, and
  there are at most as many as slots taken, which are at
  most as many as there are lanes.
-/
theorem processes_within_lanes
    {pq : PendingQ}
    {storage : FinishedStorage}
    {lane : UInt64}
    {s : Scheduler}
    (hNew : Scheduler.new pq storage lane = .ok s)
    {events : List SystemEvent}
    (hApart :
      Transition.Along step StartsApart { sched := s }
        events) :
    Transition.Always step
      (fun sys =>
        sys.Owned ∧
          sys.liveProcesses ≤ sys.sched.busy ∧
          sys.sched.busy ≤ lane.toNat)
      { sched := s } events := by
  have hAlways :
      Transition.Always step
        (fun sys =>
          ProcessInv sys ∧ sys.sched.totalLane = lane)
        { sched := s } events := by
    refine Transition.always_of_along ?_ ?_ hApart
    · refine ⟨ProcessInv.new hNew, ?_⟩
      rcases Scheduler.new_eq_ok_iff.mp hNew with ⟨_, rfl⟩
      rfl
    · rintro sys event ⟨hInv, hLane⟩ hHere
      refine ⟨hInv.step event hHere, ?_⟩
      exact
        invariant_step
          (fun t inner hT =>
            (Scheduler.step_lanes t inner).1.trans hT)
          hLane event
  intro past hPrefix
  rcases hAlways past hPrefix with ⟨hInv, hLane⟩
  refine ⟨hInv.owned, liveProcesses_le_busy hInv, ?_⟩
  rw [← hLane]
  exact Scheduler.busy_le_totalLane hInv.lanes

theorem processes_within_lanes_small :
    Transition.Always step
      (fun sys =>
        sys.Owned ∧
          sys.liveProcesses ≤ sys.sched.busy ∧
          sys.sched.busy ≤ (4 : UInt64).toNat)
      { sched := Scheduler.small }
      [.push (smallJob 1 .slow), .tick (some 7) true 0] := by
  apply processes_within_lanes Scheduler.new_small
  rw [Transition.along_cons_iff, Transition.along_cons_iff]
  refine ⟨⟨trivial, trivial⟩, ⟨?_, ?_⟩,
    Transition.along_nil _⟩
  · intro pj hAdmitted
    refine ⟨?_, ?_⟩
    · intro hMem
      simp [step, Scheduler.step, Scheduler.small] at hMem
    · rintro _ start
        (⟨n, _, hCallback⟩ | ⟨m, timer, hTimer, _⟩)
      · simp [step, ProcessManager.callbacks] at hCallback
      · simp [step] at hTimer
  · intro _
    decide

end System

end Aps

end Inks
