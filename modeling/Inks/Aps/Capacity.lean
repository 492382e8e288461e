import Inks.Aps.Entries

/-
  The capacity of the lanes over whole runs: it is never
  exceeded, and when the counters say what is running.

  Key definitions include:
    * `Aps.Scheduler.CapacityRespected`
    * `Aps.Scheduler.AccountingExact`
    * `Aps.Scheduler.StartsFreshId`
    * `Aps.Scheduler.FailedStartsRecover`
    * `Aps.Scheduler.SpawnSucceeds`

  Key theorems include:
    * `Aps.Scheduler.capacity_respected`
    * `Aps.Scheduler.accounting_exact_iff`
    * `Aps.Scheduler.failed_starts_recover_iff`
-/

------------------------------------------------------------
-- Lane Sizes
------------------------------------------------------------

namespace Inks

namespace Aps

namespace Scheduler

/- Both lanes and the total are within their sizes. -/
def CapacityRespected
    (s : Scheduler) : Prop :=
  s.runningFast ≤ s.fastLane ∧
    s.runningSlow ≤ s.slowLane ∧
    s.runningFast.toNat + s.runningSlow.toNat ≤
      s.totalLane.toNat ∧
    s.fastLane.toNat + s.slowLane.toNat =
      s.totalLane.toNat ∧
    s.wrapped = false

theorem LaneInv.capacityRespected
    {s : Scheduler}
    (hInv : LaneInv s) :
    CapacityRespected s := by
  have hFast : s.runningFast.toNat ≤ s.fastLane.toNat :=
    hInv.sound.within .fast
  have hSlow : s.runningSlow.toNat ≤ s.slowLane.toNat :=
    hInv.sound.within .slow
  have hSplit := hInv.split
  refine ⟨?_, ?_, ?_, hSplit, hInv.notWrapped⟩
  · exact UInt64.le_iff_toNat_le.mpr hFast
  · exact UInt64.le_iff_toNat_le.mpr hSlow
  · omega

/-
  Lane capacity is never exceeded: in every state of every
  run the lanes are within their sizes, and every decrement
  of a counter so far was of one that was at least 1.
-/
theorem capacity_respected
    {pq : PendingQ}
    {storage : FinishedStorage}
    {lane : UInt64}
    {s : Scheduler}
    (hNew : new pq storage lane = .ok s)
    (events : List Event) :
    Transition.Always step CapacityRespected s events := by
  have hAlways :=
    Transition.always_of_step (LaneInv.new hNew)
      (fun _ event hInv => hInv.step event) events
  intro past hPrefix
  exact (hAlways past hPrefix).capacityRespected

theorem capacity_respected_small :
    Transition.Always step CapacityRespected small
      [.push (smallJob 1 .fast), .tick 7 0,
        .push (smallJob 1 .fast), .tick 8 0,
        .exit [1] 0 5, .exit [1] 0 6] :=
  capacity_respected new_small _

end Scheduler

end Aps

end Inks

------------------------------------------------------------
-- Lane Accounting
------------------------------------------------------------

namespace Inks

namespace Aps

namespace Scheduler

/-
  The counters are the numbers of running entries of the
  lanes, so that with nothing running nothing is taken.
-/
def AccountingExact
    (s : Scheduler) : Prop :=
  s.runningFast.toNat =
      Table.count s.running
        (fun rj => decide (rj.lane = .fast)) ∧
    s.runningSlow.toNat =
      Table.count s.running
        (fun rj => decide (rj.lane = .slow)) ∧
    (s.running.keys = [] →
      s.runningFast = 0 ∧ s.runningSlow = 0)

/- A tick does not start a job whose id is running. -/
def StartsFreshId
    (s : Scheduler) : Event → Prop
| .tick _ _ =>
    ∀ pj, s.admitted = some pj → pj.spec.id ∉ s.running
| _ => True

theorem accountingExact_iff_exact
    {s : Scheduler} :
    AccountingExact s ↔ s.pool.Exact RunningJob.lane := by
  constructor
  · rintro ⟨hFast, hSlow, _⟩ lane
    cases lane
    · exact hFast
    · exact hSlow
  · intro hExact
    have hFast : s.runningFast.toNat = _ := hExact .fast
    have hSlow : s.runningSlow.toNat = _ := hExact .slow
    refine ⟨hFast, hSlow, ?_⟩
    intro hEmpty
    have hEntries : s.running.entries = [] := by
      simpa [AList.keys, List.keys] using hEmpty
    constructor
    · apply UInt64.toNat_inj.mp
      simpa [Pool.owned, pool, Table.count, hEntries]
        using hFast
    · apply UInt64.toNat_inj.mp
      simpa [Pool.owned, pool, Table.count, hEntries]
        using hSlow

/- A step keeps the accounting exact when its id is fresh. -/
theorem accountingExact_step_iff
    {s : Scheduler}
    (hInv : LaneInv s)
    (hExact : AccountingExact s)
    (event : Event) :
    AccountingExact (s.step event) ↔
      StartsFreshId s event := by
  rw [accountingExact_iff_exact] at hExact
  rw [accountingExact_iff_exact, pool_step hInv event]
  cases event with
  | push pj => simpa [poolStep, StartsFreshId] using hExact
  | stop => simpa [poolStep, StartsFreshId] using hExact
  | exit id exitCode now =>
      simpa [poolStep, StartsFreshId]
        using hExact.release id
  | timeout id =>
      simpa [poolStep, StartsFreshId]
        using hExact.release id
  | tick pid now =>
      cases hAdmitted : s.admitted with
      | none =>
          simpa [poolStep, StartsFreshId, hAdmitted]
            using hExact
      | some pj =>
          have hIff :
              (s.pool.acquire RunningJob.lane pj.spec.id
                  (s.newEntry pj pid now)).Exact
                    RunningJob.lane ↔
                pj.spec.id ∉ s.running :=
            Pool.exact_acquire_iff hExact
          simpa [poolStep, StartsFreshId, hAdmitted]
            using hIff

/-
  Lane accounting is exact in every state of a run exactly
  when no tick starts a job whose id is already running: the
  entry of such a job is not inserted, but its slot is taken.
-/
theorem accounting_exact_iff
    {pq : PendingQ}
    {storage : FinishedStorage}
    {lane : UInt64}
    {s : Scheduler}
    (hNew : new pq storage lane = .ok s)
    (events : List Event) :
    Transition.Always step AccountingExact s events ↔
      Transition.Along step StartsFreshId s events := by
  apply Transition.always_iff_along (LaneInv.new hNew)
  · rcases new_eq_ok_iff.mp hNew with ⟨_, rfl⟩
    exact ⟨rfl, rfl, fun _ => ⟨rfl, rfl⟩⟩
  · intro t event hInv
    exact hInv.step event
  · intro t event hInv hExact
    exact accountingExact_step_iff hInv hExact event

/- An id comes back, at first after its exit. -/
theorem accounting_exact_iff_small :
    let events : List Event :=
      [.push (smallJob 1 .fast), .tick 7 0, .exit [1] 0 5,
        .push (smallJob 1 .fast), .tick 8 6,
        .push (smallJob 1 .slow), .tick 9 7]
    Transition.Always step AccountingExact small events ↔
      Transition.Along step StartsFreshId small events :=
  accounting_exact_iff new_small _

/- The second of two jobs with one id leaks its slot. -/
theorem accounting_not_exact :
    ¬ Transition.Always step AccountingExact small
      [.push (smallJob 1 .fast), .tick 7 0,
        .push (smallJob 1 .fast), .tick 8 0,
        .exit [1] 0 5, .exit [1] 0 6] := by
  intro hAlways
  have hLast := hAlways.last.2.2
  revert hLast
  decide

end Scheduler

end Aps

end Inks

------------------------------------------------------------
-- Failed Starts
------------------------------------------------------------

namespace Inks

namespace Aps

namespace Scheduler

/-
  A tick whose spawn fails leaves the counters and the
  running entries as they were, and its job is not lost.
-/
def SlotGivenBack
    (s : Scheduler) : Event → Prop
| .tick pid now =>
    ∀ pj, s.admitted = some pj → pid = -1 →
      let t := s.runLoop pid now
      t.runningFast = s.runningFast ∧
        t.runningSlow = s.runningSlow ∧
        t.running = s.running ∧
        (pj ∈ t.pq.q ∨ pj.spec.id ∈ t.storage.sink)
| _ => True

/- Every running entry has a process. -/
def AllStarted
    (s : Scheduler) : Prop :=
  Table.All (fun _ rj => rj.pid ≠ -1) s.running

/- Along a run, no failed start costs a slot. -/
def FailedStartsRecover
    (s : Scheduler)
    (events : List Event) : Prop :=
  Transition.Along step SlotGivenBack s events ∧
    Transition.Always step AllStarted s events

/- A tick that starts a job gets a process for it. -/
def SpawnSucceeds
    (s : Scheduler) : Event → Prop
| .tick pid _ =>
    ∀ pj, s.admitted = some pj → pid ≠ -1
| _ => True

/- A tick that starts a job always takes a slot for it. -/
theorem counter_ne_of_admitted
    {s : Scheduler}
    {pj : PendingJob}
    (hInv : LaneInv s)
    (hAdmitted : s.admitted = some pj)
    (pid now : Int) :
    (s.runLoop pid now).counter (s.actualLane pj) ≠
      s.counter (s.actualLane pj) := by
  intro hSame
  have hPool := pool_step hInv (.tick pid now)
  simp only [poolStep, hAdmitted] at hPool
  have hTaken :
      ((s.runLoop pid now).counter
          (s.actualLane pj)).toNat =
        (s.counter (s.actualLane pj)).toNat + 1 := by
    have hLane :=
      congrFun (congrArg Pool.taken hPool)
        (s.actualLane pj)
    simpa [Pool.acquire, pool, newEntry, start, step]
      using hLane
  rw [hSame] at hTaken
  omega

/-
  No slot of a failed start is kept exactly when no start
  fails: the counter of the lane goes up with every start.
-/
theorem slotGivenBack_iff
    {s : Scheduler}
    (hInv : LaneInv s)
    (event : Event) :
    SlotGivenBack s event ↔ SpawnSucceeds s event := by
  cases event with
  | tick pid now =>
      constructor
      · intro hBack pj hAdmitted hFailed
        have hNe :=
          counter_ne_of_admitted hInv hAdmitted pid now
        rcases hBack pj hAdmitted hFailed with
          ⟨hFast, hSlow, _⟩
        cases hLane : s.actualLane pj with
        | fast =>
            rw [hLane] at hNe
            exact hNe hFast
        | slow =>
            rw [hLane] at hNe
            exact hNe hSlow
      · intro hSpawn pj hAdmitted hFailed
        exact absurd hFailed (hSpawn pj hAdmitted)
  | push pj => exact Iff.rfl
  | exit id exitCode now => exact Iff.rfl
  | timeout id => exact Iff.rfl
  | stop => exact Iff.rfl

theorem AllStarted.step
    {s : Scheduler}
    (hStarted : AllStarted s)
    (event : Event)
    (hSpawn : SpawnSucceeds s event) :
    AllStarted (s.step event) := by
  have hMove := step_move s event
  generalize s.step event = t at hMove ⊢
  cases hMove with
  | push pj => exact hStarted
  | stop => exact hStarted
  | idle pid now hNone => exact hStarted
  | start pj rest pid now hAdmitted hQueue =>
      simp only [AllStarted, schedule_frame]
      apply Table.All.emplace hStarted
      intro _
      exact hSpawn pj hAdmitted
  | exit id it exitCode now hLookup =>
      simpa [AllStarted] using Table.All.erase hStarted
  | exitUnknown id exitCode now hLookup => exact hStarted
  | timeout id it hLookup =>
      simpa [AllStarted] using Table.All.erase hStarted
  | timeoutUnknown id hLookup => exact hStarted

/-
  Failed starts give their slots back, and every running
  entry has a process, exactly in the runs in which no spawn
  fails: a failed one always keeps the slot it took.
-/
theorem failed_starts_recover_iff
    {pq : PendingQ}
    {storage : FinishedStorage}
    {lane : UInt64}
    {s : Scheduler}
    (hNew : new pq storage lane = .ok s)
    (events : List Event) :
    FailedStartsRecover s events ↔
      Transition.Along step SpawnSucceeds s events := by
  have hBack :
      Transition.Along step SlotGivenBack s events ↔
        Transition.Along step SpawnSucceeds s events := by
    apply Transition.along_iff_along (LaneInv.new hNew)
    · intro t event hInv _
      exact hInv.step event
    · intro t event hInv
      exact slotGivenBack_iff hInv event
  constructor
  · intro hRecover
    exact hBack.mp hRecover.1
  · intro hSpawn
    refine ⟨hBack.mpr hSpawn, ?_⟩
    refine Transition.always_of_along ?_ ?_ hSpawn
    · rcases new_eq_ok_iff.mp hNew with ⟨_, rfl⟩
      exact Table.all_empty
    · intro t event hStarted hStep
      exact hStarted.step event hStep

/- A spawn that fails between two that succeed. -/
theorem failed_starts_recover_iff_small :
    let events : List Event :=
      [.push (smallJob 1 .fast), .tick 7 0,
        .push (smallJob 2 .slow), .tick (-1) 1,
        .push (smallJob 3 .slow), .tick 8 2]
    FailedStartsRecover small events ↔
      Transition.Along step SpawnSucceeds small events :=
  failed_starts_recover_iff new_small _

/- A job whose spawn failed keeps a slot of the slow lane. -/
theorem failed_start_not_recovered :
    ¬ FailedStartsRecover small
      [.push (smallJob 1 .slow), .tick (-1) 0] := by
  rintro ⟨hBack, _⟩
  have hTick :=
    hBack [.push (smallJob 1 .slow)] (.tick (-1) 0)
      (List.prefix_refl _)
  have hSlow := (hTick (smallJob 1 .slow) rfl rfl).2.1
  revert hSlow
  decide

end Scheduler

end Aps

end Inks
