import Inks.Aps.Entries

/-
  The half of the fast lane that is kept for fast jobs: a
  job pending for the slow lane is to borrow a fast slot
  only while less than half of the fast lane is taken.

  Key definitions include:
    * `Aps.Scheduler.HalfReserved`
    * `Aps.Scheduler.SlowJobOverflows`

  Key theorems include:
    * `Aps.Scheduler.half_reserved_iff`
-/

------------------------------------------------------------
-- Borrowed Fast Slots
------------------------------------------------------------

namespace Inks

namespace Aps

/- The start that made an entry took a job pending as slow. -/
def fromSlow
    (starts : List Start)
    (rj : RunningJob) : Bool :=
  match starts[rj.start]? with
  | none => false
  | some st => st.job.lane = .slow

/- Later starts do not change where an entry came from. -/
theorem fromSlow_append
    {starts later : List Start}
    {rj : RunningJob}
    (hLt : rj.start < starts.length) :
    fromSlow (starts ++ later) rj = fromSlow starts rj := by
  simp [fromSlow, List.getElem?_append_left hLt]

/- A job pending as slow runs in the fast lane. -/
def borrows
    (starts : List Start)
    (rj : RunningJob) : Bool :=
  decide (rj.lane = .fast) && fromSlow starts rj

namespace Scheduler

/- The running fast entries of jobs pending as slow. -/
def borrowers
    (s : Scheduler) : Nat :=
  Table.count s.running (borrows s.starts)

/- At most half of the fast lane is borrowed. -/
def BorrowBounded
    (s : Scheduler) : Prop :=
  s.borrowers ≤ (s.fastLane / 2).toNat

/-
  A tick that starts a slow job in the fast lane finds less
  than half of it taken, and a slow job at the head of the
  queue that finds more taken stays pending.
-/
def ReservesHalf
    (s : Scheduler) : Event → Prop
| .tick pid now =>
    let t := s.runLoop pid now
    (∀ st, t.starts = s.starts ++ [st] →
        st.job.lane = .slow → st.lane = .fast →
          s.runningFast < s.fastLane / 2) ∧
      (∀ pj rest, s.pq.q = pj :: rest →
        pj.lane = .slow → s.slowLane ≤ s.runningSlow →
          s.fastLane / 2 ≤ s.runningFast →
            t.pq = s.pq)
| _ => True

/- Along a run, half of the fast lane is kept for fast jobs. -/
def HalfReserved
    (s : Scheduler)
    (events : List Event) : Prop :=
  Transition.Along step ReservesHalf s events ∧
    Transition.Always step BorrowBounded s events

/-
  The loop is on, the job at the head of the queue is slow,
  the slow lane is full, half of the fast lane or more is
  taken, and there is a free slot.
-/
def SlowJobOverflows
    (s : Scheduler) : Prop :=
  s.stop = false ∧
    ∃ pj rest, s.pq.q = pj :: rest ∧
      pj.lane = .slow ∧
      s.slowLane ≤ s.runningSlow ∧
      s.fastLane / 2 ≤ s.runningFast ∧
      s.runningFast + s.runningSlow < s.totalLane

/- No tick meets a slow job that would overflow. -/
def NoSlowOverflow
    (s : Scheduler) : Event → Prop
| .tick _ _ => ¬ SlowJobOverflows s
| _ => True

end Scheduler

end Aps

end Inks

------------------------------------------------------------
-- One Tick
------------------------------------------------------------

namespace Inks

namespace Aps

namespace Scheduler

/- `schedulable` only refuses when no slot is free. -/
theorem schedulable_iff
    (s : Scheduler)
    (pj : PendingJob) :
    s.schedulable pj = true ↔
      s.runningFast + s.runningSlow < s.totalLane := by
  unfold schedulable
  split
  · rename_i hFull
    simpa using hFull
  · rename_i hFree
    have hLt := UInt64.not_le.mp hFree
    cases pj.lane <;> simp [hLt]

/- A slow job that overflows is started in the fast lane. -/
theorem overflow_starts_fast
    {s : Scheduler}
    (hOverflow : SlowJobOverflows s)
    (pid now : Int) :
    ∃ pj,
      pj.lane = .slow ∧
        (s.runLoop pid now).starts =
          s.starts ++
            [{ job := pj
               lane := .fast
               pid := pid }] := by
  rcases hOverflow with
    ⟨hStop, pj, rest, hQueue, hLane, hSlow, _, hFree⟩
  have hAdmitted : s.admitted = some pj := by
    have hSchedulable := (schedulable_iff s pj).mpr hFree
    simp [admitted, hStop, hQueue, hSchedulable]
  have hActual : s.actualLane pj = .fast := by
    have hFull : ¬ s.runningSlow < s.slowLane :=
      UInt64.not_lt.mpr hSlow
    simp [actualLane, hLane, hFull]
  refine ⟨pj, hLane, ?_⟩
  rw [runLoop_starts hAdmitted, hActual]

/- A slow job put in the fast lane found half of it free. -/
theorem borrow_room
    {s : Scheduler}
    {pj : PendingJob}
    {rest : List PendingJob}
    (hAdmitted : s.admitted = some pj)
    (hQueue : s.pq.q = pj :: rest)
    (hNo : ¬ SlowJobOverflows s)
    (hLane : pj.lane = .slow)
    (hActual : s.actualLane pj = .fast) :
    s.runningFast < s.fastLane / 2 := by
  by_contra hBusy
  have hStop : s.stop = false := by
    by_contra hStopped
    simp [admitted, hStopped] at hAdmitted
  have hSlow : s.slowLane ≤ s.runningSlow := by
    apply UInt64.not_lt.mp
    intro hRoom
    simp [actualLane, hLane, hRoom] at hActual
  have hFree :=
    (schedulable_iff s pj).mp
      (schedulable_of_admitted hAdmitted)
  exact hNo
    ⟨hStop, pj, rest, hQueue, hLane, hSlow,
      UInt64.not_lt.mp hBusy, hFree⟩

/- Half of the fast lane is kept unless a slow job overflows. -/
theorem reservesHalf_iff
    (s : Scheduler)
    (event : Event) :
    ReservesHalf s event ↔ NoSlowOverflow s event := by
  cases event with
  | push pj => simp [ReservesHalf, NoSlowOverflow]
  | stop => simp [ReservesHalf, NoSlowOverflow]
  | exit id exitCode now =>
      simp [ReservesHalf, NoSlowOverflow]
  | timeout id => simp [ReservesHalf, NoSlowOverflow]
  | tick pid now =>
      constructor
      · rintro ⟨hStart, _⟩ hOverflow
        rcases overflow_starts_fast hOverflow pid now with
          ⟨pj, hLane, hStarts⟩
        rcases hOverflow with
          ⟨_, _, _, _, _, _, hBusy, _⟩
        have hRoom := hStart _ hStarts hLane rfl
        exact absurd hRoom (UInt64.not_lt.mpr hBusy)
      · intro hNo
        cases hAdmitted : s.admitted with
        | none =>
            simp only [ReservesHalf]
            rw [runLoop_of_not_admitted hAdmitted]
            refine ⟨?_, fun _ _ _ _ _ _ => rfl⟩
            intro st hStarts
            simp at hStarts
        | some pj =>
            rcases runLoop_of_admitted hAdmitted pid now with
              ⟨rest, hQueue, _⟩
            constructor
            · intro st hStarts hLane hActual
              rw [runLoop_starts hAdmitted] at hStarts
              have hStart :=
                List.singleton_inj.mp
                  (List.append_cancel_left hStarts)
              subst hStart
              exact borrow_room hAdmitted hQueue hNo
                hLane hActual
            · intro head tail hHead hLane hSlow hBusy
              rw [hQueue] at hHead
              cases hHead
              have hStop : s.stop = false := by
                by_contra hStopped
                simp [admitted, hStopped] at hAdmitted
              have hFree :=
                (schedulable_iff s pj).mp
                  (schedulable_of_admitted hAdmitted)
              exact absurd
                ⟨hStop, pj, rest, hQueue, hLane, hSlow,
                  hBusy, hFree⟩ hNo

end Scheduler

end Aps

end Inks

------------------------------------------------------------
-- Whole Runs
------------------------------------------------------------

namespace Inks

namespace Aps

namespace Scheduler

/- Borrowed slots are taken slots of the fast lane. -/
theorem borrowers_le_runningFast
    {s : Scheduler}
    (hInv : LaneInv s) :
    s.borrowers ≤ s.runningFast.toNat := by
  have hMono :
      s.borrowers ≤ s.pool.owned RunningJob.lane .fast := by
    apply Table.count_mono
    intro rj hBorrows
    simp only [borrows, Bool.and_eq_true] at hBorrows
    exact hBorrows.1
  exact hMono.trans (hInv.sound.covers .fast)

/- Starting a job borrows at most its own slot. -/
theorem borrowers_schedule_le
    {s : Scheduler}
    (hEntries : EntryInv s)
    (pj : PendingJob)
    (pid now : Int) :
    (s.schedule pj pid now).borrowers ≤
      s.borrowers +
        if pj.lane = .slow ∧ s.actualLane pj = .fast then
          1
        else
          0 := by
  have hOld :
      Table.count s.running
          (borrows
            (s.starts ++
              [{ job := pj
                 lane := s.actualLane pj
                 pid := pid }])) =
        s.borrowers := by
    apply Table.count_congr
    refine Table.All.mono hEntries ?_
    intro id rj hMade
    simp [borrows, fromSlow_append hMade.start_lt]
  have hNew :
      borrows
          (s.starts ++
            [{ job := pj
               lane := s.actualLane pj
               pid := pid }])
          (s.newEntry pj pid now) =
        decide
          (pj.lane = .slow ∧ s.actualLane pj = .fast) := by
    rw [Bool.decide_and, Bool.and_comm]
    simp only [borrows, fromSlow, newEntry, start,
      List.getElem?_concat_length]
    rfl
  have hCount :=
    Table.count_emplace_le (t := s.running)
      (k := pj.spec.id) (v := s.newEntry pj pid now)
      (borrows
        (s.starts ++
          [{ job := pj
             lane := s.actualLane pj
             pid := pid }]))
  rw [hOld, hNew] at hCount
  simpa [borrowers] using hCount

theorem BorrowBounded.step
    {s : Scheduler}
    (hBounded : BorrowBounded s)
    (hInv : LaneInv s)
    (hEntries : EntryInv s)
    (event : Event)
    (hNo : NoSlowOverflow s event) :
    BorrowBounded (s.step event) := by
  have hMove := step_move s event
  generalize s.step event = t at hMove ⊢
  cases hMove with
  | push pj => exact hBounded
  | stop => exact hBounded
  | idle pid now hNone => exact hBounded
  | start pj rest pid now hAdmitted hQueue =>
      have hCount :=
        borrowers_schedule_le
          (s := { s with pq := { q := rest } })
          hEntries pj pid now
      have hTaken := borrowers_le_runningFast hInv
      have hSame :
          borrowers { s with pq := { q := rest } } =
            s.borrowers := rfl
      rw [hSame] at hCount
      simp only [BorrowBounded, schedule_frame]
      split at hCount
      · rename_i hBorrow
        have hRoom :=
          borrow_room hAdmitted hQueue hNo
            hBorrow.1 hBorrow.2
        have hLt := UInt64.lt_iff_toNat_lt.mp hRoom
        omega
      · exact hCount.trans hBounded
  | exit id it exitCode now hLookup =>
      have hCount :=
        Table.count_erase (borrows s.starts) hLookup
      simp only [BorrowBounded, borrowers,
        releaseLane_frame] at hBounded ⊢
      omega
  | exitUnknown id exitCode now hLookup => exact hBounded
  | timeout id it hLookup =>
      have hCount :=
        Table.count_erase (borrows s.starts) hLookup
      simp only [BorrowBounded, borrowers,
        releaseLane_frame] at hBounded ⊢
      omega
  | timeoutUnknown id hLookup => exact hBounded

/-
  Half of the fast lane stays reserved in exactly the runs
  in which no tick finds a slow job at the head of the queue
  with the slow lane full, at least half of the fast lane
  taken and a slot free: `schedulable` lets that job start.
-/
theorem half_reserved_iff
    {pq : PendingQ}
    {storage : FinishedStorage}
    {lane : UInt64}
    {s : Scheduler}
    (hNew : new pq storage lane = .ok s)
    (events : List Event) :
    HalfReserved s events ↔
      Transition.Along step NoSlowOverflow s events := by
  constructor
  · rintro ⟨hReserves, _⟩
    refine hReserves.mono ?_
    intro t event hStep
    exact (reservesHalf_iff t event).mp hStep
  · intro hNo
    constructor
    · refine hNo.mono ?_
      intro t event hStep
      exact (reservesHalf_iff t event).mpr hStep
    · have hAll :
          Transition.Always step
            (fun t =>
              LaneInv t ∧ EntryInv t ∧ BorrowBounded t)
            s events := by
        refine Transition.always_of_along ?_ ?_ hNo
        · refine
            ⟨LaneInv.new hNew, EntryInv.new hNew, ?_⟩
          rcases new_eq_ok_iff.mp hNew with ⟨_, rfl⟩
          exact Nat.zero_le _
        · rintro t event ⟨hInv, hEntries, hBounded⟩ hStep
          exact
            ⟨hInv.step event, hEntries.step event,
              hBounded.step hInv hEntries event hStep⟩
      intro past hPrefix
      exact (hAll past hPrefix).2.2

/- With six slow slots the seventh slow job borrows one. -/
theorem half_reserved_iff_small :
    let s : Scheduler :=
      { pq := {}
        storage := {}
        totalLane := 8
        fastLane := 2
        slowLane := 6 }
    let events : List Event :=
      (List.range 7).flatMap fun n =>
        [.push (smallJob (UInt8.ofNat n) .slow),
          .tick (n + 7) 0]
    HalfReserved s events ↔
      Transition.Along step NoSlowOverflow s events := by
  intro s events
  have hNew : new {} {} 8 = .ok s := rfl
  exact half_reserved_iff hNew events

/-
  Of four slow jobs the last one gets the only fast slot,
  half of which rounds down to none.
-/
theorem half_not_reserved :
    ¬ HalfReserved small
      [.push (smallJob 1 .slow), .tick 7 0,
        .push (smallJob 2 .slow), .tick 8 0,
        .push (smallJob 3 .slow), .tick 9 0,
        .push (smallJob 4 .slow), .tick 10 0] := by
  rintro ⟨_, hBounded⟩
  have hLast := hBounded.last
  revert hLast
  unfold BorrowBounded
  decide

end Scheduler

end Aps

end Inks
