import Inks.Aps.Notification

/-
  Where the results in the finished storage come from. The
  result of a job id is made by one tick and one later exit
  notification: the tick started the job, its entry was in
  place all the time in between, the status is the one of a
  normal exit, and no result was there before. It is then
  never changed.

  Key definitions include:
    * `Aps.Scheduler.RanThrough`
    * `Aps.Scheduler.Genuine`
    * `Aps.Scheduler.HistoryInv`

  Key theorems include:
    * `Aps.Scheduler.stored_run`
    * `Aps.Scheduler.HistoryInv.step`
    * `Aps.Scheduler.stored_iff_genuine`
-/

------------------------------------------------------------
-- Statements
------------------------------------------------------------

namespace Inks

namespace Aps

namespace Scheduler

/- The result that the storage has for an id, if any. -/
def stored
    (s : Scheduler)
    (id : ByteString) : Option FinishedJob :=
  s.storage.sink.lookup id

/-
  A tick after the events `before` made an entry, and it was
  in place through all of the events `mid`.
-/
structure RanThrough
    (s : Scheduler)
    (before : List Event)
    (pid : Int)
    (mid : List Event)
    (it : RunningJob) : Prop where
  started :
    ∃ pj, (s.run before).admitted = some pj ∧
      (s.run before).newEntry pj pid it.startTime = it
  kept :
    ∀ part, part <+: mid →
      (s.run (before ++ .tick pid it.startTime :: part)
        ).running.lookup it.spec.id = some it

/- A result of the first normal exit of a running job. -/
def Genuine
    (s : Scheduler)
    (events : List Event)
    (fj : FinishedJob) : Prop :=
  ∃ before pid mid it later,
    events =
        (before ++ .tick pid it.startTime :: mid) ++
          .exit it.spec.id fj.exitCode fj.endTime ::
            later ∧
      RanThrough s before pid mid it ∧
      fj = finish it fj.endTime fj.exitCode ∧
      wifexited fj.exitCode = true ∧
      (s.run (before ++ .tick pid it.startTime :: mid)
        ).stored it.spec.id = none

/- Entries and results after some events. -/
structure HistoryInv
    (s : Scheduler)
    (events : List Event) : Prop where
  running :
    ∀ id it, (s.run events).running.lookup id = some it →
      it.spec.id = id ∧
        ∃ before pid mid,
          events =
              before ++ .tick pid it.startTime :: mid ∧
            RanThrough s before pid mid it
  stored :
    ∀ id fj, (s.run events).stored id = some fj →
      s.stored id = some fj ∨
        (fj.spec.id = id ∧ Genuine s events fj)

end Scheduler

end Aps

end Inks

------------------------------------------------------------
-- Stored Results
------------------------------------------------------------

namespace Inks

namespace Aps

namespace Scheduler

/- No event changes or removes a result. -/
theorem stored_step
    {s : Scheduler}
    {id : ByteString}
    {fj : FinishedJob}
    (hStored : s.stored id = some fj)
    (event : Event) :
    (s.step event).stored id = some fj := by
  have hMove := step_move s event
  generalize s.step event = t at hMove ⊢
  cases hMove with
  | push pj => exact hStored
  | stop => exact hStored
  | idle pid now hNone => exact hStored
  | start pj rest pid now hAdmitted hQueue =>
      simpa [stored] using hStored
  | exitUnknown other exitCode now hLookup => exact hStored
  | timeoutUnknown other hLookup => exact hStored
  | timeout other it hLookup =>
      simpa [stored] using hStored
  | exit other it exitCode now hLookup =>
      simp only [stored]
      split
      · exact Table.lookup_emplace_of_lookup hStored
      · exact hStored

theorem stored_run
    {s : Scheduler}
    {id : ByteString}
    {fj : FinishedJob}
    (hStored : s.stored id = some fj)
    (events : List Event) :
    (s.run events).stored id = some fj := by
  have hAlways :
      Transition.Always step
        (fun t : Scheduler => t.stored id = some fj) s
        events := by
    refine Transition.always_of_step ?_ ?_ events
    · exact hStored
    · intro t event hHere
      exact stored_step hHere event
  exact hAlways.last

/- A result that an event leaves was there, or it made it. -/
theorem stored_cases
    {s : Scheduler}
    {event : Event}
    {id : ByteString}
    {fj : FinishedJob}
    (hStored : (s.step event).stored id = some fj) :
    s.stored id = some fj ∨
      ∃ key it,
        s.running.lookup key = some it ∧
          event = .exit key fj.exitCode fj.endTime ∧
          id = it.spec.id ∧
          fj = finish it fj.endTime fj.exitCode ∧
          wifexited fj.exitCode = true ∧
          s.stored id = none := by
  have hMove := step_move s event
  generalize s.step event = t at hMove hStored
  cases hMove with
  | push pj => exact Or.inl hStored
  | stop => exact Or.inl hStored
  | idle pid now hNone => exact Or.inl hStored
  | start pj rest pid now hAdmitted hQueue =>
      exact Or.inl (by simpa [stored] using hStored)
  | exitUnknown other exitCode now hLookup =>
      exact Or.inl hStored
  | timeoutUnknown other hLookup => exact Or.inl hStored
  | timeout other it hLookup =>
      exact Or.inl (by simpa [stored] using hStored)
  | exit key it exitCode now hLookup =>
      simp only [stored] at hStored
      split at hStored
      · next hExited =>
          rcases Table.lookup_emplace_cases hStored with
            hOld | ⟨hNew, rfl, rfl⟩
          · exact Or.inl hOld
          · refine
              Or.inr
                ⟨key, it, hLookup, rfl, rfl, rfl, hExited,
                  AList.lookup_eq_none.mpr hNew⟩
      · exact Or.inl hStored

end Scheduler

end Aps

end Inks

------------------------------------------------------------
-- Histories
------------------------------------------------------------

namespace Inks

namespace Aps

namespace Scheduler

/- An entry that is still in place ran on. -/
theorem RanThrough.extend
    {s : Scheduler}
    {before mid : List Event}
    {pid : Int}
    {it : RunningJob}
    (hRan : RanThrough s before pid mid it)
    {event : Event}
    (hKept :
      (s.run
        ((before ++ .tick pid it.startTime :: mid) ++
          [event])).running.lookup it.spec.id = some it) :
    RanThrough s before pid (mid ++ [event]) it := by
  refine ⟨hRan.started, ?_⟩
  intro part hPart
  rcases List.prefix_concat_iff.mp hPart with
    rfl | hShort
  · simpa using hKept
  · exact hRan.kept part hShort

/- Results stay genuine as the run goes on. -/
theorem Genuine.extend
    {s : Scheduler}
    {events : List Event}
    {fj : FinishedJob}
    (hGenuine : Genuine s events fj)
    (event : Event) :
    Genuine s (events ++ [event]) fj := by
  rcases hGenuine with
    ⟨before, pid, mid, it, later, rfl, hRest⟩
  exact
    ⟨before, pid, mid, it, later ++ [event], by simp, hRest⟩

/- What a run has stored is what its exits say. -/
theorem Genuine.stored
    {s : Scheduler}
    {events : List Event}
    {fj : FinishedJob}
    (hGenuine : Genuine s events fj) :
    (s.run events).stored fj.spec.id = some fj := by
  rcases hGenuine with
    ⟨before, pid, mid, it, later, rfl, hRan, hFinish,
      hExited, hNone⟩
  have hLookup := hRan.kept mid (List.prefix_refl mid)
  have hSpec : fj.spec = it.spec := by
    rw [hFinish]
    rfl
  rw [List.append_cons, Scheduler.run, Transition.run_append]
  apply stored_run
  rw [Transition.run_concat]
  simp only [step, handleExit_of_lookup hLookup, hExited,
    if_true, Scheduler.stored]
  rw [hSpec]
  have hNotMem := AList.lookup_eq_none.mp hNone
  rw [hFinish]
  exact Table.lookup_emplace_of_notMem hNotMem

theorem running_step
    {s : Scheduler}
    {events : List Event}
    (hInv : HistoryInv s events)
    {event : Event}
    {id : ByteString}
    {it : RunningJob}
    (hLookup :
      ((s.run events).step event).running.lookup id =
        some it) :
    it.spec.id = id ∧
      ∃ before pid mid,
        events ++ [event] =
            before ++ .tick pid it.startTime :: mid ∧
          RanThrough s before pid mid it := by
  have hOld :
      (s.run events).running.lookup id = some it →
        it.spec.id = id ∧
          ∃ before pid mid,
            events ++ [event] =
                before ++ .tick pid it.startTime :: mid ∧
              RanThrough s before pid mid it := by
    intro hBefore
    rcases hInv.running id it hBefore with
      ⟨hId, before, pid, mid, hEvents, hRan⟩
    refine
      ⟨hId, before, pid, mid ++ [event], ?_, ?_⟩
    · rw [hEvents]
      simp
    · apply hRan.extend
      rw [← hEvents, run_concat, hId]
      exact hLookup
  by_cases hTick : ∀ pid now, event ≠ .tick pid now
  · exact
      hOld
        ((step_only_removes (s.run events) event hTick).2 id
          it hLookup)
  · push Not at hTick
    rcases hTick with ⟨pid, now, rfl⟩
    rcases (s.run events).admitted.eq_none_or_eq_some with
      hNone | ⟨pj, hAdmitted⟩
    · apply hOld
      rw [step, runLoop_of_not_admitted hNone] at hLookup
      exact hLookup
    · have hStart := hLookup
      rcases runLoop_of_admitted hAdmitted pid now with
        ⟨rest, _, hRun⟩
      rw [step, hRun] at hStart
      simp only [schedule_frame] at hStart
      rcases Table.lookup_emplace_cases hStart with
        hBefore | ⟨_, hId, hEntry⟩
      · exact hOld hBefore
      · have hNewEntry :
            (s.run events).newEntry pj pid now = it := by
          rw [hEntry]
          rfl
        have hTime : it.startTime = now := by
          rw [hEntry]
          rfl
        have hSpec : it.spec.id = id := by
          rw [hEntry, hId]
          rfl
        refine ⟨hSpec, events, pid, [], ?_, ?_, ?_⟩
        · rw [hTime]
        · exact ⟨pj, hAdmitted, by rw [hTime, hNewEntry]⟩
        · intro part hPart
          rw [List.prefix_nil.mp hPart, hTime, hSpec,
            run_concat]
          exact hLookup

theorem HistoryInv.step
    {s : Scheduler}
    {events : List Event}
    (hInv : HistoryInv s events)
    (event : Event) :
    HistoryInv s (events ++ [event]) := by
  constructor
  · intro id it hLookup
    rw [run_concat] at hLookup
    exact running_step hInv hLookup
  · intro id fj hStored
    rw [run_concat] at hStored
    rcases stored_cases hStored with
      hBefore | ⟨key, it, hLookup, rfl, hId, hFinish,
        hExited, hNone⟩
    · rcases hInv.stored id fj hBefore with
        hInitial | ⟨hSpec, hGenuine⟩
      · exact Or.inl hInitial
      · exact Or.inr ⟨hSpec, hGenuine.extend event⟩
    · rcases hInv.running key it hLookup with
        ⟨hKey, before, pid, mid, rfl, hRan⟩
      refine Or.inr ⟨?_, before, pid, mid, it, [], ?_⟩
      · rw [hFinish, hId]
        rfl
      · refine ⟨?_, hRan, hFinish, hExited, ?_⟩
        · rw [hKey]
        · rw [← hId]
          exact hNone

theorem HistoryInv.new
    {pq : PendingQ}
    {storage : FinishedStorage}
    {lane : UInt64}
    {s : Scheduler}
    (hNew : Scheduler.new pq storage lane = .ok s)
    (events : List Event) :
    HistoryInv s events := by
  induction events using List.reverseRecOn with
  | nil =>
      rcases new_eq_ok_iff.mp hNew with ⟨_, rfl⟩
      constructor
      · intro id it hLookup
        cases hLookup
      · intro id fj hStored
        exact Or.inl hStored
  | append_singleton events event ih => exact ih.step event

/-
  Results are genuine and final. In every run of a scheduler
  whose storage had no result for an id, the storage has a
  result for it exactly when the id, the start time, the end
  time, the status and the start of this result are those of
  one tick and one later exit of the run: the first normal
  exit of this id while its entry was in place. Every result
  stays as it is for the rest of the run.
-/
theorem stored_iff_genuine
    {pq : PendingQ}
    {storage : FinishedStorage}
    {lane : UInt64}
    {s : Scheduler}
    (hNew : Scheduler.new pq storage lane = .ok s)
    {id : ByteString}
    (hFirst : s.stored id = none)
    (events : List Event)
    (fj : FinishedJob) :
    ((s.run events).stored id = some fj ↔
        fj.spec.id = id ∧ Genuine s events fj) ∧
      ∀ later, (s.run events).stored id = some fj →
        (s.run (events ++ later)).stored id = some fj := by
  refine ⟨⟨?_, ?_⟩, ?_⟩
  · intro hStored
    rcases (HistoryInv.new hNew events).stored id fj hStored
      with hInitial | hGenuine
    · rw [hFirst] at hInitial
      cases hInitial
    · exact hGenuine
  · rintro ⟨rfl, hGenuine⟩
    exact hGenuine.stored
  · intro later hStored
    rw [Scheduler.run, Transition.run_append]
    exact stored_run hStored later

/- A job that exits five nanoseconds after its start. -/
theorem stored_iff_genuine_small :
    Genuine Scheduler.small
      [.push (smallJob 1 .fast), .tick 7 0,
        .exit [1] 0 5]
      { spec := { id := [1] }
        endTime := 5
        exitCode := 0
        start := some 0 } := by
  have hNone : Scheduler.small.stored [1] = none := rfl
  have hExact :=
    (stored_iff_genuine new_small hNone
      [.push (smallJob 1 .fast), .tick 7 0, .exit [1] 0 5]
      { spec := { id := [1] }
        endTime := 5
        exitCode := 0
        start := some 0 }).1
  exact (hExact.mp rfl).2

end Scheduler

end Aps

end Inks
