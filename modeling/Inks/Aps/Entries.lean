import Inks.Aps.Steps

/-
  What the running entries and the stored results say about
  the starts they come from.

  Key definitions include:
    * `Aps.MadeBy`
    * `Aps.ReportedBy`
    * `Aps.Scheduler.EntryInv`
    * `Aps.Scheduler.ResultInv`

  Key theorems include:
    * `Aps.Scheduler.EntryInv.step`
    * `Aps.Scheduler.ResultInv.step`
-/

------------------------------------------------------------
-- Running Entries
------------------------------------------------------------

namespace Inks

namespace Aps

/-
  The entry under `id` was made by the start it names: the
  start of a job with that id, in that lane, with that pid.
-/
def MadeBy
    (starts : List Start)
    (id : ByteString)
    (rj : RunningJob) : Prop :=
  rj.spec.id = id ∧
    ∃ st, starts[rj.start]? = some st ∧
      st.job.spec = rj.spec ∧
      st.lane = rj.lane ∧
      st.pid = rj.pid

/- Later starts do not change who made an entry. -/
theorem MadeBy.append
    {starts later : List Start}
    {id : ByteString}
    {rj : RunningJob}
    (hMade : MadeBy starts id rj) :
    MadeBy (starts ++ later) id rj := by
  rcases hMade with ⟨hId, st, hStart, hRest⟩
  have hLt := (List.getElem?_eq_some_iff.mp hStart).1
  refine ⟨hId, st, ?_, hRest⟩
  rw [List.getElem?_append_left hLt]
  exact hStart

/- An entry comes from a start that has happened. -/
theorem MadeBy.start_lt
    {starts : List Start}
    {id : ByteString}
    {rj : RunningJob}
    (hMade : MadeBy starts id rj) :
    rj.start < starts.length := by
  rcases hMade with ⟨_, st, hStart, _⟩
  exact (List.getElem?_eq_some_iff.mp hStart).1

/- Entries of one start are entries of one id. -/
theorem MadeBy.id_eq
    {starts : List Start}
    {id other : ByteString}
    {rj rk : RunningJob}
    (hLeft : MadeBy starts id rj)
    (hRight : MadeBy starts other rk)
    (hSame : rj.start = rk.start) :
    id = other := by
  rcases hLeft with ⟨hId, st, hStart, hSpec, _⟩
  rcases hRight with ⟨hOther, su, hStart', hSpec', _⟩
  rw [hSame, hStart'] at hStart
  cases hStart
  rw [← hId, ← hOther, ← hSpec, ← hSpec']

namespace Scheduler

/- Every running entry was made by the start it names. -/
def EntryInv
    (s : Scheduler) : Prop :=
  Table.All (MadeBy s.starts) s.running

theorem EntryInv.new
    {pq : PendingQ}
    {storage : FinishedStorage}
    {lane : UInt64}
    {s : Scheduler}
    (hNew : new pq storage lane = .ok s) :
    EntryInv s := by
  rcases new_eq_ok_iff.mp hNew with ⟨_, rfl⟩
  exact Table.all_empty

/- The entry that a start makes names that start. -/
theorem madeBy_newEntry
    (s : Scheduler)
    (pj : PendingJob)
    (pid now : Int) :
    MadeBy
      (s.starts ++
        [{ job := pj
           lane := s.actualLane pj
           pid := pid }])
      pj.spec.id (s.newEntry pj pid now) := by
  refine ⟨rfl, _, List.getElem?_concat_length, ?_⟩
  exact ⟨rfl, rfl, rfl⟩

theorem EntryInv.step
    {s : Scheduler}
    (hInv : EntryInv s)
    (event : Event) :
    EntryInv (s.step event) := by
  have hMove := step_move s event
  generalize s.step event = t at hMove ⊢
  cases hMove with
  | push pj => exact hInv
  | stop => exact hInv
  | idle pid now hNone => exact hInv
  | start pj rest pid now hAdmitted hQueue =>
      simp only [EntryInv, schedule_frame]
      apply Table.All.emplace
      · exact Table.All.mono hInv fun _ _ hMade =>
          hMade.append
      · intro _
        exact madeBy_newEntry s pj pid now
  | exit id it exitCode now hLookup =>
      simpa [EntryInv] using Table.All.erase hInv
  | exitUnknown id exitCode now hLookup => exact hInv
  | timeout id it hLookup =>
      simpa [EntryInv] using Table.All.erase hInv
  | timeoutUnknown id hLookup => exact hInv

end Scheduler

end Aps

end Inks

------------------------------------------------------------
-- Stored Results
------------------------------------------------------------

namespace Inks

namespace Aps

/-
  A result comes from a start that has happened and whose
  entry is no longer running.
-/
def ReportedBy
    (starts : List Start)
    (running : Table ByteString RunningJob)
    (fj : FinishedJob) : Prop :=
  ∃ n, fj.start = some n ∧ n < starts.length ∧
    Table.All (fun _ rj => rj.start ≠ n) running

theorem ReportedBy.erase
    {starts : List Start}
    {running : Table ByteString RunningJob}
    {fj : FinishedJob}
    (hReported : ReportedBy starts running fj)
    (id : ByteString) :
    ReportedBy starts (running.erase id) fj := by
  rcases hReported with ⟨n, hStart, hBefore, hGone⟩
  exact ⟨n, hStart, hBefore, hGone.erase⟩

/- A later start is not the one a result came from. -/
theorem ReportedBy.emplace
    {starts : List Start}
    {running : Table ByteString RunningJob}
    {fj : FinishedJob}
    (hReported : ReportedBy starts running fj)
    (st : Start)
    (id : ByteString)
    {rj : RunningJob}
    (hNew : rj.start = starts.length) :
    ReportedBy (starts ++ [st]) (running.emplace id rj)
      fj := by
  rcases hReported with ⟨n, hStart, hBefore, hGone⟩
  refine ⟨n, hStart, ?_, ?_⟩
  · simp only [List.length_append]
    omega
  · apply Table.All.emplace hGone
    intro _
    omega

namespace Scheduler

/- Every stored result was reported by a past start. -/
def ResultInv
    (s : Scheduler) : Prop :=
  Table.All (fun _ => ReportedBy s.starts s.running)
    s.storage.sink

theorem ResultInv.new
    {pq : PendingQ}
    {lane : UInt64}
    {s : Scheduler}
    (hNew : new pq {} lane = .ok s) :
    ResultInv s := by
  rcases new_eq_ok_iff.mp hNew with ⟨_, rfl⟩
  exact Table.all_empty

/- The result of an entry that is being removed. -/
theorem reportedBy_finish
    {s : Scheduler}
    {id : ByteString}
    {it : RunningJob}
    (hEntries : EntryInv s)
    (hLookup : s.running.lookup id = some it)
    (now exitCode : Int) :
    ReportedBy s.starts (s.running.erase id)
      (finish it now exitCode) := by
  have hMade := hEntries id it hLookup
  refine ⟨it.start, rfl, hMade.start_lt, ?_⟩
  intro other rj hOther hSame
  rcases Table.lookup_erase_cases hOther with
    ⟨hNe, hRunning⟩
  have hOtherMade := hEntries other rj hRunning
  exact hNe (hOtherMade.id_eq hMade hSame)

theorem ResultInv.step
    {s : Scheduler}
    (hInv : ResultInv s)
    (hEntries : EntryInv s)
    (event : Event) :
    ResultInv (s.step event) := by
  have hMove := step_move s event
  generalize s.step event = t at hMove ⊢
  cases hMove with
  | push pj => exact hInv
  | stop => exact hInv
  | idle pid now hNone => exact hInv
  | start pj rest pid now hAdmitted hQueue =>
      simp only [ResultInv, schedule_frame]
      refine Table.All.mono hInv ?_
      intro _ fj hReported
      exact hReported.emplace _ _ rfl
  | exit id it exitCode now hLookup =>
      have hOld :
          Table.All
            (fun _ =>
              ReportedBy s.starts (s.running.erase id))
            s.storage.sink := by
        refine Table.All.mono hInv ?_
        intro _ fj hReported
        exact hReported.erase id
      simp only [ResultInv, releaseLane_frame]
      split
      · apply Table.All.emplace hOld
        intro _
        exact reportedBy_finish hEntries hLookup
          now exitCode
      · exact hOld
  | exitUnknown id exitCode now hLookup => exact hInv
  | timeout id it hLookup =>
      simp only [ResultInv, releaseLane_frame]
      refine Table.All.mono hInv ?_
      intro _ fj hReported
      exact hReported.erase id
  | timeoutUnknown id hLookup => exact hInv

end Scheduler

end Aps

end Inks
