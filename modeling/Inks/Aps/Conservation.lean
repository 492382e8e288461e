import Inks.Aps.Entries
import Mathlib.Algebra.Order.Group.Multiset
import Mathlib.Tactic.Abel

/-
  Where the pushed jobs are: pending, running or finished.

  Key definitions include:
    * `Aps.Scheduler.heldIds`
    * `Aps.Scheduler.InOnePlace`
    * `Aps.Scheduler.JobsConserved`
    * `Aps.Scheduler.ExitsNormally`

  Key theorems include:
    * `Aps.Scheduler.heldIds_step`
    * `Aps.Scheduler.heldIds_lost`
    * `Aps.Scheduler.jobs_conserved_iff`
-/

------------------------------------------------------------
-- Held Jobs
------------------------------------------------------------

namespace Inks

namespace Aps

/- The ids of the pushed jobs, in the order of the pushes. -/
def pushedIds
    (events : List Event) : List ByteString :=
  events.filterMap fun event =>
    match event with
    | .push pj => some pj.spec.id
    | _ => none

theorem pushedIds_append
    (past future : List Event) :
    pushedIds (past ++ future) =
      pushedIds past ++ pushedIds future := by
  simp [pushedIds]

namespace Scheduler

/- The ids in the queue, in its order. -/
def pendingIds
    (s : Scheduler) : List ByteString :=
  s.pq.q.map fun pj => pj.spec.id

/- The ids of all jobs that the scheduler still knows. -/
def heldIds
    (s : Scheduler) : Multiset ByteString :=
  (s.pendingIds : Multiset ByteString) +
    (s.running.keys : Multiset ByteString) +
    (s.storage.sink.keys : Multiset ByteString)

/-
  The job is once in the queue, or it is running, or it is
  finished, and only one of the three.
-/
def InOnePlace
    (s : Scheduler)
    (id : ByteString) : Prop :=
  (s.pendingIds.count id = 1 ∧
      id ∉ s.running ∧ id ∉ s.storage.sink) ∨
    (id ∉ s.pendingIds ∧
      id ∈ s.running ∧ id ∉ s.storage.sink) ∨
    (id ∉ s.pendingIds ∧
      id ∉ s.running ∧ id ∈ s.storage.sink)

/- A job leaves the running ones only to another place. -/
def LeavesRecorded
    (s : Scheduler)
    (event : Event) : Prop :=
  ∀ id, id ∈ s.running → id ∉ (s.step event).running →
    id ∈ (s.step event).storage.sink ∨
      id ∈ (s.step event).pendingIds

/-
  No job is lost or duplicated along a run: the held jobs
  are the pushed ones, each in one place, and an event other
  than a push keeps the held jobs as they are.
-/
structure JobsConserved
    (s : Scheduler)
    (events : List Event) : Prop where
  held :
    ∀ past, past <+: events →
      (s.run past).heldIds = pushedIds past
  once :
    ∀ past, past <+: events →
      ∀ id ∈ pushedIds past, InOnePlace (s.run past) id
  kept :
    Transition.Along step
      (fun t event =>
        (t.step event).heldIds =
          t.heldIds + (pushedIds [event] : List _))
      s events
  leaves : Transition.Along step LeavesRecorded s events

/-
  An exit notification for a running job carries the status
  of a normal exit.
-/
def ExitsNormally
    (s : Scheduler) : Event → Prop
| .exit id exitCode _ =>
    id ∈ s.running → wifexited exitCode = true
| _ => True

end Scheduler

end Aps

end Inks

------------------------------------------------------------
-- One Step
------------------------------------------------------------

namespace Inks

namespace Aps

namespace Scheduler

/- With distinct held jobs a pending id is not running. -/
theorem notMem_running_of_pending
    {s : Scheduler}
    {id : ByteString}
    (hNodup : s.heldIds.Nodup)
    (hPending : id ∈ s.pendingIds) :
    id ∉ s.running := by
  intro hRunning
  have hParts := (Multiset.nodup_add.mp hNodup).1
  have hDisjoint := (Multiset.nodup_add.mp hParts).2.2
  exact Multiset.disjoint_left.mp hDisjoint
    (Multiset.mem_coe.mpr hPending)
    (Multiset.mem_coe.mpr (AList.mem_keys.mp hRunning))

/- With distinct held jobs a pending id is not finished. -/
theorem notMem_sink_of_pending
    {s : Scheduler}
    {id : ByteString}
    (hNodup : s.heldIds.Nodup)
    (hPending : id ∈ s.pendingIds) :
    id ∉ s.storage.sink := by
  intro hSink
  have hDisjoint := (Multiset.nodup_add.mp hNodup).2.2
  exact Multiset.disjoint_left.mp hDisjoint
    (Multiset.mem_add.mpr
      (Or.inl (Multiset.mem_coe.mpr hPending)))
    (Multiset.mem_coe.mpr (AList.mem_keys.mp hSink))

/- With distinct held jobs a running id is not finished. -/
theorem notMem_sink_of_running
    {s : Scheduler}
    {id : ByteString}
    (hNodup : s.heldIds.Nodup)
    (hRunning : id ∈ s.running) :
    id ∉ s.storage.sink := by
  intro hSink
  have hDisjoint := (Multiset.nodup_add.mp hNodup).2.2
  have hKey := Multiset.mem_coe.mpr
    (AList.mem_keys.mp hRunning)
  exact Multiset.disjoint_left.mp hDisjoint
    (Multiset.mem_add.mpr (Or.inr hKey))
    (Multiset.mem_coe.mpr (AList.mem_keys.mp hSink))

/-
  An event keeps the held jobs, and a push adds its own, as
  long as an exit that removes an entry is a normal one.
-/
theorem heldIds_step
    {s : Scheduler}
    (hEntries : EntryInv s)
    (hNodup : s.heldIds.Nodup)
    (event : Event)
    (hExits : ExitsNormally s event) :
    (s.step event).heldIds =
      s.heldIds + (pushedIds [event] : List _) := by
  have hMove := step_move s event
  generalize s.step event = t at hMove ⊢
  cases hMove with
  | push pj =>
      simp only [heldIds, pendingIds, PendingQ.push_q,
        List.map_append, pushedIds, List.map_cons,
        List.map_nil, List.filterMap_cons,
        List.filterMap_nil, ← Multiset.coe_add]
      abel
  | stop => simp [heldIds, pendingIds, pushedIds]
  | idle pid now hNone => simp [pushedIds]
  | start pj rest pid now hAdmitted hQueue =>
      have hPending : pj.spec.id ∈ s.pendingIds := by
        simp [pendingIds, hQueue]
      have hFresh :=
        notMem_running_of_pending hNodup hPending
      simp only [heldIds, pendingIds, schedule_frame,
        hQueue, List.map_cons, ← Multiset.cons_coe,
        Table.keys_emplace_of_notMem hFresh]
      simp [pushedIds]
  | exit id it exitCode now hLookup =>
      have hRunning := Table.mem_of_lookup hLookup
      have hSpec : it.spec.id = id :=
        (hEntries id it hLookup).1
      have hFresh :=
        notMem_sink_of_running hNodup hRunning
      have hKeys := Table.keys_erase_of_mem hRunning
      have hStored :=
        Table.keys_emplace_of_notMem
          (v := finish it now exitCode) hFresh
      simp only [heldIds, pendingIds, hExits hRunning,
        if_true, releaseLane_frame, hKeys,
        FinishedStorage.store_sink, finish, hSpec]
      simp only [finish] at hStored
      simp only [hStored, ← Multiset.singleton_add,
        pushedIds, List.filterMap_cons,
        List.filterMap_nil, Multiset.coe_nil]
      abel
  | exitUnknown id exitCode now hLookup =>
      simp [pushedIds]
  | timeout id it hLookup =>
      have hRunning := Table.mem_of_lookup hLookup
      have hSpec : it.spec.id = id :=
        (hEntries id it hLookup).1
      have hKeys := Table.keys_erase_of_mem hRunning
      simp only [heldIds, pendingIds, releaseLane_frame,
        PendingQ.push_q, requeue, hSpec, hKeys,
        List.map_append, List.map_cons, List.map_nil,
        ← Multiset.coe_add, ← Multiset.singleton_add,
        Multiset.coe_singleton, pushedIds,
        List.filterMap_cons, List.filterMap_nil,
        Multiset.coe_nil]
      abel
  | timeoutUnknown id hLookup => simp [pushedIds]

/- An exit that is not a normal one loses its job. -/
theorem heldIds_lost
    {s : Scheduler}
    {id : ByteString}
    {exitCode : Int}
    (hRunning : id ∈ s.running)
    (hKilled : ¬ wifexited exitCode = true)
    (now : Int) :
    s.heldIds =
      id ::ₘ (s.handleExit id exitCode now).heldIds := by
  rcases Table.exists_lookup_of_mem hRunning with
    ⟨it, hLookup⟩
  have hKeys := Table.keys_erase_of_mem hRunning
  rw [handleExit_of_lookup hLookup]
  simp [heldIds, pendingIds, hKilled, hKeys]

/- A step keeps the held jobs only if its exit is normal. -/
theorem exitsNormally_of_heldIds
    {s : Scheduler}
    {event : Event}
    (hHeld :
      (s.step event).heldIds =
        s.heldIds + (pushedIds [event] : List _)) :
    ExitsNormally s event := by
  cases event with
  | exit id exitCode now =>
      intro hRunning
      by_contra hKilled
      have hLost := heldIds_lost hRunning hKilled now
      have hCard := congrArg Multiset.card hLost
      have hSame := congrArg Multiset.card hHeld
      simp only [step, pushedIds, Multiset.card_add,
        Multiset.card_cons, Multiset.coe_card,
        List.filterMap_cons, List.filterMap_nil,
        List.length_nil] at hCard hSame
      omega
  | push pj => trivial
  | tick pid now => trivial
  | timeout id => trivial
  | stop => trivial

end Scheduler

end Aps

end Inks

------------------------------------------------------------
-- Whole Runs
------------------------------------------------------------

namespace Inks

namespace Aps

namespace Scheduler

theorem mem_heldIds_iff
    {s : Scheduler}
    {id : ByteString} :
    id ∈ s.heldIds ↔
      id ∈ s.pendingIds ∨ id ∈ s.running ∨
        id ∈ s.storage.sink := by
  simp only [heldIds, Multiset.mem_add, Multiset.mem_coe,
    AList.mem_keys, or_assoc]

/- Distinct held jobs are each in one place. -/
theorem inOnePlace_of_nodup
    {s : Scheduler}
    {id : ByteString}
    (hNodup : s.heldIds.Nodup)
    (hHeld : id ∈ s.heldIds) :
    InOnePlace s id := by
  rcases mem_heldIds_iff.mp hHeld with
    hPending | hRunning | hSink
  · have hParts := (Multiset.nodup_add.mp hNodup).1
    have hPendingNodup : s.pendingIds.Nodup :=
      Multiset.coe_nodup.mp
        (Multiset.nodup_add.mp hParts).1
    exact Or.inl
      ⟨List.count_eq_one_of_mem hPendingNodup hPending,
        notMem_running_of_pending hNodup hPending,
        notMem_sink_of_pending hNodup hPending⟩
  · refine Or.inr (Or.inl ⟨?_, hRunning, ?_⟩)
    · intro hPending
      exact notMem_running_of_pending hNodup hPending
        hRunning
    · exact notMem_sink_of_running hNodup hRunning
  · refine Or.inr (Or.inr ⟨?_, ?_, hSink⟩)
    · intro hPending
      exact notMem_sink_of_pending hNodup hPending hSink
    · intro hRunning
      exact notMem_sink_of_running hNodup hRunning hSink

/- The pushes of a prefix are distinct when all are. -/
theorem nodup_pushedIds_of_prefix
    {past events : List Event}
    (hDistinct : (pushedIds events).Nodup)
    (hPrefix : past <+: events) :
    (pushedIds past).Nodup := by
  rcases hPrefix with ⟨later, rfl⟩
  rw [pushedIds_append] at hDistinct
  exact hDistinct.of_append_left

/- Along a run the held jobs are the pushed ones. -/
theorem heldIds_run
    {s : Scheduler}
    {events : List Event}
    (hEmpty : s.heldIds = 0)
    (hEntries : EntryInv s)
    (hDistinct : (pushedIds events).Nodup)
    (hExits : Transition.Along step ExitsNormally s events) :
    ∀ past, past <+: events →
      (s.run past).heldIds = pushedIds past := by
  apply Transition.history_induction
  · exact hEmpty
  · intro past event hPrefix hHeld
    have hShort := (List.prefix_append _ _).trans hPrefix
    have hPast :=
      (Transition.always_of_step hEntries
        (fun _ event hInv => hInv.step event)
        events) past hShort
    have hNodup : (s.run past).heldIds.Nodup := by
      rw [hHeld, Multiset.coe_nodup]
      exact nodup_pushedIds_of_prefix hDistinct hShort
    have hStep :=
      heldIds_step hPast hNodup event
        (hExits past event hPrefix)
    rw [run_concat, hStep, hHeld, pushedIds_append,
      Multiset.coe_add]

/- Each step then adds what it pushes and keeps the rest. -/
theorem heldIds_kept
    {s : Scheduler}
    {events : List Event}
    (hHeld :
      ∀ past, past <+: events →
        (s.run past).heldIds = pushedIds past) :
    Transition.Along step
      (fun t event =>
        (t.step event).heldIds =
          t.heldIds + (pushedIds [event] : List _))
      s events := by
  intro past event hPrefix
  have hShort :=
    (List.prefix_append past [event]).trans hPrefix
  have hAfter := hHeld _ hPrefix
  rw [run_concat, pushedIds_append,
    ← Multiset.coe_add] at hAfter
  have hBefore :
      (Transition.run step s past).heldIds =
        pushedIds past :=
    hHeld past hShort
  rw [hBefore]
  exact hAfter

/- A running job that is still held is in some place. -/
theorem leavesRecorded_of_heldIds
    {s : Scheduler}
    {event : Event}
    (hHeld :
      (s.step event).heldIds =
        s.heldIds + (pushedIds [event] : List _)) :
    LeavesRecorded s event := by
  intro id hRunning hGone
  have hAfter : id ∈ (s.step event).heldIds := by
    rw [hHeld]
    apply Multiset.mem_add.mpr
    exact Or.inl
      (mem_heldIds_iff.mpr (Or.inr (Or.inl hRunning)))
  rcases mem_heldIds_iff.mp hAfter with
    hPending | hStill | hStored
  · exact Or.inr hPending
  · exact absurd hStill hGone
  · exact Or.inl hStored

/-
  No job of a run with distinct ids is lost or duplicated
  exactly when every exit notification for a running job
  carries the status of a normal exit: with any other one
  the job leaves the running ones and is put nowhere.
-/
theorem jobs_conserved_iff
    {lane : UInt64}
    {s : Scheduler}
    (hNew : new {} {} lane = .ok s)
    (events : List Event)
    (hDistinct : (pushedIds events).Nodup) :
    JobsConserved s events ↔
      Transition.Along step ExitsNormally s events := by
  constructor
  · intro hConserved
    refine hConserved.kept.mono ?_
    intro t event hHeld
    exact exitsNormally_of_heldIds hHeld
  · intro hExits
    have hEmpty : s.heldIds = 0 := by
      rcases new_eq_ok_iff.mp hNew with ⟨_, rfl⟩
      rfl
    have hHeld :=
      heldIds_run hEmpty (EntryInv.new hNew) hDistinct
        hExits
    have hKept := heldIds_kept hHeld
    constructor
    · exact hHeld
    · intro past hPrefix id hPushed
      apply inOnePlace_of_nodup
      · rw [hHeld past hPrefix, Multiset.coe_nodup]
        exact nodup_pushedIds_of_prefix hDistinct hPrefix
      · rw [hHeld past hPrefix]
        exact Multiset.mem_coe.mpr hPushed
    · exact hKept
    · refine hKept.mono ?_
      intro t event hStep
      exact leavesRecorded_of_heldIds hStep

theorem jobs_conserved_iff_small :
    JobsConserved small
        [.push (smallJob 1 .fast), .tick 7 0,
          .exit [1] 0 5] ↔
      Transition.Along step ExitsNormally small
        [.push (smallJob 1 .fast), .tick 7 0,
          .exit [1] 0 5] :=
  jobs_conserved_iff new_small _ (by decide)

/- A job that exits with code 1 is lost. -/
theorem job_lost :
    (pushedIds
        [.push (smallJob 1 .fast), .tick 7 0,
          .exit [1] 1 5]).Nodup ∧
      ¬ JobsConserved small
        [.push (smallJob 1 .fast), .tick 7 0,
          .exit [1] 1 5] := by
  refine ⟨by decide, ?_⟩
  intro hConserved
  have hOnce :=
    hConserved.once _ (List.prefix_refl _) [1] (by decide)
  revert hOnce
  unfold InOnePlace
  decide

end Scheduler

end Aps

end Inks
