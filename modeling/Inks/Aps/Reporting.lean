import Inks.Aps.System

/-
  What becomes of the exit code of a process: the way from
  the process layer through the scheduler to the storage of
  finished jobs.

  Key definitions include:
    * `Aps.System.ExitedWith`
    * `Aps.System.Reported`

  Key theorems include:
    * `Aps.System.exit_reported_iff`
-/

------------------------------------------------------------
-- Deliveries
------------------------------------------------------------

namespace Inks

namespace Aps

namespace System

/-
  Child `n` is the process of the entry that runs under the
  id. It has exited with a code, and its exit has not been
  delivered yet.
-/
def ExitedWith
    (sys : System)
    (n : Nat)
    (id : ByteString)
    (it : RunningJob)
    (code : UInt8) : Prop :=
  sys.sched.running.lookup id = some it ∧
    n ∉ sys.delivered ∧
    ∃ child, sys.procs.children[n]? = some child ∧
      (child.phase = .ended (.exited code) ∨
        child.phase = .reaped (.exited code)) ∧
      child.onExit = exitHandler id it.start

/-
  Delivering the exit of child `n` makes the storage find
  the result of this entry with this code, and its run time
  is offered to the estimator.
-/
def Reported
    (sys : System)
    (n : Nat)
    (id : ByteString)
    (it : RunningJob)
    (code : UInt8)
    (now : Int) : Prop :=
  let t := (sys.step (.deliverExit n now)).sched
  t.storage.find id = finish it now code.toNat ∧
    t.p90Estimator =
      sys.sched.p90Estimator.add
        (durationCastSeconds (now - it.startTime))

/- The code arrives at `handle_exit` as it is. -/
theorem sched_of_exitedWith
    {sys : System}
    {n : Nat}
    {id : ByteString}
    {it : RunningJob}
    {code : UInt8}
    (hExited : sys.ExitedWith n id it code)
    (now : Int) :
    (sys.step (.deliverExit n now)).sched =
      sys.sched.handleExit id code.toNat now := by
  rcases hExited with
    ⟨_, hWaiting, child, hChild, hPhase, hCallback⟩
  have hEnded : child.phase ≠ .running := by
    rcases hPhase with hPhase | hPhase
    · simp [hPhase]
    · simp [hPhase]
  have hCode : child.exitCode = code.toNat := by
    unfold Child.exitCode
    rcases hPhase with hPhase | hPhase
    · rw [hPhase]
      rfl
    · rw [hPhase]
      rfl
  rw [← hCode]
  exact sched_deliverExit hChild hEnded hWaiting hCallback
    now

/- Codes that look like a normal exit in a wait status. -/
theorem wifexited_toNat_iff
    {code : UInt8} :
    wifexited code.toNat = true ↔
      code.toNat % 128 = 0 := by
  unfold wifexited
  rw [beq_iff_eq]
  omega

end System

end Aps

end Inks

------------------------------------------------------------
-- When an Exit is Reported
------------------------------------------------------------

namespace Inks

namespace Aps

namespace Scheduler

/- The result of a running entry is not in the storage. -/
theorem find_ne_finish
    {s : Scheduler}
    {id : ByteString}
    {it : RunningJob}
    (hResults : ResultInv s)
    (hLookup : s.running.lookup id = some it)
    (now exitCode : Int) :
    s.storage.find id ≠ finish it now exitCode := by
  intro hFind
  have hStart : (s.storage.find id).start = some it.start :=
    congrArg FinishedJob.start hFind
  cases hSink : s.storage.sink.lookup id with
  | none =>
      simp [FinishedStorage.find, hSink] at hStart
  | some fj =>
      rw [FinishedStorage.find_of_lookup hSink] at hStart
      rcases hResults id fj hSink with
        ⟨n, hFrom, _, hGone⟩
      rw [hStart] at hFrom
      cases hFrom
      exact hGone id it hLookup rfl

/-
  An exit notification reports its result exactly when the
  scheduler takes the code for a normal exit and there is no
  result under the id.
-/
theorem handleExit_reports_iff
    {s : Scheduler}
    {id : ByteString}
    {it : RunningJob}
    (hResults : ResultInv s)
    (hEntries : EntryInv s)
    (hLookup : s.running.lookup id = some it)
    (exitCode now : Int) :
    ((s.handleExit id exitCode now).storage.find id =
        finish it now exitCode ∧
      (s.handleExit id exitCode now).p90Estimator =
        s.p90Estimator.add
          (durationCastSeconds (now - it.startTime))) ↔
      wifexited exitCode = true ∧
        id ∉ s.storage.sink := by
  have hId : it.spec.id = id := (hEntries id it hLookup).1
  rw [handleExit_of_lookup hLookup]
  by_cases hNormal : wifexited exitCode = true
  · simp only [hNormal, if_true, true_and, and_true]
    constructor
    · intro hFind hMem
      have hKept :
          s.storage.store (finish it now exitCode) =
            s.storage := by
        unfold FinishedStorage.store
        rw [Table.emplace_of_mem]
        exact hId.symm ▸ hMem
      rw [hKept] at hFind
      exact find_ne_finish hResults hLookup now exitCode
        hFind
    · intro hNotMem
      apply FinishedStorage.find_of_lookup
      rw [FinishedStorage.store_sink]
      have hKey : (finish it now exitCode).spec.id = id :=
        hId
      rw [hKey]
      exact Table.lookup_emplace_of_notMem hNotMem
  · simp only [if_neg hNormal]
    constructor
    · intro hBoth
      exact absurd hBoth.1
        (find_ne_finish hResults hLookup now exitCode)
    · intro hBoth
      exact absurd hBoth.1 hNormal

end Scheduler

namespace System

/-
  The exit of the process of a running job is reported in
  the storage exactly when its code is 0 or 128 and its id
  has no result yet: the scheduler reads the decoded code as
  a wait status, and a second result is not stored.
-/
theorem exit_reported_iff
    {pq : PendingQ}
    {lane : UInt64}
    {s : Scheduler}
    (hNew : Scheduler.new pq {} lane = .ok s)
    (events : List SystemEvent)
    {n : Nat}
    {id : ByteString}
    {it : RunningJob}
    {code : UInt8}
    (hExited :
      (Transition.run step { sched := s } events).ExitedWith
        n id it code)
    (now : Int) :
    (Transition.run step { sched := s } events).Reported
        n id it code now ↔
      code.toNat % 128 = 0 ∧
        id ∉
          (Transition.run step
            { sched := s } events).sched.storage.sink := by
  have hStep :
      ∀ t event,
        Scheduler.EntryInv t ∧ Scheduler.ResultInv t →
        Scheduler.EntryInv (Scheduler.step t event) ∧
          Scheduler.ResultInv (Scheduler.step t event) := by
    intro t event hInv
    exact
      ⟨hInv.1.step event, hInv.2.step hInv.1 event⟩
  have hInv :=
    invariant_run hStep { sched := s }
      ⟨Scheduler.EntryInv.new hNew,
        Scheduler.ResultInv.new hNew⟩ events
  unfold Reported
  simp only [sched_of_exitedWith hExited]
  rw [Scheduler.handleExit_reports_iff hInv.2 hInv.1
    hExited.1, wifexited_toNat_iff]

/- A job that runs as child 0, which ends in some way. -/
def oneExit
    (ending : Ending) : List SystemEvent :=
  [.push (smallJob 1 .slow), .tick (some 7) false 0,
    .ends 0 ending]

/- Its entry. -/
def oneEntry : RunningJob where
  spec := { id := [1] }
  lane := .slow
  pid := 7
  startTime := 0
  timer := none
  start := 0

theorem exit_reported_iff_small :
    (Transition.run step { sched := Scheduler.small }
        (oneExit (.exited 0))).Reported
          0 [1] oneEntry 0 5000000000 ↔
      (0 : UInt8).toNat % 128 = 0 ∧
        [1] ∉
          (Transition.run step
            { sched := Scheduler.small }
            (oneExit (.exited 0))).sched.storage.sink :=
  exit_reported_iff Scheduler.new_small _
    ⟨by decide, by decide, _, rfl, Or.inl rfl, rfl⟩ _

/- A job that fails with code 3 leaves no result. -/
theorem exit_not_reported :
    let sys :=
      Transition.run step { sched := Scheduler.small }
        (oneExit (.exited 3))
    sys.ExitedWith 0 [1] oneEntry 3 ∧
      ¬ sys.Reported 0 [1] oneEntry 3 5000000000 := by
  constructor
  · exact ⟨by decide, by decide, _, rfl, Or.inl rfl, rfl⟩
  · intro hReported
    have hFind := hReported.1
    revert hFind
    decide

end System

end Aps

end Inks
