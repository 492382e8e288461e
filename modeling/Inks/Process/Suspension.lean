import Inks.Library.Run
import Inks.Process.Handler

/-
  Suspending and resuming a child.

  The kernel keeps with a child whether it is stopped and
  whether its last stop is still to be reported. A call of
  `waitpid` with `WUNTRACED` takes that report away, and
  blocks as long as there is nothing to report.

  A call gives `none` when it never returns.

  Key definitions include:
    * `Suspension.waitpid`
    * `Suspension.suspend`
    * `Suspension.suspended`, `Suspension.resume`
    * `Suspension.Answers`, `Suspension.Repeats`

  Key theorems include:
    * `Suspension.Inv.step`
    * `Suspension.agrees_iff`
-/

------------------------------------------------------------
-- The Kernel
------------------------------------------------------------

namespace Inks

namespace Suspension

inductive Signal where
| sigstop
| sigcont
deriving DecidableEq, Repr

structure Process where
  phase : Phase := .running
  stopped : Bool := false
  -- Its last stop is still to be reported.
  unreported : Bool := false
deriving DecidableEq, Repr

inductive Status where
| stopped
| ended (ending : Ending)
deriving DecidableEq, Repr

/- `WIFSTOPPED` -/
def Status.isStopped : Status → Bool
| .stopped => true
| .ended _ => false

/-
  `waitpid` with `WUNTRACED`. When it fails, as for a reaped
  process, the status is the zero it was before.
-/
def waitpid
    (p : Process) : Option (Status × Process) :=
  match p.phase with
  | .running =>
      if p.unreported then
        some (.stopped, { p with unreported := false })
      else
        none
  | .ended ending =>
      some (.ended ending, { p with phase := .reaped ending })
  | .reaped _ => some (.ended (.exited 0), p)

/-
  Boost.Process asks `waitpid` with `WNOHANG` alone, which
  reports no stop and never blocks.
-/
def running
    (p : Process) : Bool × Process :=
  match p.phase with
  | .running => (true, p)
  | .ended ending =>
      (false, { p with phase := .reaped ending })
  | .reaped _ => (false, p)

/- A process that is stopped already does not stop again. -/
def receive
    (p : Process) : Signal → Process
| .sigstop =>
    { p with
      stopped := true
      unreported := p.unreported || !p.stopped }
| .sigcont =>
    { p with stopped := false, unreported := false }

/- Whether `kill` returns zero, and what becomes of `p`. -/
def kill
    (p : Process)
    (signal : Signal)
    (permitted : Bool) : Bool × Process :=
  match p.phase with
  | .running =>
      if permitted then
        (true, receive p signal)
      else
        (false, p)
  | .ended _ => (permitted, p)
  | .reaped _ => (false, p)

end Suspension

end Inks

------------------------------------------------------------
-- The Handler
------------------------------------------------------------

namespace Inks

namespace Suspension

def suspend
    (proc : Option Process)
    (permitted : Bool) : Bool × Option Process :=
  match proc with
  | none => (false, none)
  | some p =>
      match running p with
      | (false, p) => (false, some p)
      | (true, p) =>
          let (sent, p) := kill p .sigstop permitted
          (sent, some p)

/- Without a process there is nothing to ask. -/
def suspended
    (proc : Option Process) :
    Option (Bool × Option Process) :=
  match proc with
  | none => none
  | some p =>
      match waitpid p with
      | none => none
      | some (status, p) => some (status.isStopped, some p)

def resume
    (proc : Option Process)
    (permitted : Bool) : Option (Bool × Option Process) :=
  match proc with
  | none => some (false, none)
  | some p =>
      match running p with
      | (false, p) => some (false, some p)
      | (true, p) =>
          match suspended (some p) with
          | some (true, some p) =>
              let (sent, p) := kill p .sigcont permitted
              some (sent, some p)
          | some (_, proc) => some (false, proc)
          | none => none

end Suspension

end Inks

------------------------------------------------------------
-- Calls
------------------------------------------------------------

namespace Inks

namespace Suspension

structure State where
  proc : Option Process
  -- Ghost: the signal of the last call that sent one.
  lastSent : Option Signal := none
  -- A call of the caller never returned.
  blocked : Bool := false
deriving DecidableEq, Repr

/- A handler that has just spawned its child. -/
def spawned : State :=
  { proc := some {} }

/- Each signal comes with whether it is permitted. -/
inductive Call where
| suspend (permitted : Bool)
| suspended
| resume (permitted : Bool)
deriving DecidableEq, Repr

namespace Call

/- The signal that a call sends if it returns `true`. -/
def signal : Call → Option Signal
| .suspend _ => some .sigstop
| .suspended => none
| .resume _ => some .sigcont

def result
    (proc : Option Process) :
    Call → Option (Bool × Option Process)
| .suspend permitted =>
    some (Suspension.suspend proc permitted)
| .suspended => Suspension.suspended proc
| .resume permitted => Suspension.resume proc permitted

end Call

/- Nothing more is called after a call that blocks. -/
def step
    (s : State)
    (call : Call) : State :=
  if s.blocked then
    s
  else
    match call.result s.proc with
    | none => { s with blocked := true }
    | some (answer, proc) =>
        { s with
          proc := proc
          lastSent :=
            if answer then
              call.signal <|> s.lastSent
            else
              s.lastSent }

def State.stopped
    (s : State) : Bool :=
  match s.proc with
  | none => false
  | some p => p.stopped

def State.unreported
    (s : State) : Bool :=
  match s.proc with
  | none => false
  | some p => p.unreported

/- What the answer of a call should be. -/
def Right
    (s : State)
    (answer : Bool) : Call → Prop
| .suspend _ => True
| .suspended =>
    answer = true ↔ s.lastSent = some .sigstop
| .resume _ => answer = true ↔ s.stopped = true

/- The call is made, it returns and its answer is right. -/
def Answers
    (s : State)
    (call : Call) : Prop :=
  s.blocked = false ∧
    ∃ answer proc,
      call.result s.proc = some (answer, proc) ∧
        Right s answer call

/- Asked once more, `suspended` gives the same answer. -/
def Repeats
    (s : State) : Call → Prop
| .suspended =>
    ∀ answer proc,
      suspended s.proc = some (answer, proc) →
        ∃ next, suspended proc = some (answer, next)
| _ => True

/-
  A stop is asked for only while it is to be reported, and a
  process is resumed only where that is permitted.
-/
def AskedOnce
    (s : State) : Call → Prop
| .suspend _ => True
| .suspended => s.unreported = true
| .resume permitted =>
    s.unreported = true ∧ permitted = true

/-
  The caller knows by itself whether the process is stopped:
  it never asks, and only resumes a stopped process.
-/
def NeverAsked
    (s : State) : Call → Prop
| .suspend _ => True
| .suspended => False
| .resume permitted => s.stopped = true ∧ permitted = true

end Suspension

end Inks

------------------------------------------------------------
-- One Call
------------------------------------------------------------

namespace Inks

namespace Suspension

/- The child lives and its caller is not blocked. -/
structure Inv
    (p : Process)
    (s : State) : Prop where
  proc : s.proc = some p
  running : p.phase = .running
  unblocked : s.blocked = false
  reports : p.unreported = true → p.stopped = true
  sent : p.stopped = true ↔ s.lastSent = some .sigstop

theorem inv_spawned :
    Inv {} spawned where
  proc := rfl
  running := rfl
  unblocked := rfl
  reports := by simp
  sent := by simp [spawned]

theorem Inv.unreported_eq
    {p : Process}
    {s : State}
    (hInv : Inv p s) :
    s.unreported = p.unreported := by
  rw [State.unreported, hInv.proc]

theorem Inv.stopped_eq
    {p : Process}
    {s : State}
    (hInv : Inv p s) :
    s.stopped = p.stopped := by
  rw [State.stopped, hInv.proc]

theorem suspend_of_running
    {p : Process}
    (hRunning : p.phase = .running)
    (permitted : Bool) :
    suspend (some p) permitted =
      (permitted,
        some
          (if permitted then
            receive p .sigstop
          else
            p)) := by
  cases permitted with
  | true => simp [suspend, running, kill, hRunning]
  | false => simp [suspend, running, kill, hRunning]

theorem suspended_of_unreported
    {p : Process}
    (hRunning : p.phase = .running)
    (hUnreported : p.unreported = true) :
    suspended (some p) =
      some (true, some { p with unreported := false }) := by
  simp [suspended, waitpid, hRunning, hUnreported,
    Status.isStopped]

/- Nothing is to be reported: `waitpid` blocks. -/
theorem suspended_of_reported
    {p : Process}
    (hRunning : p.phase = .running)
    (hReported : p.unreported = false) :
    suspended (some p) = none := by
  simp [suspended, waitpid, hRunning, hReported]

theorem resume_of_unreported
    {p : Process}
    (hRunning : p.phase = .running)
    (hUnreported : p.unreported = true)
    (permitted : Bool) :
    resume (some p) permitted =
      some (permitted,
        some
          (if permitted then
            receive { p with unreported := false } .sigcont
          else
            { p with unreported := false })) := by
  have hAsked :=
    suspended_of_unreported hRunning hUnreported
  cases permitted with
  | true =>
      simp [resume, Suspension.running, hRunning, hAsked,
        kill]
  | false =>
      simp [resume, Suspension.running, hRunning, hAsked,
        kill]

theorem resume_of_reported
    {p : Process}
    (hRunning : p.phase = .running)
    (hReported : p.unreported = false)
    (permitted : Bool) :
    resume (some p) permitted = none := by
  have hAsked := suspended_of_reported hRunning hReported
  simp [resume, Suspension.running, hRunning, hAsked]

/- What is left after a call that was made as it should. -/
def after
    (p : Process) : Call → Process
| .suspend permitted =>
    if permitted then receive p .sigstop else p
| .suspended => { p with unreported := false }
| .resume _ =>
    receive { p with unreported := false } .sigcont

/- Whether such a call returns `true`. -/
def answered : Call → Bool
| .suspend permitted => permitted
| .suspended => true
| .resume _ => true

theorem result_of_askedOnce
    {p : Process}
    {s : State}
    {call : Call}
    (hInv : Inv p s)
    (hAsked : AskedOnce s call) :
    call.result s.proc =
      some (answered call, some (after p call)) := by
  rw [hInv.proc]
  cases call with
  | suspend permitted =>
      simp only [Call.result, answered, after]
      rw [suspend_of_running hInv.running]
  | suspended =>
      have hUnreported : p.unreported = true :=
        hInv.unreported_eq.symm.trans hAsked
      exact suspended_of_unreported hInv.running hUnreported
  | resume permitted =>
      have hUnreported : p.unreported = true :=
        hInv.unreported_eq.symm.trans hAsked.1
      have hPermitted : permitted = true := hAsked.2
      simp only [Call.result, answered, after]
      rw [resume_of_unreported hInv.running hUnreported,
        hPermitted, if_pos rfl]

theorem step_of_askedOnce
    {p : Process}
    {s : State}
    {call : Call}
    (hInv : Inv p s)
    (hAsked : AskedOnce s call) :
    step s call =
      { s with
        proc := some (after p call)
        lastSent :=
          if answered call then
            call.signal <|> s.lastSent
          else
            s.lastSent } := by
  have hResult := result_of_askedOnce hInv hAsked
  simp [step, hInv.unblocked, hResult]

/- Such a call keeps the account of the child right. -/
theorem Inv.step
    {p : Process}
    {s : State}
    {call : Call}
    (hInv : Inv p s)
    (hAsked : AskedOnce s call) :
    Inv (after p call) (step s call) := by
  rw [step_of_askedOnce hInv hAsked]
  cases call with
  | suspend permitted =>
      cases permitted with
      | true =>
          refine ⟨rfl, hInv.running, hInv.unblocked, ?_, ?_⟩
          · intro _
            rfl
          · simp [after, receive, answered, Call.signal]
      | false =>
          exact ⟨rfl, hInv.running, hInv.unblocked,
            hInv.reports, hInv.sent⟩
  | suspended =>
      refine ⟨rfl, hInv.running, hInv.unblocked, ?_, ?_⟩
      · simp [after]
      · simpa [after, answered, Call.signal] using hInv.sent
  | resume permitted =>
      refine ⟨rfl, hInv.running, hInv.unblocked, ?_, ?_⟩
      · simp [after, receive]
      · simp [after, receive, answered, Call.signal]

/- A call is answered when it is made as it should. -/
theorem Inv.answers_iff
    {p : Process}
    {s : State}
    (hInv : Inv p s)
    (call : Call) :
    Answers s call ↔ AskedOnce s call := by
  constructor
  · intro hAnswers
    rcases hAnswers with ⟨_, answer, proc, hResult, hRight⟩
    rw [hInv.proc] at hResult
    cases call with
    | suspend permitted => trivial
    | suspended =>
        by_contra hNot
        have hReported : p.unreported = false := by
          rw [← hInv.unreported_eq]
          exact Bool.eq_false_iff.mpr hNot
        rw [Call.result,
          suspended_of_reported hInv.running hReported]
          at hResult
        cases hResult
    | resume permitted =>
        cases hUnreported : p.unreported with
        | false =>
            rw [Call.result,
              resume_of_reported hInv.running hUnreported]
              at hResult
            cases hResult
        | true =>
            rw [Call.result,
              resume_of_unreported hInv.running
                hUnreported] at hResult
            cases hResult
            have hStopped : s.stopped = true :=
              hInv.stopped_eq.trans
                (hInv.reports hUnreported)
            exact ⟨hInv.unreported_eq.trans hUnreported,
              hRight.mpr hStopped⟩
  · intro hAsked
    refine ⟨hInv.unblocked, answered call,
      some (after p call),
      result_of_askedOnce hInv hAsked, ?_⟩
    cases call with
    | suspend permitted => trivial
    | suspended =>
        have hUnreported : p.unreported = true :=
          hInv.unreported_eq.symm.trans hAsked
        apply iff_of_true rfl
        exact hInv.sent.mp (hInv.reports hUnreported)
    | resume permitted =>
        have hUnreported : p.unreported = true :=
          hInv.unreported_eq.symm.trans hAsked.1
        apply iff_of_true rfl
        exact hInv.stopped_eq.trans
          (hInv.reports hUnreported)

/- The first answer takes away what the second needs. -/
theorem Inv.not_repeats
    {p : Process}
    {s : State}
    (hInv : Inv p s)
    (hUnreported : p.unreported = true) :
    ¬ Repeats s .suspended := by
  intro hRepeats
  have hFirst :=
    suspended_of_unreported hInv.running hUnreported
  rw [← hInv.proc] at hFirst
  rcases hRepeats _ _ hFirst with ⟨next, hSecond⟩
  rw [suspended_of_reported (by exact hInv.running) rfl]
    at hSecond
  cases hSecond

end Suspension

end Inks

------------------------------------------------------------
-- Runs of Calls
------------------------------------------------------------

namespace Inks

namespace Suspension

/- Every call so far has returned. -/
def Live
    (s : State) : Prop :=
  ∃ p, Inv p s

theorem live_spawned : Live spawned :=
  ⟨{}, inv_spawned⟩

/- Nobody asked so far, so every stop is to be reported. -/
def Unasked
    (p : Process)
    (s : State) : Prop :=
  Inv p s ∧ p.unreported = p.stopped

theorem Unasked.askedOnce_iff
    {p : Process}
    {s : State}
    (hUnasked : Unasked p s)
    (permitted : Bool) :
    AskedOnce s (.resume permitted) ↔
      NeverAsked s (.resume permitted) := by
  rcases hUnasked with ⟨hInv, hSame⟩
  rw [AskedOnce, NeverAsked, hInv.unreported_eq,
    hInv.stopped_eq, hSame]

theorem Unasked.askedOnce
    {p : Process}
    {s : State}
    {call : Call}
    (hUnasked : Unasked p s)
    (hNever : NeverAsked s call) :
    AskedOnce s call := by
  cases call with
  | suspend permitted => trivial
  | suspended => exact hNever.elim
  | resume permitted =>
      exact (hUnasked.askedOnce_iff permitted).mpr hNever

theorem Unasked.step
    {p : Process}
    {s : State}
    {call : Call}
    (hUnasked : Unasked p s)
    (hNever : NeverAsked s call) :
    Unasked (after p call) (step s call) := by
  have hAsked := hUnasked.askedOnce hNever
  refine ⟨hUnasked.1.step hAsked, ?_⟩
  have hSame := hUnasked.2
  cases call with
  | suspend permitted =>
      cases permitted with
      | true =>
          cases hStopped : p.stopped with
          | true => simp [after, receive, hStopped, hSame]
          | false => simp [after, receive, hStopped]
      | false => exact hSame
  | suspended => exact hNever.elim
  | resume permitted => rfl

theorem Unasked.answers_iff
    {p : Process}
    {s : State}
    (hUnasked : Unasked p s)
    (call : Call) :
    Answers s call ∧ Repeats s call ↔ NeverAsked s call := by
  have hAnswers := hUnasked.1.answers_iff call
  cases call with
  | suspend permitted =>
      rw [hAnswers]
      exact iff_of_true ⟨trivial, trivial⟩ trivial
  | suspended =>
      apply iff_of_false
      · intro hBoth
        have hAsked := hAnswers.mp hBoth.1
        have hUnreported : p.unreported = true :=
          hUnasked.1.unreported_eq.symm.trans hAsked
        exact hUnasked.1.not_repeats hUnreported hBoth.2
      · exact not_false
  | resume permitted =>
      rw [hAnswers, hUnasked.askedOnce_iff]
      exact and_iff_left trivial

def Unheard
    (s : State) : Prop :=
  ∃ p, Unasked p s

theorem unheard_spawned : Unheard spawned :=
  ⟨{}, inv_spawned, rfl⟩

/-
  When all calls return with the right answer, and when
  `suspended` gives the same answer once more besides.
-/
theorem agrees_iff
    (calls : List Call) :
    (Transition.Along step Answers spawned calls ↔
        Transition.Along step AskedOnce spawned calls) ∧
      (Transition.Along step
          (fun s call => Answers s call ∧ Repeats s call)
          spawned calls ↔
        Transition.Along step NeverAsked spawned calls) := by
  constructor
  · apply Transition.along_iff_along live_spawned
    · intro s call hInv hAsked
      rcases hInv with ⟨p, hInv⟩
      exact ⟨_, hInv.step hAsked⟩
    · intro s call hInv
      rcases hInv with ⟨p, hInv⟩
      exact hInv.answers_iff call
  · apply Transition.along_iff_along unheard_spawned
    · intro s call hUnasked hNever
      rcases hUnasked with ⟨p, hUnasked⟩
      exact ⟨_, hUnasked.step hNever⟩
    · intro s call hUnasked
      rcases hUnasked with ⟨p, hUnasked⟩
      exact hUnasked.answers_iff call

/- The child is stopped, and asking makes `resume` block. -/
theorem resume_blocks_after_suspended :
    let asked :=
      Transition.run step spawned
        [.suspend true, .suspended]
    asked.stopped = true ∧ asked.blocked = false ∧
      (step asked (.resume true)).blocked = true ∧
      (step asked .suspended).blocked = true ∧
      (step spawned (.resume true)).blocked = true ∧
      ¬ Transition.Along step Answers spawned
        [.suspend true, .suspended, .resume true] := by
  refine ⟨by decide, by decide, by decide, by decide,
    by decide, ?_⟩
  intro hAlong
  rcases hAlong [.suspend true, .suspended] (.resume true)
    (List.prefix_refl _) with ⟨_, answer, proc, hResult, _⟩
  cases hResult

end Suspension

end Inks
