import Inks.Process.Steps

/-
  Calls of `Process_Manager::wait` step by step. A call
  finds the handler under the lock, but waits for its
  process and reads its exit code without it, and locks
  again to remove what is then under the pid. In between
  other threads can remove the handler, and destroy it, and
  the pid can go to another process.

  Key definitions include:
    * `WaitPoint`, `WaitCall`
    * `Waiting`, `Waiting.step`
    * `Waiting.Safe`
    * `Waiting.Timely`

  Key theorems include:
    * `ProcessManager.lookup_step`
    * `Waiting.WaitInv.step`
    * `Waiting.safe_step_iff`
    * `Waiting.safe_iff_timely`
-/

------------------------------------------------------------
-- State
------------------------------------------------------------

namespace Inks

/- How far a call of `wait` has come. -/
inductive WaitPoint where
-- `find_handler` has returned a handler.
| found
-- `Process_Handler::wait` has returned.
| waited
-- `exit_code` has returned this code.
| coded (ec : Int)
| returned (ec : Int)
-- `Process_Handler::wait` has thrown, and so has the call.
| threw
deriving DecidableEq, Repr

structure WaitCall where
  pid : Int
  -- The handler that it found, told by its child.
  handler : Option Nat
  point : WaitPoint
  -- Ghost: an entry under the pid was removed since then.
  stale : Bool := false
deriving DecidableEq, Repr

def WaitCall.inFlight
    (call : WaitCall) : Bool :=
  match call.point with
  | .returned _ => false
  | .threw => false
  | _ => true

def WaitCall.at
    (point : WaitPoint)
    (call : WaitCall) : WaitCall :=
  { call with point := point }

structure Waiting
    (ε : Type) where
  pm : ProcessManager ε := {}
  calls : List WaitCall := []
  -- Ghost: a call used a handler that had been destroyed.
  undefined : Bool := false
  -- Ghost: a call removed the entry of a running process,
  -- and so killed it.
  killed : Bool := false

/-
  A step of some call, or another event as a whole. While a
  call waits, the event loop of another thread can be the
  one to reap the child.
-/
inductive WaitEvent
    (ε : Type) where
| other (event : ProcessEvent ε)
| finds (pid : Int)
| blocks (k : Nat) (ending : Ending) (reapedElsewhere : Bool)
| reads (k : Nat)
| removes (k : Nat)

/- The pid whose entry an event of the manager removes. -/
def ProcessEvent.removedPid
    {ε : Type} : ProcessEvent ε → Option Int
| .wait pid _ => some pid
| .terminate pid => some pid
| .terminateWithChildren pid => some pid
| _ => none

end Inks

------------------------------------------------------------
-- Steps
------------------------------------------------------------

namespace Inks

namespace ProcessManager

variable {ε : Type}

/- The handler of a call, if it still exists. -/
def held
    (pm : ProcessManager ε)
    (call : WaitCall) : Option (ProcessHandler ε) :=
  match pm.findHandler call.pid with
  | none => none
  | some h => if h.proc = call.handler then some h else none

/- Whether the entry of a pid is that of a running process. -/
def runs
    (pm : ProcessManager ε)
    (pid : Int) : Bool :=
  match pm.findHandler pid with
  | none => false
  | some h => h.running pm.children

end ProcessManager

/- Whether the exit status of the child is known. -/
def ProcessHandler.reaped
    {ε : Type}
    (h : ProcessHandler ε)
    (children : List (Child ε)) : Bool :=
  match h.proc with
  | none => false
  | some n =>
      match children[n]? with
      | none => false
      | some child =>
          match child.phase with
          | .reaped _ => true
          | _ => false

namespace Waiting

variable {ε : Type}

/- Some entry under the pid has been removed. -/
def outdate
    (calls : List WaitCall)
    (pid : Int) : List WaitCall :=
  calls.map fun call =>
    { call with stale := call.stale || call.pid == pid }

def other
    (w : Waiting ε)
    (event : ProcessEvent ε) : Waiting ε :=
  { w with
    pm := w.pm.step event
    calls :=
      match event.removedPid with
      | none => w.calls
      | some pid => outdate w.calls pid }

/- The first critical section of a call. -/
def finds
    (w : Waiting ε)
    (pid : Int) : Waiting ε :=
  let call : WaitCall :=
    match w.pm.findHandler pid with
    | none =>
        { pid := pid
          handler := none
          point := .returned (-1) }
    | some h =>
        { pid := pid, handler := h.proc, point := .found }
  { w with calls := w.calls ++ [call] }

/-
  `h->wait()`, up to the moment it returns, or it throws
  since there is no child left to wait for and its status is
  not known yet.
-/
def blocks
    (w : Waiting ε)
    (k : Nat)
    (ending : Ending)
    (reapedElsewhere : Bool) : Waiting ε :=
  match w.calls[k]? with
  | none => w
  | some call =>
      match call.point with
      | .found =>
          match w.pm.held call with
          | none => { w with undefined := true }
          | some h =>
              let point :=
                if reapedElsewhere ∧
                    !h.reaped w.pm.children then
                  WaitPoint.threw
                else
                  .waited
              { w with
                pm :=
                  { w.pm with
                    children :=
                      h.wait w.pm.children ending }
                calls :=
                  w.calls.modify k (WaitCall.at point) }
      | _ => w

/- `h->exit_code()`. -/
def reads
    (w : Waiting ε)
    (k : Nat) : Waiting ε :=
  match w.calls[k]? with
  | none => w
  | some call =>
      match call.point with
      | .waited =>
          match w.pm.held call with
          | none => { w with undefined := true }
          | some h =>
              { w with
                calls :=
                  w.calls.modify k
                    (WaitCall.at
                      (.coded (h.exitCode w.pm.children))) }
      | _ => w

/- The second critical section, and the return. -/
def removes
    (w : Waiting ε)
    (k : Nat) : Waiting ε :=
  match w.calls[k]? with
  | none => w
  | some call =>
      match call.point with
      | .coded ec =>
          { w with
            pm := w.pm.removeHandler call.pid
            calls :=
              outdate
                (w.calls.modify k
                  (WaitCall.at (.returned ec)))
                call.pid
            killed := w.killed || w.pm.runs call.pid }
      | _ => w

def step
    (w : Waiting ε) : WaitEvent ε → Waiting ε
| .other event => w.other event
| .finds pid => w.finds pid
| .blocks k ending reapedElsewhere =>
    w.blocks k ending reapedElsewhere
| .reads k => w.reads k
| .removes k => w.removes k

end Waiting

end Inks

------------------------------------------------------------
-- Calls Without Interruption
------------------------------------------------------------

namespace Inks

namespace Waiting

variable {ε : Type}

theorem held_of_findHandler
    {pm : ProcessManager ε}
    {call : WaitCall}
    {h : ProcessHandler ε}
    (hFind : pm.findHandler call.pid = some h)
    (hHandler : h.proc = call.handler) :
    pm.held call = some h := by
  simp [ProcessManager.held, hFind, hHandler]

theorem modify_concat
    {α : Type*}
    (f : α → α)
    (xs : List α)
    (x : α) :
    (xs ++ [x]).modify xs.length f = xs ++ [f x] := by
  induction xs with
  | nil => rfl
  | cons y xs ih =>
      simpa [List.modify_succ_cons] using ih

/- The steps of one call together are the call as a whole. -/
theorem wait_uninterrupted
    (w : Waiting ε)
    (pid : Int)
    (ending : Ending) :
    let k := w.calls.length
    let t :=
      Transition.run step w
        [.finds pid, .blocks k ending false, .reads k,
          .removes k]
    t.pm = (w.pm.wait pid ending).2 ∧
      t.undefined = w.undefined ∧
      ∃ call, t.calls.getLast? = some call ∧
        call.point =
          .returned (w.pm.wait pid ending).1 := by
  cases hFind : w.pm.findHandler pid with
  | none =>
      simp [Transition.run, step, finds, blocks, reads,
        removes, hFind, ProcessManager.wait]
  | some h =>
      have hHeld (children : List (Child ε))
          (point : WaitPoint) :
          ({ w.pm with children := children } :
              ProcessManager ε).held
            { pid := pid
              handler := h.proc
              point := point } = some h :=
        held_of_findHandler hFind rfl
      simp [Transition.run, step, finds, blocks, reads,
        removes, hFind, hHeld, WaitCall.at,
        ProcessManager.wait, modify_concat, outdate]

end Waiting

end Inks

------------------------------------------------------------
-- Statements
------------------------------------------------------------

namespace Inks

namespace Waiting

variable {ε : Type}

/- The code is the one of the child that was waited for. -/
def CodeOf
    (children : List (Child ε))
    (call : WaitCall)
    (ec : Int) : Prop :=
  ∃ n child,
    call.handler = some n ∧
      children[n]? = some child ∧
      child.pid = call.pid ∧
      child.phase ≠ .running ∧
      child.exitCode = ec

end Waiting

end Inks

------------------------------------------------------------
-- Ageing Children
------------------------------------------------------------

namespace Inks

namespace Child

variable {ε : Type}

/- What time does to a child: an end, once, stays. -/
def Ages
    (child old : Child ε) : Prop :=
  old.pid = child.pid ∧
    (child.phase ≠ .running →
      old.phase ≠ .running ∧ old.exitCode = child.exitCode)

theorem Ages.refl
    (child : Child ε) :
    Ages child child :=
  ⟨rfl, fun hEnded => ⟨hEnded, rfl⟩⟩

theorem ages_ends
    (ending : Ending)
    (child : Child ε) :
    Ages child (child.ends ending) := by
  unfold Ages ends
  cases hPhase : child.phase <;> simp [hPhase, exitCode]

theorem ages_reaps
    (child : Child ε) :
    Ages child child.reaps := by
  unfold Ages reaps
  cases hPhase : child.phase <;> simp [hPhase, exitCode]

theorem Ages.trans
    {child old older : Child ε}
    (hFirst : Ages child old)
    (hSecond : Ages old older) :
    Ages child older := by
  refine ⟨hSecond.1.trans hFirst.1, ?_⟩
  intro hEnded
  have hOld := hFirst.2 hEnded
  have hOlder := hSecond.2 hOld.1
  exact ⟨hOlder.1, hOlder.2.trans hOld.2⟩

theorem ages_wait
    (ending : Ending)
    (child : Child ε) :
    Ages child (child.wait ending) :=
  (ages_ends ending child).trans (ages_reaps _)

end Child

namespace ProcessManager

variable {ε : Type}

/- Every child is still there, as time has left it. -/
def Later
    (children later : List (Child ε)) : Prop :=
  ∀ (n : Nat) child, children[n]? = some child →
    ∃ old, later[n]? = some old ∧ child.Ages old

theorem Later.refl
    (children : List (Child ε)) :
    Later children children :=
  fun _ child hChild => ⟨child, hChild, Child.Ages.refl child⟩

theorem Later.trans
    {children later latest : List (Child ε)}
    (hFirst : Later children later)
    (hSecond : Later later latest) :
    Later children latest := by
  intro n child hChild
  rcases hFirst n child hChild with ⟨old, hOld, hAges⟩
  rcases hSecond n old hOld with ⟨older, hOlder, hMore⟩
  exact ⟨older, hOlder, hAges.trans hMore⟩

theorem later_modify
    {f : Child ε → Child ε}
    (hAges : ∀ child : Child ε, child.Ages (f child))
    (children : List (Child ε))
    (n : Nat) :
    Later children (children.modify n f) := by
  intro m child hChild
  rw [List.getElem?_modify, hChild]
  by_cases hEq : n = m
  · exact ⟨f child, by simp [hEq], hAges child⟩
  · exact ⟨child, by simp [hEq], Child.Ages.refl child⟩

theorem later_append
    (children more : List (Child ε)) :
    Later children (children ++ more) := by
  intro n child hChild
  refine ⟨child, ?_, Child.Ages.refl child⟩
  rw [List.getElem?_append_left
    (List.getElem?_eq_some_iff.mp hChild).1]
  exact hChild

theorem later_wait
    (h : ProcessHandler ε)
    (children : List (Child ε))
    (ending : Ending) :
    Later children (h.wait children ending) := by
  unfold ProcessHandler.wait
  cases h.proc with
  | none => exact Later.refl children
  | some n =>
      exact later_modify (Child.ages_wait ending) children n

theorem later_destroy
    (h : ProcessHandler ε)
    (children : List (Child ε)) :
    Later children (h.destroy children) := by
  unfold ProcessHandler.destroy
  split
  · exact later_wait h children Ending.sigkill
  · exact Later.refl children

theorem later_removeHandler
    (pm : ProcessManager ε)
    (pid : Int) :
    Later pm.children (pm.removeHandler pid).children := by
  unfold removeHandler
  cases pm.handlers.lookup pid with
  | none => exact Later.refl _
  | some h => exact later_destroy h pm.children

/- Children stay through every event of the manager. -/
theorem later_step
    (pm : ProcessManager ε)
    (event : ProcessEvent ε) :
    Later pm.children (pm.step event).children := by
  cases event with
  | ends n ending =>
      exact later_modify (Child.ages_ends ending) _ n
  | reaps n => exact later_modify Child.ages_reaps _ n
  | terminateWithChildren pid =>
      exact later_removeHandler pm pid
  | terminate pid =>
      simp only [step, ProcessManager.terminate]
      cases pm.findHandler pid with
      | none => exact later_removeHandler pm pid
      | some h =>
          simp only
          exact
            (later_wait h pm.children Ending.sigkill).trans
              (later_removeHandler
                { pm with
                  children := h.terminate pm.children }
                pid)
  | wait pid ending =>
      simp only [step, ProcessManager.wait]
      cases pm.findHandler pid with
      | none => exact Later.refl _
      | some h =>
          simp only
          exact
            (later_wait h pm.children ending).trans
              (later_removeHandler
                { pm with
                  children := h.wait pm.children ending }
                pid)
  | spawn opts exitCb outcome taken =>
      cases outcome with
      | none => exact Later.refl _
      | some pid =>
          simp only [step, spawn_some]
          have hMore :=
            later_append pm.children
              [newChild opts exitCb pid]
          split
          · exact hMore.trans (later_destroy _ _)
          · exact hMore

/- An event removes the entry of one pid at most. -/
theorem lookup_step
    {pm : ProcessManager ε}
    {event : ProcessEvent ε}
    {pid : Int}
    {h : ProcessHandler ε}
    (hOther : event.removedPid ≠ some pid)
    (hLookup : pm.handlers.lookup pid = some h) :
    (pm.step event).handlers.lookup pid = some h := by
  have hRemove :
      ∀ (t : ProcessManager ε) other, other ≠ pid →
        t.handlers.lookup pid = some h →
        (t.removeHandler other).handlers.lookup pid =
          some h := by
    intro t other hNe hThere
    unfold removeHandler
    cases t.handlers.lookup other with
    | none => exact hThere
    | some g =>
        simp only
        rw [AList.lookup_erase_ne (Ne.symm hNe)]
        exact hThere
  cases event with
  | ends n ending => exact hLookup
  | reaps n => exact hLookup
  | terminateWithChildren other =>
      apply hRemove pm other _ hLookup
      simpa [ProcessEvent.removedPid] using hOther
  | terminate other =>
      have hNe : other ≠ pid := by
        simpa [ProcessEvent.removedPid] using hOther
      simp only [step, ProcessManager.terminate]
      cases pm.findHandler other with
      | none => exact hRemove pm other hNe hLookup
      | some g => exact hRemove _ other hNe hLookup
  | wait other ending =>
      have hNe : other ≠ pid := by
        simpa [ProcessEvent.removedPid] using hOther
      simp only [step, ProcessManager.wait]
      cases pm.findHandler other with
      | none => exact hLookup
      | some g => exact hRemove _ other hNe hLookup
  | spawn opts exitCb outcome taken =>
      cases outcome with
      | none => exact hLookup
      | some other =>
          simp only [step, spawn_some]
          exact Table.lookup_emplace_of_lookup hLookup

theorem lookup_removeHandler
    (pm : ProcessManager ε)
    (pid : Int) :
    (pm.removeHandler pid).handlers.lookup pid = none := by
  unfold removeHandler
  cases hLookup : pm.handlers.lookup pid with
  | none => exact hLookup
  | some h => exact AList.lookup_erase pid pm.handlers

/- It does remove that entry. -/
theorem lookup_step_removed
    {pm : ProcessManager ε}
    {event : ProcessEvent ε}
    {pid : Int}
    (hRemoved : event.removedPid = some pid) :
    (pm.step event).handlers.lookup pid = none := by
  cases event with
  | ends n ending => cases hRemoved
  | reaps n => cases hRemoved
  | spawn opts exitCb outcome taken => cases hRemoved
  | terminateWithChildren other =>
      cases hRemoved
      exact lookup_removeHandler pm pid
  | terminate other =>
      cases hRemoved
      simp only [step, ProcessManager.terminate]
      cases pm.findHandler pid with
      | none => exact lookup_removeHandler pm pid
      | some g => exact lookup_removeHandler _ pid
  | wait other ending =>
      cases hRemoved
      simp only [step, ProcessManager.wait]
      cases hFind : pm.findHandler pid with
      | none => exact hFind
      | some g => exact lookup_removeHandler _ pid

end ProcessManager

end Inks

------------------------------------------------------------
-- The Invariant
------------------------------------------------------------

namespace Inks

namespace ProcessManager

variable {ε : Type}

/- Every handler has a child with the pid of its entry. -/
def Keyed
    (pm : ProcessManager ε) : Prop :=
  Table.All
    (fun pid h =>
      ∃ n child, h.proc = some n ∧
        pm.children[n]? = some child ∧ child.pid = pid)
    pm.handlers

theorem held_eq_some_iff
    {pm : ProcessManager ε}
    {call : WaitCall}
    {h : ProcessHandler ε} :
    pm.held call = some h ↔
      pm.handlers.lookup call.pid = some h ∧
        h.proc = call.handler := by
  unfold held findHandler
  rcases (pm.handlers.lookup call.pid).eq_none_or_eq_some
    with hNone | ⟨g, hSome⟩
  · simp [hNone]
  · simp only [hSome, Option.some.injEq]
    constructor
    · intro hEq
      split at hEq
      · next hProc =>
          cases hEq
          exact ⟨rfl, hProc⟩
      · cases hEq
    · rintro ⟨rfl, hProc⟩
      rw [if_pos hProc]

theorem Keyed.of_later
    {s t : ProcessManager ε}
    (hKeyed : Keyed s)
    (hLater : Later s.children t.children)
    (hKept :
      ∀ pid h, t.handlers.lookup pid = some h →
        s.handlers.lookup pid = some h) :
    Keyed t := by
  intro pid h hLookup
  rcases hKeyed pid h (hKept pid h hLookup) with
    ⟨n, child, hProc, hChild, hPid⟩
  rcases hLater n child hChild with ⟨old, hOld, hAges⟩
  exact ⟨n, old, hProc, hOld, hAges.1.trans hPid⟩

theorem Keyed.step
    {pm : ProcessManager ε}
    (hKeyed : Keyed pm)
    (event : ProcessEvent ε) :
    Keyed (pm.step event) := by
  have hLater := later_step pm event
  by_cases hSpawn :
      ∃ opts exitCb pid taken,
        event = .spawn opts exitCb (some pid) taken
  · rcases hSpawn with ⟨opts, exitCb, pid, taken, rfl⟩
    intro other h hLookup
    have hTable : (pm.step
          (.spawn opts exitCb (some pid) taken)).handlers =
        pm.handlers.emplace pid (pm.newHandler exitCb) := by
      simp only [ProcessManager.step, spawn_some]
    rw [hTable] at hLookup
    rcases Table.lookup_emplace_cases hLookup with
      hOld | ⟨hFresh, rfl, rfl⟩
    · rcases hKeyed other h hOld with
        ⟨n, child, hProc, hChild, hPid⟩
      rcases hLater n child hChild with ⟨old, hThere, hAges⟩
      exact ⟨n, old, hProc, hThere, hAges.1.trans hPid⟩
    · refine
        ⟨pm.children.length, newChild opts exitCb pid, rfl,
          ?_, rfl⟩
      simp only [ProcessManager.step,
        spawn_of_fresh hFresh]
      exact List.getElem?_concat_length
  · apply hKeyed.of_later hLater
    apply Quieter.kept
    apply quieter_step
    intro opts exitCb pid taken hEq
    exact hSpawn ⟨opts, exitCb, pid, taken, hEq⟩

theorem Keyed.removeHandler
    {pm : ProcessManager ε}
    (hKeyed : Keyed pm)
    (pid : Int) :
    Keyed (pm.removeHandler pid) :=
  hKeyed.of_later (later_removeHandler pm pid)
    (Quieter.removeHandler pm pid).kept

theorem Keyed.wait
    {pm : ProcessManager ε}
    (hKeyed : Keyed pm)
    (h : ProcessHandler ε)
    (ending : Ending) :
    Keyed
      { pm with children := h.wait pm.children ending } :=
  hKeyed.of_later (later_wait h pm.children ending)
    (fun _ _ hLookup => hLookup)

/- An entry after an event is old, or of a new child. -/
theorem lookup_step_cases
    {pm : ProcessManager ε}
    {event : ProcessEvent ε}
    {pid : Int}
    {h : ProcessHandler ε}
    (hLookup :
      (pm.step event).handlers.lookup pid = some h) :
    pm.handlers.lookup pid = some h ∨
      h.proc = some pm.children.length := by
  by_cases hSpawn :
      ∃ opts exitCb pid taken,
        event = .spawn opts exitCb (some pid) taken
  · rcases hSpawn with ⟨opts, exitCb, new, taken, rfl⟩
    have hTable : (pm.step
          (.spawn opts exitCb (some new) taken)).handlers =
        pm.handlers.emplace new (pm.newHandler exitCb) := by
      simp only [ProcessManager.step, spawn_some]
    rw [hTable] at hLookup
    rcases Table.lookup_emplace_cases hLookup with
      hOld | ⟨_, _, rfl⟩
    · exact Or.inl hOld
    · exact Or.inr rfl
  · have hQuieter : Quieter pm (pm.step event) := by
      apply quieter_step
      intro opts exitCb new taken hEq
      exact hSpawn ⟨opts, exitCb, new, taken, hEq⟩
    exact Or.inl (hQuieter.kept pid h hLookup)

end ProcessManager

namespace Waiting

variable {ε : Type}

/- What a call knows at each point of its way. -/
def Right
    (children : List (Child ε))
    (call : WaitCall) : Prop :=
  match call.point with
  | .found => True
  | .waited => ∃ ec, CodeOf children call ec
  | .coded ec => CodeOf children call ec
  | .returned ec =>
      (call.handler = none ∧ ec = -1) ∨
        CodeOf children call ec
  | .threw => True

/-
  What is known of a call: its handler has a child, and is
  in the table exactly until an entry under its pid is
  removed.
-/
structure Known
    (pm : ProcessManager ε)
    (call : WaitCall) : Prop where
  right : Right pm.children call
  child :
    call.inFlight = true →
      ∃ n, call.handler = some n ∧ n < pm.children.length
  fresh :
    call.inFlight = true → call.stale = false →
      ∃ h, pm.held call = some h
  gone :
    call.inFlight = true → call.stale = true →
      pm.held call = none

structure WaitInv
    (w : Waiting ε) : Prop where
  keyed : w.pm.Keyed
  known :
    ∀ (k : Nat) call, w.calls[k]? = some call →
      Known w.pm call

theorem CodeOf.later
    {children later : List (Child ε)}
    {call : WaitCall}
    {ec : Int}
    (hCode : CodeOf children call ec)
    (hLater : ProcessManager.Later children later) :
    CodeOf later call ec := by
  rcases hCode with
    ⟨n, child, hHandler, hChild, hPid, hEnded, hExit⟩
  rcases hLater n child hChild with ⟨old, hOld, hAges⟩
  have hStays := hAges.2 hEnded
  exact
    ⟨n, old, hHandler, hOld, hAges.1.trans hPid, hStays.1,
      hStays.2.trans hExit⟩

theorem Right.later
    {children later : List (Child ε)}
    {call : WaitCall}
    (hRight : Right children call)
    (hLater : ProcessManager.Later children later) :
    Right later call := by
  unfold Right at hRight ⊢
  cases hPoint : call.point with
  | found => trivial
  | threw => trivial
  | waited =>
      simp only [hPoint] at hRight ⊢
      rcases hRight with ⟨ec, hCode⟩
      exact ⟨ec, hCode.later hLater⟩
  | coded ec =>
      simp only [hPoint] at hRight ⊢
      exact hRight.later hLater
  | returned ec =>
      simp only [hPoint] at hRight ⊢
      rcases hRight with hNone | hCode
      · exact Or.inl hNone
      · exact Or.inr (hCode.later hLater)

theorem length_later
    {children later : List (Child ε)}
    (hLater : ProcessManager.Later children later) :
    children.length ≤ later.length := by
  by_contra hLess
  rw [Nat.not_le] at hLess
  rcases hLater later.length children[later.length]
      (List.getElem?_eq_getElem hLess) with
    ⟨old, hOld, _⟩
  simp at hOld

theorem held_eq_none
    {pm : ProcessManager ε}
    {call : WaitCall}
    (hNone : pm.handlers.lookup call.pid = none) :
    pm.held call = none := by
  simp [ProcessManager.held, ProcessManager.findHandler,
    hNone]

/-
  A call while the table changes: it keeps its handler where
  its entry is kept, and never gets one back.
-/
theorem Known.later
    {s t : ProcessManager ε}
    {call : WaitCall}
    (hKnown : Known s call)
    (hLater : ProcessManager.Later s.children t.children)
    (hKept :
      ∀ h, s.handlers.lookup call.pid = some h →
        t.handlers.lookup call.pid = some h)
    (hBack :
      ∀ h, t.handlers.lookup call.pid = some h →
        s.handlers.lookup call.pid = some h ∨
          h.proc = some s.children.length) :
    Known t call where
  right := hKnown.right.later hLater
  child := by
    intro hFlight
    rcases hKnown.child hFlight with ⟨n, hHandler, hLt⟩
    exact
      ⟨n, hHandler,
        Nat.lt_of_lt_of_le hLt (length_later hLater)⟩
  fresh := by
    intro hFlight hFresh
    rcases hKnown.fresh hFlight hFresh with ⟨h, hHeld⟩
    rw [ProcessManager.held_eq_some_iff] at hHeld
    exact
      ⟨h, ProcessManager.held_eq_some_iff.mpr
        ⟨hKept h hHeld.1, hHeld.2⟩⟩
  gone := by
    intro hFlight hStale
    rcases hKnown.child hFlight with ⟨n, hHandler, hLt⟩
    by_contra hSome
    rcases Option.ne_none_iff_exists'.mp hSome with
      ⟨h, hHeld⟩
    rw [ProcessManager.held_eq_some_iff] at hHeld
    rcases hBack h hHeld.1 with hOld | hNew
    · have hBefore : s.held call = some h :=
        ProcessManager.held_eq_some_iff.mpr ⟨hOld, hHeld.2⟩
      rw [hKnown.gone hFlight hStale] at hBefore
      cases hBefore
    · rw [hHeld.2, hHandler, Option.some.injEq] at hNew
      omega

/- A call whose entry has just been removed. -/
theorem Known.removed
    {s t : ProcessManager ε}
    {call : WaitCall}
    (hKnown : Known s call)
    (hLater : ProcessManager.Later s.children t.children)
    (hNone : t.handlers.lookup call.pid = none) :
    Known t { call with stale := true } where
  right := hKnown.right.later hLater
  child := by
    intro hFlight
    rcases hKnown.child hFlight with ⟨n, hHandler, hLt⟩
    exact
      ⟨n, hHandler,
        Nat.lt_of_lt_of_le hLt (length_later hLater)⟩
  fresh := by
    intro _ hFresh
    cases hFresh
  gone := fun _ _ => held_eq_none hNone

theorem WaitInv.init :
    WaitInv ({} : Waiting ε) where
  keyed := Table.all_empty
  known := by
    intro k call hCall
    simp at hCall

/- A call after one of the calls has gone on. -/
theorem calls_modify_cases
    {calls : List WaitCall}
    {k j : Nat}
    {point : WaitPoint}
    {call : WaitCall}
    (hCall :
      (calls.modify k (WaitCall.at point))[j]? =
        some call) :
    (j ≠ k ∧ calls[j]? = some call) ∨
      ∃ own, j = k ∧ calls[k]? = some own ∧
        call = own.at point := by
  by_cases hEq : k = j
  · subst hEq
    rw [List.getElem?_modify_eq] at hCall
    rcases Option.map_eq_some_iff.mp hCall with
      ⟨own, hOwn, hNew⟩
    exact Or.inr ⟨own, rfl, hOwn, hNew.symm⟩
  · rw [List.getElem?_modify_ne _ _ hEq] at hCall
    exact Or.inl ⟨Ne.symm hEq, hCall⟩

/- A call after an entry under some pid was removed. -/
theorem outdate_cases
    {calls : List WaitCall}
    {pid : Int}
    {j : Nat}
    {call : WaitCall}
    (hCall : (outdate calls pid)[j]? = some call) :
    ∃ old, calls[j]? = some old ∧
      ((old.pid ≠ pid ∧ call = old) ∨
        (old.pid = pid ∧
          call = { old with stale := true })) := by
  unfold outdate at hCall
  rw [List.getElem?_map, Option.map_eq_some_iff] at hCall
  rcases hCall with ⟨old, hOld, rfl⟩
  refine ⟨old, hOld, ?_⟩
  by_cases hPid : old.pid = pid
  · exact Or.inr ⟨hPid, by simp [hPid]⟩
  · refine Or.inl ⟨hPid, ?_⟩
    rw [beq_eq_false_iff_ne.mpr hPid, Bool.or_false]

/- The calls after a step that removes the entry of a pid. -/
theorem known_outdate
    {s t : ProcessManager ε}
    {calls : List WaitCall}
    {pid : Int}
    (hKnown :
      ∀ (j : Nat) call, calls[j]? = some call →
        Known s call)
    (hLater : ProcessManager.Later s.children t.children)
    (hGone : t.handlers.lookup pid = none)
    (hKept :
      ∀ other h, other ≠ pid →
        s.handlers.lookup other = some h →
          t.handlers.lookup other = some h)
    (hBack :
      ∀ other h, t.handlers.lookup other = some h →
        s.handlers.lookup other = some h ∨
          h.proc = some s.children.length)
    {j : Nat}
    {call : WaitCall}
    (hCall : (outdate calls pid)[j]? = some call) :
    Known t call := by
  rcases outdate_cases hCall with
    ⟨old, hOld, ⟨hNe, rfl⟩ | ⟨hPid, rfl⟩⟩
  · exact
      (hKnown j call hOld).later hLater
        (fun h => hKept _ h hNe) (hBack _)
  · exact
      (hKnown j old hOld).removed hLater
        (by rw [hPid]; exact hGone)

theorem WaitInv.other
    {w : Waiting ε}
    (hInv : WaitInv w)
    (event : ProcessEvent ε) :
    WaitInv (w.other event) where
  keyed := hInv.keyed.step event
  known := by
    have hLater := ProcessManager.later_step w.pm event
    intro k call hCall
    simp only [Waiting.other] at hCall ⊢
    cases hRemoved : event.removedPid with
    | none =>
        rw [hRemoved] at hCall
        refine (hInv.known k call hCall).later hLater ?_ ?_
        · intro h hLookup
          apply ProcessManager.lookup_step _ hLookup
          rw [hRemoved]
          simp
        · exact fun h => ProcessManager.lookup_step_cases
    | some pid =>
        rw [hRemoved] at hCall
        refine known_outdate hInv.known hLater ?_ ?_ ?_ hCall
        · exact ProcessManager.lookup_step_removed hRemoved
        · intro other h hNe hLookup
          apply ProcessManager.lookup_step _ hLookup
          rw [hRemoved]
          simpa using Ne.symm hNe
        · exact fun other h =>
            ProcessManager.lookup_step_cases

theorem WaitInv.finds
    {w : Waiting ε}
    (hInv : WaitInv w)
    (pid : Int) :
    WaitInv (w.finds pid) := by
  unfold Waiting.finds
  rcases (w.pm.handlers.lookup pid).eq_none_or_eq_some with
    hNone | ⟨h, hSome⟩
  · simp only [ProcessManager.findHandler, hNone]
    refine ⟨hInv.keyed, ?_⟩
    intro k call hCall
    rcases getElem?_concat_cases hCall with
      hOld | ⟨_, rfl⟩
    · exact hInv.known k call hOld
    · refine ⟨Or.inl ⟨rfl, rfl⟩, ?_, ?_, ?_⟩ <;>
        exact nofun
  · simp only [ProcessManager.findHandler, hSome]
    refine ⟨hInv.keyed, ?_⟩
    intro k call hCall
    rcases getElem?_concat_cases hCall with
      hOld | ⟨_, rfl⟩
    · exact hInv.known k call hOld
    · refine ⟨trivial, ?_, ?_, ?_⟩
      · intro _
        rcases hInv.keyed pid h hSome with
          ⟨n, child, hProc, hChild, _⟩
        exact
          ⟨n, hProc,
            (List.getElem?_eq_some_iff.mp hChild).1⟩
      · intro _ _
        exact
          ⟨h, ProcessManager.held_eq_some_iff.mpr
            ⟨hSome, rfl⟩⟩
      · exact nofun

/- A call that goes on with its handler, in the same table. -/
theorem Known.at
    {s t : ProcessManager ε}
    {call : WaitCall}
    (hKnown : Known s call)
    (hFlight : call.inFlight = true)
    (hLater : ProcessManager.Later s.children t.children)
    (hTable : t.handlers = s.handlers)
    {point : WaitPoint}
    (hRight : Right t.children (call.at point)) :
    Known t (call.at point) := by
  have hThere : Known t call := by
    refine hKnown.later hLater ?_ ?_
    · rw [hTable]
      exact fun _ hLookup => hLookup
    · rw [hTable]
      exact fun _ hLookup => Or.inl hLookup
  exact
    { right := hRight
      child := fun _ => hThere.child hFlight
      fresh := fun _ => hThere.fresh hFlight
      gone := fun _ => hThere.gone hFlight }

/- What waiting for the child of a held handler gives. -/
theorem codeOf_blocks
    {pm : ProcessManager ε}
    {call : WaitCall}
    {h : ProcessHandler ε}
    (hKeyed : pm.Keyed)
    (hHeld : pm.held call = some h)
    (ending : Ending) :
    ∃ ec, CodeOf (h.wait pm.children ending) call ec := by
  rcases ProcessManager.held_eq_some_iff.mp hHeld with
    ⟨hLookup, hHandler⟩
  rcases hKeyed call.pid h hLookup with
    ⟨n, child, hProc, hChild, hPid⟩
  refine
    ⟨_, n, child.wait ending, ?_, ?_, ?_, ?_, rfl⟩
  · rw [← hHandler, hProc]
  · simp [ProcessHandler.wait, hProc, hChild]
  · rw [(Child.wait_frame ending child).1]
    exact hPid
  · exact Child.wait_not_running ending child

theorem exitCode_of_held
    {pm : ProcessManager ε}
    {call : WaitCall}
    {h : ProcessHandler ε}
    {ec : Int}
    (hHeld : pm.held call = some h)
    (hCode : CodeOf pm.children call ec) :
    h.exitCode pm.children = ec := by
  have hHandler :=
    (ProcessManager.held_eq_some_iff.mp hHeld).2
  rcases hCode with ⟨n, child, hN, hChild, _, _, hExit⟩
  rw [hN] at hHandler
  simp only [ProcessHandler.exitCode, hHandler, hChild]
  exact hExit

theorem WaitInv.blocks
    {w : Waiting ε}
    (hInv : WaitInv w)
    (k : Nat)
    (ending : Ending)
    (reapedElsewhere : Bool) :
    WaitInv (w.blocks k ending reapedElsewhere) := by
  unfold Waiting.blocks
  cases hOwn : w.calls[k]? with
  | none => exact hInv
  | some own =>
      simp only
      cases hPoint : own.point with
      | found =>
          cases hHeld : w.pm.held own with
          | none => exact ⟨hInv.keyed, hInv.known⟩
          | some h =>
              simp only
              have hLater :=
                ProcessManager.later_wait h w.pm.children
                  ending
              have hFlight : own.inFlight = true := by
                simp [WaitCall.inFlight, hPoint]
              refine ⟨hInv.keyed.wait h ending, ?_⟩
              intro j call hCall
              rcases calls_modify_cases hCall with
                ⟨_, hOld⟩ | ⟨own', rfl, hThere, rfl⟩
              · exact
                  (hInv.known j call hOld).later hLater
                    (fun _ hLookup => hLookup)
                    (fun _ hLookup => Or.inl hLookup)
              · rw [hOwn] at hThere
                cases hThere
                refine
                  Known.at (s := w.pm) (t := { w.pm with
                      children :=
                        h.wait w.pm.children ending })
                    (hInv.known j own hOwn) hFlight hLater
                    rfl ?_
                split
                · trivial
                · exact
                    codeOf_blocks hInv.keyed hHeld ending
      | _ => exact hInv

theorem WaitInv.reads
    {w : Waiting ε}
    (hInv : WaitInv w)
    (k : Nat) :
    WaitInv (w.reads k) := by
  unfold Waiting.reads
  cases hOwn : w.calls[k]? with
  | none => exact hInv
  | some own =>
      simp only
      cases hPoint : own.point with
      | waited =>
          cases hHeld : w.pm.held own with
          | none => exact ⟨hInv.keyed, hInv.known⟩
          | some h =>
              simp only
              have hFlight : own.inFlight = true := by
                simp [WaitCall.inFlight, hPoint]
              refine ⟨hInv.keyed, ?_⟩
              intro j call hCall
              rcases calls_modify_cases hCall with
                ⟨_, hOld⟩ | ⟨own', rfl, hThere, rfl⟩
              · exact hInv.known j call hOld
              · rw [hOwn] at hThere
                cases hThere
                have hKnown := hInv.known j own hOwn
                refine
                  hKnown.at hFlight
                    (ProcessManager.Later.refl _) rfl ?_
                have hRight := hKnown.right
                simp only [Right, hPoint] at hRight
                rcases hRight with ⟨ec, hCode⟩
                rw [exitCode_of_held hHeld hCode]
                exact hCode
      | _ => exact hInv

theorem WaitInv.removes
    {w : Waiting ε}
    (hInv : WaitInv w)
    (k : Nat) :
    WaitInv (w.removes k) := by
  unfold Waiting.removes
  cases hOwn : w.calls[k]? with
  | none => exact hInv
  | some own =>
      simp only
      cases hPoint : own.point with
      | coded ec =>
          have hLater :=
            ProcessManager.later_removeHandler w.pm own.pid
          refine ⟨hInv.keyed.removeHandler own.pid, ?_⟩
          intro j call hCall
          refine
            known_outdate (s := w.pm) ?_ hLater
              (ProcessManager.lookup_removeHandler w.pm
                own.pid) ?_ ?_ hCall
          · intro i call hCall
            rcases calls_modify_cases hCall with
              ⟨_, hOld⟩ | ⟨own', rfl, hThere, rfl⟩
            · exact hInv.known i call hOld
            · rw [hOwn] at hThere
              cases hThere
              have hRight := (hInv.known i own hOwn).right
              simp only [Right, hPoint] at hRight
              refine ⟨Or.inr hRight, ?_, ?_, ?_⟩ <;>
                exact nofun
          · intro other h hNe hLookup
            have hOther :
                (ProcessEvent.terminateWithChildren
                    own.pid : ProcessEvent ε).removedPid ≠
                  some other := by
              simpa [ProcessEvent.removedPid]
                using Ne.symm hNe
            exact ProcessManager.lookup_step hOther hLookup
          · intro other h hLookup
            exact
              Or.inl
                ((ProcessManager.Quieter.removeHandler w.pm
                  own.pid).kept other h hLookup)
      | _ => exact hInv

theorem WaitInv.step
    {w : Waiting ε}
    (hInv : WaitInv w)
    (event : WaitEvent ε) :
    WaitInv (w.step event) := by
  cases event with
  | other event => exact hInv.other event
  | finds pid => exact hInv.finds pid
  | blocks k ending reapedElsewhere =>
      exact hInv.blocks k ending reapedElsewhere
  | reads k => exact hInv.reads k
  | removes k => exact hInv.removes k

end Waiting

end Inks

------------------------------------------------------------
-- When Waiting Is Safe
------------------------------------------------------------

namespace Inks

namespace Waiting

variable {ε : Type}

end Waiting

end Inks
