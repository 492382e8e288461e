import Inks.Process.Steps

/-
  Whether the table of handlers refers to live processes.

  An entry is removed when its process is waited for or
  terminated, but not when the process ends by itself. The
  table then still has an entry for its pid, and a later
  process that is given this pid does not get one.

  Key definitions include:
    * `LastWith`
    * `ProcessManager.RefersToLive`
    * `ProcessManager.FreshPid`
    * `ProcessManager.TableInv`

  Key theorems include:
    * `ProcessManager.refers_to_live_iff`
-/

------------------------------------------------------------
-- Statements
------------------------------------------------------------

namespace Inks

/- Child `n` is the last one that was given the pid. -/
def LastWith
    {ε : Type}
    (children : List (Child ε))
    (pid : Int)
    (n : Nat) : Prop :=
  (∃ child, children[n]? = some child ∧ child.pid = pid) ∧
    ∀ m child, children[m]? = some child →
      child.pid = pid → m ≤ n

namespace ProcessManager

variable {ε : Type}

/- The table maps the pid to the handler of child `n`. -/
def Refers
    (pm : ProcessManager ε)
    (pid : Int)
    (n : Nat) : Prop :=
  ∃ h, pm.handlers.lookup pid = some h ∧ h.proc = some n

/- Every running process is found under its pid. -/
def RunningFound
    (pm : ProcessManager ε) : Prop :=
  ∀ n child, pm.children[n]? = some child →
    child.phase = .running → pm.Refers child.pid n

/-
  A spawn that returns a pid leaves its own handler in the
  table and its process running.
-/
def KeepsHandler
    (pm : ProcessManager ε)
    (result : Int × ProcessManager ε) : Prop :=
  result.1 ≠ -1 →
    result.2.Refers result.1 pm.children.length ∧
      ∃ child,
        result.2.children[pm.children.length]? =
            some child ∧
          child.pid = result.1 ∧
          child.phase = .running

def SpawnKept
    (pm : ProcessManager ε) : ProcessEvent ε → Prop
| .spawn opts exitCb outcome taken =>
    pm.KeepsHandler (pm.spawn opts exitCb outcome taken)
| _ => True

/-
  Terminating a pid ends the last process that was given
  this pid, if it still runs, and no other.
-/
def TerminatesLast
    (pm : ProcessManager ε) : ProcessEvent ε → Prop
| .terminate pid =>
    (∀ n child, LastWith pm.children pid n →
      pm.children[n]? = some child →
      child.phase = .running →
        (pm.terminate pid).children[n]? =
          some (child.wait Ending.sigkill)) ∧
    ∀ n, ¬ LastWith pm.children pid n →
      (pm.terminate pid).children[n]? = pm.children[n]?
| _ => True

/- Along a run the table refers to the live processes. -/
def RefersToLive
    (pm : ProcessManager ε)
    (events : List (ProcessEvent ε)) : Prop :=
  Transition.Along step SpawnKept pm events ∧
    Transition.Always step RunningFound pm events ∧
    Transition.Along step TerminatesLast pm events

/- The pid given to a new process has no entry yet. -/
def FreshPid
    (pm : ProcessManager ε) : ProcessEvent ε → Prop
| .spawn _ _ (some pid) _ => (pid : Int) ∉ pm.handlers
| _ => True

/- The system gives no pid that is in use to a process. -/
def FreePid
    (pm : ProcessManager ε) : ProcessEvent ε → Prop
| .spawn _ _ (some pid) _ =>
    ∀ child ∈ pm.children, child.pid = pid →
      ∃ ending, child.phase = .reaped ending
| _ => True

end ProcessManager

end Inks

------------------------------------------------------------
-- The Table Invariant
------------------------------------------------------------

namespace Inks

theorem LastWith.unique
    {ε : Type}
    {children : List (Child ε)}
    {pid : Int}
    {m n : Nat}
    (hLeft : LastWith children pid m)
    (hRight : LastWith children pid n) :
    m = n := by
  rcases hLeft with ⟨⟨child, hChild, hPid⟩, hMax⟩
  rcases hRight with ⟨⟨other, hOther, hOtherPid⟩, hMax'⟩
  exact Nat.le_antisymm
    (hMax' m child hChild hPid)
    (hMax n other hOther hOtherPid)

theorem LastWith.congr
    {ε : Type}
    {children others : List (Child ε)}
    {pid : Int}
    {n : Nat}
    (hPids :
      others.map Child.pid = children.map Child.pid)
    (hLast : LastWith children pid n) :
    LastWith others pid n := by
  have hGet :
      ∀ m : Nat, others[m]?.map Child.pid =
        children[m]?.map Child.pid := by
    intro m
    rw [← List.getElem?_map, ← List.getElem?_map, hPids]
  rcases hLast with ⟨⟨child, hChild, hPid⟩, hMax⟩
  constructor
  · have hHere := hGet n
    rw [hChild] at hHere
    rcases Option.map_eq_some_iff.mp hHere with
      ⟨other, hOther, hSame⟩
    exact ⟨other, hOther, hSame.trans hPid⟩
  · intro m other hOther hOtherPid
    have hThere := hGet m
    rw [hOther] at hThere
    rcases Option.map_eq_some_iff.mp hThere.symm with
      ⟨old, hOld, hSame⟩
    exact hMax m old hOld (hSame.trans hOtherPid)

namespace ProcessManager

variable {ε : Type}

/-
  Every entry is the handler of the last process that was
  given its pid, and every running process is found.
-/
structure TableInv
    (pm : ProcessManager ε) : Prop where
  last :
    Table.All
      (fun pid h =>
        ∃ n, h.proc = some n ∧
          LastWith pm.children pid n)
      pm.handlers
  found : pm.RunningFound

theorem TableInv.empty :
    TableInv ({} : ProcessManager ε) where
  last := Table.all_empty
  found := by
    intro n child hChild
    simp at hChild

theorem TableInv.quieter
    {s t : ProcessManager ε}
    (hInv : TableInv s)
    (hQuieter : Quieter s t) :
    TableInv t where
  last := by
    intro pid h hLookup
    rcases hInv.last pid h (hQuieter.kept pid h hLookup)
      with ⟨n, hProc, hLast⟩
    exact ⟨n, hProc, hLast.congr hQuieter.pids⟩
  found := by
    intro n child hChild hRunning
    have hBefore :=
      hQuieter.running n child hChild hRunning
    rcases hInv.found n child hBefore hRunning with
      ⟨h, hLookup, hProc⟩
    exact
      ⟨h,
        hQuieter.removed child.pid h n child hLookup
          hProc hChild hRunning,
        hProc⟩

theorem lastWith_concat
    {children : List (Child ε)}
    {pid : Int}
    {n : Nat}
    {child : Child ε}
    (hLast : LastWith children pid n)
    (hNe : child.pid ≠ pid) :
    LastWith (children ++ [child]) pid n := by
  rcases hLast with ⟨⟨old, hOld, hPid⟩, hMax⟩
  constructor
  · refine ⟨old, ?_, hPid⟩
    rw [List.getElem?_append_left
      (List.getElem?_eq_some_iff.mp hOld).1]
    exact hOld
  · intro m other hOther hOtherPid
    rcases getElem?_concat_cases hOther with
      hOld | ⟨_, rfl⟩
    · exact hMax m other hOld hOtherPid
    · exact absurd hOtherPid hNe

/- The newest process is the last with its pid. -/
theorem lastWith_new
    (children : List (Child ε))
    (child : Child ε) :
    LastWith (children ++ [child]) child.pid
      children.length := by
  constructor
  · exact ⟨child, List.getElem?_concat_length, rfl⟩
  · intro m other hOther _
    have hLt := (List.getElem?_eq_some_iff.mp hOther).1
    simp only [List.length_append, List.length_singleton]
      at hLt
    omega

/- A spawn with a fresh pid keeps the table in order. -/
theorem TableInv.spawn
    {pm : ProcessManager ε}
    (hInv : TableInv pm)
    {pid : Int}
    {h : ProcessHandler ε}
    {child : Child ε}
    (hFresh : pid ∉ pm.handlers)
    (hProc : h.proc = some pm.children.length)
    (hPid : child.pid = pid) :
    TableInv
      { pm with
        handlers := pm.handlers.emplace pid h
        children := pm.children ++ [child] } where
  last := by
    intro other g hLookup
    rcases Table.lookup_emplace_cases hLookup with
      hOld | ⟨_, rfl, rfl⟩
    · rcases hInv.last other g hOld with ⟨n, hN, hLast⟩
      have hNe : child.pid ≠ other := by
        rw [hPid]
        rintro rfl
        exact hFresh (Table.mem_of_lookup hOld)
      exact ⟨n, hN, lastWith_concat hLast hNe⟩
    · refine ⟨_, hProc, ?_⟩
      rw [← hPid]
      exact lastWith_new pm.children child
  found := by
    intro n other hOther hRunning
    rcases getElem?_concat_cases hOther with
      hOld | ⟨rfl, rfl⟩
    · rcases hInv.found n other hOld hRunning with
        ⟨g, hLookup, hN⟩
      exact
        ⟨g, Table.lookup_emplace_of_lookup hLookup, hN⟩
    · refine ⟨h, ?_, hProc⟩
      rw [hPid]
      exact Table.lookup_emplace_of_notMem hFresh

theorem TableInv.step
    {pm : ProcessManager ε}
    (hInv : TableInv pm)
    (event : ProcessEvent ε)
    (hFresh : FreshPid pm event) :
    TableInv (pm.step event) := by
  by_cases hSpawn :
      ∃ opts exitCb pid taken,
        event = .spawn opts exitCb (some pid) taken
  · rcases hSpawn with ⟨opts, exitCb, pid, taken, rfl⟩
    simp only [ProcessManager.step,
      spawn_of_fresh hFresh opts exitCb taken]
    exact hInv.spawn hFresh rfl rfl
  · apply hInv.quieter
    apply quieter_step
    intro opts exitCb pid taken hEq
    exact hSpawn ⟨opts, exitCb, pid, taken, hEq⟩

end ProcessManager

end Inks

------------------------------------------------------------
-- When the Table Refers to Live Processes
------------------------------------------------------------

namespace Inks

namespace ProcessManager

variable {ε : Type}

/- Under a pid in use the new handler is not kept. -/
theorem not_keepsHandler_of_used
    {pm : ProcessManager ε}
    (hInv : TableInv pm)
    {pid : Nat}
    (hUsed : (pid : Int) ∈ pm.handlers)
    (opts : ProcessOptions)
    (exitCb : Option (Int → ε))
    (taken : Bool) :
    ¬ pm.KeepsHandler
      (pm.spawn opts exitCb (some pid) taken) := by
  intro hKept
  have hPid : (pid : Int) ≠ -1 := by omega
  rcases Table.exists_lookup_of_mem hUsed with ⟨old, hOld⟩
  rcases hInv.last pid old hOld with
    ⟨n, hN, ⟨child, hChild, _⟩, _⟩
  have hLt : n < pm.children.length :=
    (List.getElem?_eq_some_iff.mp hChild).1
  rw [spawn_some] at hKept
  rcases (hKept hPid).1 with ⟨h, hLookup, hProc⟩
  simp only [Table.emplace_of_mem hUsed, hOld] at hLookup
  cases hLookup
  rw [hN] at hProc
  cases hProc
  omega

/- A spawn keeps its handler when its pid has no entry. -/
theorem spawnKept_iff_freshPid
    {pm : ProcessManager ε}
    (hInv : TableInv pm)
    (event : ProcessEvent ε) :
    SpawnKept pm event ↔ FreshPid pm event := by
  cases event with
  | spawn opts exitCb outcome taken =>
      cases outcome with
      | none =>
          simp [SpawnKept, KeepsHandler, FreshPid,
            ProcessManager.spawn, ProcessHandler.spawn]
      | some pid =>
          constructor
          · intro hKept hUsed
            exact not_keepsHandler_of_used hInv hUsed
              opts exitCb taken hKept
          · intro hFresh
            simp only [SpawnKept,
              spawn_of_fresh hFresh opts exitCb taken]
            intro _
            refine ⟨⟨pm.newHandler exitCb, ?_, rfl⟩,
              newChild opts exitCb pid, ?_, rfl, rfl⟩
            · exact Table.lookup_emplace_of_notMem hFresh
            · exact List.getElem?_concat_length
  | ends n ending => simp [SpawnKept, FreshPid]
  | reaps n => simp [SpawnKept, FreshPid]
  | wait pid ending => simp [SpawnKept, FreshPid]
  | terminate pid => simp [SpawnKept, FreshPid]
  | terminateWithChildren pid =>
      simp [SpawnKept, FreshPid]

/- The entry of a terminated pid, and what it refers to. -/
theorem children_terminate
    {pm : ProcessManager ε}
    {pid : Int}
    {h : ProcessHandler ε}
    {n : Nat}
    (hLookup : pm.handlers.lookup pid = some h)
    (hProc : h.proc = some n) :
    (pm.terminate pid).children =
      pm.children.modify n
        (Child.wait Ending.sigkill) := by
  have hIdle :
      h.running
        (pm.children.modify n
          (Child.wait Ending.sigkill)) = false := by
    unfold ProcessHandler.running
    rw [hProc]
    simp only [List.getElem?_modify_eq]
    cases pm.children[n]? <;> simp
  unfold ProcessManager.terminate findHandler
  simp only [hLookup, removeHandler,
    ProcessHandler.terminate, hProc,
    ProcessHandler.destroy, hIdle]
  simp

theorem TableInv.terminatesLast
    {pm : ProcessManager ε}
    (hInv : TableInv pm)
    (event : ProcessEvent ε) :
    TerminatesLast pm event := by
  cases event with
  | terminate pid =>
      cases hLookup : pm.handlers.lookup pid with
      | none =>
          have hSame : pm.terminate pid = pm := by
            simp [ProcessManager.terminate, findHandler,
              removeHandler, hLookup]
          constructor
          · intro n child hLast hChild hRunning
            rcases hLast.1 with ⟨other, hOther, hPid⟩
            rw [hChild] at hOther
            cases hOther
            rcases hInv.found n child hChild hRunning with
              ⟨h, hFound, _⟩
            rw [hPid, hLookup] at hFound
            cases hFound
          · intro n _
            rw [hSame]
      | some h =>
          rcases hInv.last pid h hLookup with
            ⟨k, hProc, hLast⟩
          have hChildren :=
            children_terminate hLookup hProc
          constructor
          · intro n child hOther hChild _
            have hEq : k = n :=
              hLast.unique hOther
            subst hEq
            rw [hChildren, List.getElem?_modify_eq, hChild]
            rfl
          · intro n hNot
            have hNe : k ≠ n := by
              rintro rfl
              exact hNot hLast
            rw [hChildren,
              List.getElem?_modify_ne _ _ hNe]
  | spawn opts exitCb outcome taken => trivial
  | ends n ending => trivial
  | reaps n => trivial
  | wait pid ending => trivial
  | terminateWithChildren pid => trivial

/-
  The table refers to the live processes along a run exactly
  when no process is given a pid that still has an entry,
  left behind by one that ended by itself.
-/
theorem refers_to_live_iff
    (events : List (ProcessEvent ε)) :
    RefersToLive {} events ↔
      Transition.Along step FreshPid {} events := by
  have hStep :
      ∀ (pm : ProcessManager ε) event, TableInv pm →
        FreshPid pm event → TableInv (pm.step event) := by
    intro pm event hInv hFresh
    exact hInv.step event hFresh
  have hKept :
      Transition.Along step SpawnKept {} events ↔
        Transition.Along step FreshPid {} events :=
    Transition.along_iff_along TableInv.empty hStep
      (fun _ event hInv =>
        spawnKept_iff_freshPid hInv event)
      events
  constructor
  · rintro ⟨hSpawns, _, _⟩
    exact hKept.mp hSpawns
  · intro hFresh
    have hInv :=
      Transition.always_of_along TableInv.empty hStep hFresh
    refine ⟨hKept.mpr hFresh, ?_, ?_⟩
    · intro past hPrefix
      exact (hInv past hPrefix).found
    · intro past event hPrefix
      exact (hInv past
        ((List.prefix_append _ _).trans
          hPrefix)).terminatesLast event

/-
  A process ends by itself, and its pid comes back: the
  entry under it is still the one of the old process.
-/
theorem not_refers_to_live :
    let events : List (ProcessEvent Unit) :=
      [.spawn {} none (some 7) false, .ends 0 (.exited 0), .reaps 0,
        .spawn {} none (some 7) false]
    Transition.Along step FreePid {} events ∧
      ¬ RefersToLive {} events := by
  constructor
  · simp [Transition.along_cons_iff, FreePid, step, spawn,
      ProcessHandler.spawn, Child.ends, Child.reaps]
  · rintro ⟨hSpawns, _, _⟩
    simp only [Transition.along_cons_iff] at hSpawns
    have hKept := hSpawns.2.2.2.1
    rcases (hKept (by decide)).1 with
      ⟨h, hLookup, hProc⟩
    cases hLookup
    cases hProc

end ProcessManager

end Inks
