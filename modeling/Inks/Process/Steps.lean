import Inks.Process.Manager

/-
  What one event does to the table of subprocesses, said
  once for every proof about it.

  Key definitions include:
    * `ProcessManager.Quieter`

  Key theorems include:
    * `ProcessManager.quieter_step`
    * `ProcessManager.spawn_some`
    * `ProcessManager.callbacks_spawn`
-/

------------------------------------------------------------
-- Ending Processes
------------------------------------------------------------

namespace Inks

namespace ProcessManager

variable {ε : Type}

/-
  What every event but a spawn does: some processes end, and
  entries are removed once their process has ended.
-/
structure Quieter
    (s t : ProcessManager ε) : Prop where
  pids :
    t.children.map Child.pid = s.children.map Child.pid
  callbacks : t.callbacks = s.callbacks
  running :
    ∀ (n : Nat) (child : Child ε),
      t.children[n]? = some child →
      child.phase = .running →
      s.children[n]? = some child
  kept :
    ∀ pid h, t.handlers.lookup pid = some h →
      s.handlers.lookup pid = some h
  removed :
    ∀ pid h (n : Nat) (child : Child ε),
      s.handlers.lookup pid = some h →
      h.proc = some n →
      t.children[n]? = some child →
      child.phase = .running →
      t.handlers.lookup pid = some h

theorem Quieter.refl
    (s : ProcessManager ε) :
    Quieter s s where
  pids := rfl
  callbacks := rfl
  running := fun _ _ hChild _ => hChild
  kept := fun _ _ hLookup => hLookup
  removed := fun _ _ _ _ hLookup _ _ _ => hLookup

theorem Quieter.trans
    {s t u : ProcessManager ε}
    (hFirst : Quieter s t)
    (hSecond : Quieter t u) :
    Quieter s u where
  pids := hSecond.pids.trans hFirst.pids
  callbacks := hSecond.callbacks.trans hFirst.callbacks
  running := by
    intro n child hChild hRunning
    exact hFirst.running n child
      (hSecond.running n child hChild hRunning) hRunning
  kept := by
    intro pid h hLookup
    exact hFirst.kept pid h (hSecond.kept pid h hLookup)
  removed := by
    intro pid h n child hLookup hProc hChild hRunning
    have hBefore :=
      hSecond.running n child hChild hRunning
    have hKept :=
      hFirst.removed pid h n child hLookup hProc
        hBefore hRunning
    exact hSecond.removed pid h n child hKept hProc
      hChild hRunning

/- What modifying a record keeps, all records keep. -/
theorem map_modify
    {α β : Type*}
    {f : α → α}
    {g : α → β}
    (hKept : ∀ x, g (f x) = g x)
    (xs : List α)
    (n : Nat) :
    (xs.modify n f).map g = xs.map g := by
  apply List.ext_getElem?
  intro m
  rw [List.getElem?_map, List.getElem?_map,
    List.getElem?_modify]
  split
  · cases xs[m]? <;> simp [hKept]
  · simp

/- A process that ends, or whose end is noticed. -/
theorem Quieter.modify
    (s : ProcessManager ε)
    (n : Nat)
    {f : Child ε → Child ε}
    (hFrame :
      ∀ child, (f child).pid = child.pid ∧
        (f child).onExit = child.onExit)
    (hRunning :
      ∀ child, (f child).phase = .running →
        f child = child) :
    Quieter s
      { s with children := s.children.modify n f } where
  pids := map_modify (fun child => (hFrame child).1) _ n
  callbacks :=
    map_modify (fun child => (hFrame child).2) _ n
  running := by
    intro m child hChild hPhase
    by_cases hEq : n = m
    · subst hEq
      rw [List.getElem?_modify_eq] at hChild
      rcases Option.map_eq_some_iff.mp hChild with
        ⟨old, hOld, rfl⟩
      rw [hRunning old hPhase]
      exact hOld
    · rw [List.getElem?_modify_ne _ _ hEq] at hChild
      exact hChild
  kept := fun _ _ hLookup => hLookup
  removed := fun _ _ _ _ hLookup _ _ _ => hLookup

/- Killing the process of a handler and waiting for it. -/
theorem Quieter.wait
    (s : ProcessManager ε)
    (h : ProcessHandler ε)
    (ending : Ending) :
    Quieter s
      { s with children := h.wait s.children ending } := by
  unfold ProcessHandler.wait
  cases h.proc with
  | none => exact Quieter.refl s
  | some n =>
      apply Quieter.modify s n
      · intro child
        simp
      · intro child hPhase
        exact absurd hPhase (Child.wait_not_running _ _)

theorem terminate_eq_wait
    (h : ProcessHandler ε)
    (children : List (Child ε)) :
    h.terminate children =
      h.wait children Ending.sigkill := rfl

/- A destroyed handler leaves no running process behind. -/
theorem destroy_not_running
    (h : ProcessHandler ε)
    {children : List (Child ε)}
    {n : Nat}
    {child : Child ε}
    (hProc : h.proc = some n)
    (hChild : (h.destroy children)[n]? = some child) :
    child.phase ≠ .running := by
  unfold ProcessHandler.destroy at hChild
  split at hChild
  · rw [terminate_eq_wait, ProcessHandler.wait, hProc]
      at hChild
    simp only [List.getElem?_modify_eq] at hChild
    rcases Option.map_eq_some_iff.mp hChild with
      ⟨old, _, rfl⟩
    exact Child.wait_not_running _ _
  · rename_i hIdle
    simpa [ProcessHandler.running, hProc, hChild]
      using hIdle

theorem Quieter.destroy
    (s : ProcessManager ε)
    (h : ProcessHandler ε) :
    Quieter s
      { s with children := h.destroy s.children } := by
  unfold ProcessHandler.destroy
  split
  · rw [terminate_eq_wait]
    exact Quieter.wait s h _
  · exact Quieter.refl s

theorem Quieter.removeHandler
    (s : ProcessManager ε)
    (pid : Int) :
    Quieter s (s.removeHandler pid) := by
  unfold ProcessManager.removeHandler
  cases hLookup : s.handlers.lookup pid with
  | none => exact Quieter.refl s
  | some h =>
      have hDestroy := Quieter.destroy s h
      constructor
      · exact hDestroy.pids
      · exact hDestroy.callbacks
      · exact hDestroy.running
      · intro other g hOther
        exact (Table.lookup_erase_cases hOther).2
      · intro other g n child hOther hProc hChild hPhase
        have hNe : other ≠ pid := by
          rintro rfl
          rw [hLookup] at hOther
          cases hOther
          exact destroy_not_running h hProc hChild hPhase
        simpa [AList.lookup_erase_ne hNe] using hOther

theorem Quieter.terminate
    (s : ProcessManager ε)
    (pid : Int) :
    Quieter s (s.terminate pid) := by
  unfold ProcessManager.terminate
  cases s.findHandler pid with
  | none => exact Quieter.removeHandler s pid
  | some h =>
      simp only [terminate_eq_wait]
      exact (Quieter.wait s h _).trans
        (Quieter.removeHandler _ pid)

theorem Quieter.waitFor
    (s : ProcessManager ε)
    (pid : Int)
    (ending : Ending) :
    Quieter s (s.wait pid ending).2 := by
  unfold ProcessManager.wait
  cases s.findHandler pid with
  | none => exact Quieter.refl s
  | some h =>
      exact (Quieter.wait s h ending).trans
        (Quieter.removeHandler _ pid)

/- Every event that starts no process is a quiet one. -/
theorem quieter_step
    (s : ProcessManager ε)
    (event : ProcessEvent ε)
    (hSpawn :
      ∀ opts exitCb pid taken,
        event ≠ .spawn opts exitCb (some pid) taken) :
    Quieter s (s.step event) := by
  cases event with
  | spawn opts exitCb outcome taken =>
      cases outcome with
      | some pid =>
          exact absurd rfl (hSpawn opts exitCb pid taken)
      | none => exact Quieter.refl s
  | ends n ending =>
      apply Quieter.modify s n
      · intro child
        simp
      · intro child hPhase
        exact absurd hPhase (Child.ends_not_running _ _)
  | reaps n =>
      apply Quieter.modify s n
      · intro child
        simp
      · intro child hPhase
        exact Child.reaps_running hPhase
  | wait pid ending => exact Quieter.waitFor s pid _
  | terminate pid => exact Quieter.terminate s pid
  | terminateWithChildren pid =>
      exact Quieter.removeHandler s pid

end ProcessManager

end Inks

------------------------------------------------------------
-- Starting Processes
------------------------------------------------------------

namespace Inks

namespace ProcessManager

variable {ε : Type}

/- The child that a successful spawn adds. -/
def newChild
    (opts : ProcessOptions)
    (exitCb : Option (Int → ε))
    (pid : Nat) : Child ε where
  pid := pid
  opts := opts
  onExit := ProcessHandler.onExit { exitCb := exitCb }

/- The handler of the child that a spawn adds. -/
def newHandler
    (pm : ProcessManager ε)
    (exitCb : Option (Int → ε)) : ProcessHandler ε where
  proc := some pm.children.length
  exitCb := exitCb

/- What a spawn does that gets a pid. -/
theorem spawn_some
    (pm : ProcessManager ε)
    (opts : ProcessOptions)
    (exitCb : Option (Int → ε))
    (pid : Nat)
    (taken : Bool) :
    pm.spawn opts exitCb (some pid) taken =
      ((pid : Int),
        { handlers :=
            pm.handlers.emplace pid (pm.newHandler exitCb)
          children :=
            if (pid : Int) ∈ pm.handlers ∧ taken then
              (pm.newHandler exitCb).destroy
                (pm.children ++ [newChild opts exitCb pid])
            else
              pm.children ++
                [newChild opts exitCb pid] }) := by
  have hPid : (pid : Int) ≠ -1 := by omega
  cases exitCb with
  | none =>
      simp only [spawn, ProcessHandler.spawn, hPid,
        if_false]
      rfl
  | some cb =>
      simp only [spawn, ProcessHandler.spawn, hPid,
        if_false]
      rfl

/- A pid without an entry gets the new handler. -/
theorem spawn_of_fresh
    {pm : ProcessManager ε}
    {pid : Nat}
    (hFresh : (pid : Int) ∉ pm.handlers)
    (opts : ProcessOptions)
    (exitCb : Option (Int → ε))
    (taken : Bool) :
    pm.spawn opts exitCb (some pid) taken =
      ((pid : Int),
        { handlers :=
            pm.handlers.emplace pid (pm.newHandler exitCb)
          children :=
            pm.children ++
              [newChild opts exitCb pid] }) := by
  rw [spawn_some, if_neg]
  intro hUsed
  exact hFresh hUsed.1

/- Destroying a handler leaves the callbacks in place. -/
theorem callbacks_destroy
    (h : ProcessHandler ε)
    (children : List (Child ε)) :
    (h.destroy children).map Child.onExit =
      children.map Child.onExit :=
  (Quieter.destroy { children := children } h).callbacks

/- A spawn adds the callback of its process. -/
theorem callbacks_spawn
    (pm : ProcessManager ε)
    (opts : ProcessOptions)
    (exitCb : Int → ε)
    (pid : Nat)
    (taken : Bool) :
    (pm.spawn opts (some exitCb) (some pid) taken).2.callbacks =
      pm.callbacks ++
        [fun exitCode => some (exitCb exitCode)] := by
  have hNew :
      (newChild opts (some exitCb) pid).onExit =
        fun exitCode => some (exitCb exitCode) := rfl
  rw [spawn_some]
  unfold callbacks
  split
  · rw [callbacks_destroy, List.map_append, List.map_cons,
      List.map_nil, hNew]
  · rw [List.map_append, List.map_cons, List.map_nil, hNew]

end ProcessManager

end Inks
