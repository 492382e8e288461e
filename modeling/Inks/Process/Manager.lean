import Inks.Library.Run
import Inks.Library.Table
import Inks.Process.Handler

/-
  The table of the subprocesses that the program started.

  Key definitions include:
    * `ProcessManager`
    * `ProcessManager.spawn`
    * `ProcessManager.terminate`
    * `ProcessEvent`
    * `ProcessManager.step`
-/

------------------------------------------------------------
-- Member Functions
------------------------------------------------------------

namespace Inks

structure ProcessManager
    (ε : Type) where
  handlers : Table Int (ProcessHandler ε) := ∅
  -- Ghost: every child started so far, in order.
  children : List (Child ε) := []

namespace ProcessManager

variable {ε : Type}

/- What the event loop calls when the children end. -/
def callbacks
    (pm : ProcessManager ε) : List (Int → Option ε) :=
  pm.children.map Child.onExit

def findHandler
    (pm : ProcessManager ε)
    (pid : Int) : Option (ProcessHandler ε) :=
  pm.handlers.lookup pid

/- Erasing an entry destroys the handler it owns. -/
def removeHandler
    (pm : ProcessManager ε)
    (pid : Int) : ProcessManager ε :=
  match pm.handlers.lookup pid with
  | none => pm
  | some h =>
      { pm with
        handlers := pm.handlers.erase pid
        children := h.destroy pm.children }

/-
  Start a subprocess and record its handler. The result of
  `emplace` is not looked at. Under a pid in use nothing is
  inserted, and whether the handler was already `taken` over
  by the new element, and so is destroyed with it, or leaks
  is up to the library.
-/
def spawn
    (pm : ProcessManager ε)
    (opts : ProcessOptions)
    (exitCb : Option (Int → ε))
    (outcome : Option Nat)
    (taken : Bool) : Int × ProcessManager ε :=
  let h : ProcessHandler ε := {}
  let h :=
    match exitCb with
    | some cb => h.exitCallback cb
    | none => h
  let (pid, h, children) := h.spawn pm.children opts outcome
  if pid = -1 then
    (pid, pm)
  else
    (pid,
      { pm with
        handlers := pm.handlers.emplace pid h
        children :=
          if pid ∈ pm.handlers ∧ taken then
            h.destroy children
          else
            children })

def wait
    (pm : ProcessManager ε)
    (pid : Int)
    (ending : Ending) : Int × ProcessManager ε :=
  match pm.findHandler pid with
  | none => (-1, pm)
  | some h =>
      let children := h.wait pm.children ending
      (h.exitCode children,
        removeHandler { pm with children := children } pid)

def terminate
    (pm : ProcessManager ε)
    (pid : Int) : ProcessManager ε :=
  match pm.findHandler pid with
  | none => pm.removeHandler pid
  | some h =>
      removeHandler
        { pm with children := h.terminate pm.children } pid

/- `Process_Killer` does nothing here yet. -/
def terminateWithChildren
    (pm : ProcessManager ε)
    (pid : Int) : ProcessManager ε :=
  pm.removeHandler pid

end ProcessManager

end Inks

------------------------------------------------------------
-- Events
------------------------------------------------------------

namespace Inks

/-
  What can happen: a call of a member function, with what
  the system and the library decide in it, or the end of a
  child by itself and the moment that end is noticed.
-/
inductive ProcessEvent
    (ε : Type) where
| spawn
    (opts : ProcessOptions)
    (exitCb : Option (Int → ε))
    (outcome : Option Nat)
    (taken : Bool)
| ends (n : Nat) (ending : Ending)
| reaps (n : Nat)
| wait (pid : Int) (ending : Ending)
| terminate (pid : Int)
| terminateWithChildren (pid : Int)

namespace ProcessManager

variable {ε : Type}

/-
  Calls come one after the other. A call of `wait` is one
  step here, although it gives the lock up in the middle;
  `Waiting` has its critical sections one by one.
-/
def step
    (pm : ProcessManager ε) :
    ProcessEvent ε → ProcessManager ε
| .spawn opts exitCb outcome taken =>
    (pm.spawn opts exitCb outcome taken).2
| .ends n ending =>
    { pm with
      children :=
        pm.children.modify n (Child.ends ending) }
| .reaps n =>
    { pm with children := pm.children.modify n Child.reaps }
| .wait pid ending => (pm.wait pid ending).2
| .terminate pid => pm.terminate pid
| .terminateWithChildren pid =>
    pm.terminateWithChildren pid

end ProcessManager

end Inks
