import Inks.Foundation.Bytes

/-
  One subprocess and the handler that started it.

  A handler refers to its child by the position of the child
  among all children started so far. The child carries what
  Boost.Process and the operating system keep of it, which
  outlives the handler. The pipes of the child are left out.

  What an exit callback does is a value of a type `ε`.

  Key definitions include:
    * `Child`
    * `ProcessHandler`
    * `ProcessHandler.spawn`
    * `ProcessHandler.terminate`, `ProcessHandler.destroy`
-/

------------------------------------------------------------
-- Children
------------------------------------------------------------

namespace Inks

/- How a subprocess is started. -/
structure ProcessOptions where
  exe : ByteString := []
  args : List ByteString := []
  envs : List (ByteString × ByteString) := []
  interactive : Bool := false
deriving DecidableEq, Repr

/- A process exits with a code or is ended by a signal. -/
inductive Ending where
| exited (code : UInt8)
| signaled (signal : UInt8)
deriving DecidableEq, Repr

namespace Ending

def sigkill : Ending :=
  .signaled 9

/-
  What Boost.Process makes of the wait status: the exit code
  or else the number of the signal.
-/
def decoded : Ending → Int
| .exited code => code.toNat
| .signaled signal => signal.toNat

end Ending

/-
  Where a child is in its life. The system may give the pid
  of a reaped child, but of no other, to a new one.
-/
inductive Phase where
| running
| ended (ending : Ending)
| reaped (ending : Ending)
deriving DecidableEq, Repr

/- A position in a list that grew by one record. -/
theorem getElem?_concat_cases
    {α : Type*}
    {xs : List α}
    {x y : α}
    {n : Nat}
    (hGet : (xs ++ [x])[n]? = some y) :
    xs[n]? = some y ∨ (n = xs.length ∧ y = x) := by
  rcases Nat.lt_trichotomy n xs.length with
    hLt | rfl | hGt
  · rw [List.getElem?_append_left hLt] at hGet
    exact Or.inl hGet
  · rw [List.getElem?_concat_length] at hGet
    exact Or.inr ⟨rfl, (Option.some.inj hGet).symm⟩
  · rw [List.getElem?_append_right (Nat.le_of_lt hGt),
      List.getElem?_eq_none] at hGet
    · cases hGet
    · simp only [List.length_singleton]
      omega

structure Child
    (ε : Type) where
  pid : Int
  opts : ProcessOptions
  -- The handler given to `on_exit`.
  onExit : Int → Option ε
  phase : Phase := .running

namespace Child

variable {ε : Type}

/- The child ends by itself. -/
def ends
    (ending : Ending)
    (child : Child ε) : Child ε :=
  match child.phase with
  | .running => { child with phase := .ended ending }
  | _ => child

/- The end of the child is noticed. -/
def reaps
    (child : Child ε) : Child ε :=
  match child.phase with
  | .ended ending => { child with phase := .reaped ending }
  | _ => child

/- Wait for the child, which may end in the given way. -/
def wait
    (ending : Ending)
    (child : Child ε) : Child ε :=
  (child.ends ending).reaps

def exitCode
    (child : Child ε) : Int :=
  match child.phase with
  | .running => -1
  | .ended ending => ending.decoded
  | .reaped ending => ending.decoded

/- Ending a child changes nothing else about it. -/
@[simp] theorem ends_frame
    (ending : Ending)
    (child : Child ε) :
    (child.ends ending).pid = child.pid ∧
      (child.ends ending).onExit = child.onExit := by
  unfold ends
  cases child.phase <;> simp

@[simp] theorem reaps_frame
    (child : Child ε) :
    child.reaps.pid = child.pid ∧
      child.reaps.onExit = child.onExit := by
  unfold reaps
  cases child.phase <;> simp

@[simp] theorem wait_frame
    (ending : Ending)
    (child : Child ε) :
    (child.wait ending).pid = child.pid ∧
      (child.wait ending).onExit = child.onExit := by
  simp [wait]

@[simp] theorem ends_not_running
    (ending : Ending)
    (child : Child ε) :
    (child.ends ending).phase ≠ .running := by
  unfold ends
  cases hPhase : child.phase <;> simp [hPhase]

theorem reaps_running
    {child : Child ε}
    (hRunning : child.reaps.phase = .running) :
    child.reaps = child := by
  unfold reaps at hRunning ⊢
  cases hPhase : child.phase <;> simp_all

@[simp] theorem wait_not_running
    (ending : Ending)
    (child : Child ε) :
    (child.wait ending).phase ≠ .running := by
  intro hRunning
  unfold wait at hRunning
  rw [reaps_running hRunning] at hRunning
  exact ends_not_running ending child hRunning

end Child

end Inks

------------------------------------------------------------
-- Handlers
------------------------------------------------------------

namespace Inks

structure ProcessHandler
    (ε : Type) where
  -- The position of its child among all children.
  proc : Option Nat := none
  exitCb : Option (Int → ε) := none

namespace ProcessHandler

variable {ε : Type}

def exitCallback
    (h : ProcessHandler ε)
    (cb : Int → ε) : ProcessHandler ε :=
  { h with exitCb := some cb }

/- What `spawn` gives to `on_exit`. -/
def onExit
    (h : ProcessHandler ε)
    (exitCode : Int) : Option ε :=
  match h.exitCb with
  | some cb => some (cb exitCode)
  | none => none

/-
  Start a child. The outcome is the pid that the system
  gives to it, or nothing when `bp::child` throws. The pipes
  are made in front of the `try` block, and the exception of
  a pipe that cannot be made is left out.
-/
def spawn
    (h : ProcessHandler ε)
    (children : List (Child ε))
    (opts : ProcessOptions)
    (outcome : Option Nat) :
    Int × ProcessHandler ε × List (Child ε) :=
  match outcome with
  | none => (-1, { h with proc := none }, children)
  | some pid =>
      (pid, { h with proc := some children.length },
        children ++
          [{ pid := pid
             opts := opts
             onExit := h.onExit }])

def running
    (h : ProcessHandler ε)
    (children : List (Child ε)) : Bool :=
  match h.proc with
  | none => false
  | some n =>
      match children[n]? with
      | none => false
      | some child => child.phase == .running

/- Block until the child ends. -/
def wait
    (h : ProcessHandler ε)
    (children : List (Child ε))
    (ending : Ending) : List (Child ε) :=
  match h.proc with
  | none => children
  | some n => children.modify n (Child.wait ending)

/- Kill the child when it is running and wait for it. -/
def terminate
    (h : ProcessHandler ε)
    (children : List (Child ε)) : List (Child ε) :=
  match h.proc with
  | none => children
  | some n => children.modify n (Child.wait Ending.sigkill)

def exitCode
    (h : ProcessHandler ε)
    (children : List (Child ε)) : Int :=
  match h.proc with
  | none => -1
  | some n =>
      match children[n]? with
      | none => -1
      | some child => child.exitCode

/- The destructor. -/
def destroy
    (h : ProcessHandler ε)
    (children : List (Child ε)) : List (Child ε) :=
  if h.running children then
    h.terminate children
  else
    children

end ProcessHandler

end Inks
