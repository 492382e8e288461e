import Inks.Library.Run

/-
  Simulation with stuttering: each step of a machine is
  matched by a list of events of another one, which may be
  empty. The lists of a whole run, put together, drive the
  other machine to a state that matches.

  Key definitions include:
    * `Transition.trace`
    * `Transition.Simulates`

  Key theorems include:
    * `Transition.filterMap_trace`
    * `Transition.Simulates.run`
    * `Transition.Simulates.along`
-/

------------------------------------------------------------
-- Matching Events
------------------------------------------------------------

namespace Transition

variable {S T E F O : Type*}

/- The events that match a run, each with its state. -/
def trace
    (step : S → E → S)
    (label : S → E → List F) : S → List E → List F
| _, [] => []
| s, event :: events =>
    label s event ++ trace step label (step s event) events

variable {step : S → E → S} {label : S → E → List F}

@[simp] theorem trace_nil
    (s : S) :
    trace step label s [] = [] := rfl

theorem trace_append
    (s : S)
    (past future : List E) :
    trace step label s (past ++ future) =
      trace step label s past ++
        trace step label (run step s past) future := by
  induction past generalizing s with
  | nil => rfl
  | cons event past ih =>
      rw [List.cons_append, trace, trace, ih,
        List.append_assoc]
      rfl

theorem trace_concat
    (s : S)
    (past : List E)
    (event : E) :
    trace step label s (past ++ [event]) =
      trace step label s past ++
        label (run step s past) event := by
  rw [trace_append, trace, trace_nil, List.append_nil]

/-
  What can be observed of the matching events is what can be
  observed of the events, when this is so at each step.
-/
theorem filterMap_trace
    {Inv : S → Prop}
    {seen : F → Option O}
    {shown : E → Option O}
    (hStep : ∀ s event, Inv s → Inv (step s event))
    (hSeen :
      ∀ s event, Inv s →
        (label s event).filterMap seen =
          (shown event).toList)
    {s : S}
    (hInit : Inv s)
    (events : List E) :
    (trace step label s events).filterMap seen =
      events.filterMap shown := by
  induction events generalizing s with
  | nil => rfl
  | cons event events ih =>
      rw [trace, List.filterMap_append, hSeen s event hInit,
        ih (hStep s event hInit), List.filterMap_cons]
      cases shown event <;> rfl

end Transition

------------------------------------------------------------
-- Simulation
------------------------------------------------------------

namespace Transition

variable {S T E F : Type*}

/-
  Related states stay related when one machine takes a step
  and the other one the events that match it.
-/
def Simulates
    (step : S → E → S)
    (spec : T → F → T)
    (label : S → E → List F)
    (R : S → T → Prop) : Prop :=
  ∀ s t event, R s t →
    R (step s event) (run spec t (label s event))

variable {step : S → E → S} {spec : T → F → T}
variable {label : S → E → List F} {R : S → T → Prop}

theorem Simulates.run
    (hSim : Simulates step spec label R)
    {s : S}
    {t : T}
    (hRelated : R s t)
    (events : List E) :
    R (Transition.run step s events)
      (Transition.run spec t
        (trace step label s events)) := by
  induction events using List.reverseRecOn with
  | nil => exact hRelated
  | append_singleton events event ih =>
      rw [run_concat, trace_concat, run_append]
      exact hSim _ _ event ih

/- What each matching list does step by step, the run does. -/
theorem Simulates.along
    (hSim : Simulates step spec label R)
    {P : T → F → Prop}
    (hLabel :
      ∀ s t event, R s t →
        Along spec P t (label s event))
    {s : S}
    {t : T}
    (hRelated : R s t)
    (events : List E) :
    Along spec P t (trace step label s events) := by
  induction events using List.reverseRecOn with
  | nil => simp
  | append_singleton events event ih =>
      rw [trace_concat, along_append_iff]
      refine ⟨ih, ?_⟩
      exact hLabel _ _ event (hSim.run hRelated events)

end Transition
