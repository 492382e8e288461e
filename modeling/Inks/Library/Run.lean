import Mathlib.Data.List.Induction
import Mathlib.Data.List.Infix

/-
  Runs of a machine that is driven by events.

  A machine is a step function from a state and an event to
  the next state. Whatever the environment decides (a result
  of a call, a reading of a clock, which message arrives) is
  carried by the event, so a list of events fixes a run.

  Key definitions include:
    * `Transition.run`
    * `Transition.Always`
    * `Transition.Along`

  Key theorems include:
    * `Transition.history_induction`
    * `Transition.invariant_of_along`
    * `Transition.always_of_along`
    * `Transition.along_iff_along`
    * `Transition.always_iff_along`
    * `Transition.always_iff_along_of_good`
-/

------------------------------------------------------------
-- Runs
------------------------------------------------------------

namespace Transition

variable {S E : Type*}

/- The state reached from `s` by a list of events. -/
def run
    (step : S → E → S)
    (s : S)
    (events : List E) : S :=
  events.foldl step s

@[simp] theorem run_nil
    (step : S → E → S)
    (s : S) :
    run step s [] = s := rfl

@[simp] theorem run_concat
    (step : S → E → S)
    (s : S)
    (past : List E)
    (event : E) :
    run step s (past ++ [event]) =
      step (run step s past) event := by
  simp [run]

theorem run_append
    (step : S → E → S)
    (s : S)
    (past future : List E) :
    run step s (past ++ future) =
      run step (run step s past) future := by
  simp [run]

/- Every state of the run, the first and the last included. -/
def Always
    (step : S → E → S)
    (P : S → Prop)
    (s : S)
    (events : List E) : Prop :=
  ∀ past, past <+: events → P (run step s past)

/- Every step of the run, seen from the state before it. -/
def Along
    (step : S → E → S)
    (P : S → E → Prop)
    (s : S)
    (events : List E) : Prop :=
  ∀ past event, past ++ [event] <+: events →
    P (run step s past) event

end Transition

------------------------------------------------------------
-- Prefixes of Runs
------------------------------------------------------------

namespace Transition

variable {S E : Type*}
variable {step : S → E → S} {s : S}

@[simp] theorem along_nil
    (P : S → E → Prop) :
    Along step P s [] := by
  intro past event hPrefix
  simp at hPrefix

theorem along_concat_iff
    {P : S → E → Prop}
    {events : List E}
    {event : E} :
    Along step P s (events ++ [event]) ↔
      Along step P s events ∧
        P (run step s events) event := by
  constructor
  · intro hAlong
    refine ⟨?_, hAlong events event (List.prefix_refl _)⟩
    intro past earlier hPrefix
    exact hAlong past earlier
      (hPrefix.trans (List.prefix_append _ _))
  · rintro ⟨hAlong, hLast⟩ past earlier hPrefix
    rcases List.prefix_concat_iff.mp hPrefix with
      hEq | hShort
    · rcases List.append_inj' hEq rfl with
        ⟨rfl, hEvent⟩
      rw [List.singleton_inj.mp hEvent]
      exact hLast
    · exact hAlong past earlier hShort

/- A run in two parts. -/
theorem along_append_iff
    {P : S → E → Prop}
    {past future : List E} :
    Along step P s (past ++ future) ↔
      Along step P s past ∧
        Along step P (run step s past) future := by
  induction future using List.reverseRecOn with
  | nil => simp
  | append_singleton future event ih =>
      rw [← List.append_assoc, along_concat_iff,
        along_concat_iff, ih, run_append, and_assoc]

/- The first step of a run, seen from its first state. -/
theorem along_cons_iff
    {P : S → E → Prop}
    {event : E}
    {events : List E} :
    Along step P s (event :: events) ↔
      P s event ∧ Along step P (step s event) events := by
  constructor
  · intro hAlong
    refine ⟨hAlong [] event (by simp), ?_⟩
    intro past later hPrefix
    exact hAlong (event :: past) later
      (List.cons_prefix_cons.mpr ⟨rfl, hPrefix⟩)
  · rintro ⟨hFirst, hRest⟩ past later hPrefix
    cases past with
    | nil =>
        rw [List.nil_append, List.cons_prefix_cons]
          at hPrefix
        rw [hPrefix.1]
        exact hFirst
    | cons earlier past =>
        rw [List.cons_append, List.cons_prefix_cons]
          at hPrefix
        rcases hPrefix with ⟨rfl, hPrefix⟩
        exact hRest past later hPrefix

@[simp] theorem always_nil_iff
    {P : S → Prop} :
    Always step P s [] ↔ P s := by
  simp [Always]

theorem always_concat_iff
    {P : S → Prop}
    {events : List E}
    {event : E} :
    Always step P s (events ++ [event]) ↔
      Always step P s events ∧
        P (run step s (events ++ [event])) := by
  constructor
  · intro hAlways
    refine ⟨?_, hAlways _ (List.prefix_refl _)⟩
    intro past hPrefix
    exact hAlways past
      (hPrefix.trans (List.prefix_append _ _))
  · rintro ⟨hAlways, hLast⟩ past hPrefix
    rcases List.prefix_concat_iff.mp hPrefix with
      rfl | hShort
    · exact hLast
    · exact hAlways past hShort

/- A condition on a run holds on each of its beginnings. -/
theorem Along.of_prefix
    {P : S → E → Prop}
    {past events : List E}
    (hAlong : Along step P s events)
    (hPrefix : past <+: events) :
    Along step P s past := by
  intro earlier event hEarlier
  exact hAlong earlier event (hEarlier.trans hPrefix)

theorem Along.mono
    {P Q : S → E → Prop}
    {events : List E}
    (hAlong : Along step P s events)
    (hMono : ∀ t event, P t event → Q t event) :
    Along step Q s events := by
  intro past event hPrefix
  exact hMono _ _ (hAlong past event hPrefix)

/- The last state of a run is one of its states. -/
theorem Always.last
    {P : S → Prop}
    {events : List E}
    (hAlways : Always step P s events) :
    P (run step s events) :=
  hAlways events (List.prefix_refl events)

end Transition

------------------------------------------------------------
-- Invariants
------------------------------------------------------------

namespace Transition

variable {S E : Type*}
variable {step : S → E → S} {s : S}

/-
  Induction over the history of a run: a fact about the
  events so far that holds of no events and survives each
  event of the run holds at every point of it.
-/
theorem history_induction
    {events : List E}
    {P : List E → Prop}
    (hNil : P [])
    (hStep :
      ∀ past event, past ++ [event] <+: events →
        P past → P (past ++ [event])) :
    ∀ past, past <+: events → P past := by
  intro past
  induction past using List.reverseRecOn with
  | nil =>
      intro _
      exact hNil
  | append_singleton past event ih =>
      intro hPrefix
      apply hStep past event hPrefix
      exact ih ((List.prefix_append _ _).trans hPrefix)

/-
  An invariant that the steps allowed by `C` preserve holds
  at the end of every run whose steps `C` allows.
-/
theorem invariant_of_along
    {Inv : S → Prop}
    {C : S → E → Prop}
    {events : List E}
    (hInit : Inv s)
    (hStep :
      ∀ t event, Inv t → C t event →
        Inv (step t event))
    (hAlong : Along step C s events) :
    Inv (run step s events) := by
  induction events using List.reverseRecOn with
  | nil => exact hInit
  | append_singleton events event ih =>
      rcases along_concat_iff.mp hAlong with
        ⟨hPast, hLast⟩
      rw [run_concat]
      exact hStep _ _ (ih hPast) hLast

theorem always_of_along
    {Inv : S → Prop}
    {C : S → E → Prop}
    {events : List E}
    (hInit : Inv s)
    (hStep :
      ∀ t event, Inv t → C t event →
        Inv (step t event))
    (hAlong : Along step C s events) :
    Always step Inv s events := by
  intro past hPrefix
  exact invariant_of_along hInit hStep
    (hAlong.of_prefix hPrefix)

/- An invariant of every step holds in every state. -/
theorem always_of_step
    {Inv : S → Prop}
    (hInit : Inv s)
    (hStep :
      ∀ t event, Inv t → Inv (step t event))
    (events : List E) :
    Always step Inv s events := by
  apply always_of_along (C := fun _ _ => True) hInit
  · intro t event hInv _
    exact hStep t event hInv
  · intro _ _ _
    trivial

/-
  Exactness over runs. When the good steps `C` are the ones
  that keep the invariant, and a step from a state of the
  invariant is good exactly when `P` holds of it, then `P`
  holds along a run exactly when all its steps are good.
-/
theorem along_iff_along
    {Inv : S → Prop}
    {C P : S → E → Prop}
    (hInit : Inv s)
    (hStep :
      ∀ t event, Inv t → C t event →
        Inv (step t event))
    (hIff :
      ∀ t event, Inv t → (P t event ↔ C t event))
    (events : List E) :
    Along step P s events ↔ Along step C s events := by
  induction events using List.reverseRecOn with
  | nil => simp
  | append_singleton events event ih =>
      rw [along_concat_iff, along_concat_iff, ih]
      constructor
      · rintro ⟨hPast, hLast⟩
        have hInv := invariant_of_along hInit hStep hPast
        exact ⟨hPast, (hIff _ _ hInv).mp hLast⟩
      · rintro ⟨hPast, hLast⟩
        have hInv := invariant_of_along hInit hStep hPast
        exact ⟨hPast, (hIff _ _ hInv).mpr hLast⟩

/-
  The same for a property of states: it survives a step from
  a state of the invariant exactly when the step is good.
-/
theorem always_iff_along
    {Inv P : S → Prop}
    {C : S → E → Prop}
    (hInit : Inv s)
    (hFirst : P s)
    (hStep :
      ∀ t event, Inv t → Inv (step t event))
    (hIff :
      ∀ t event, Inv t → P t →
        (P (step t event) ↔ C t event))
    (events : List E) :
    Always step P s events ↔ Along step C s events := by
  induction events using List.reverseRecOn with
  | nil => simpa using hFirst
  | append_singleton events event ih =>
      have hInv : Inv (run step s events) :=
        (always_of_step hInit hStep events).last
      rw [always_concat_iff, along_concat_iff, run_concat]
      constructor
      · rintro ⟨hPast, hLast⟩
        refine ⟨ih.mp hPast, ?_⟩
        exact (hIff _ _ hInv hPast.last).mp hLast
      · rintro ⟨hPast, hLast⟩
        have hAlways := ih.mpr hPast
        refine ⟨hAlways, ?_⟩
        exact (hIff _ _ hInv hAlways.last).mpr hLast

/-
  The same for an invariant that only the good steps keep: a
  property of its states that a step from one of them keeps
  only by being good.
-/
theorem always_iff_along_of_good
    {Inv P : S → Prop}
    {C : S → E → Prop}
    {events : List E}
    (hInit : Inv s)
    (hStep :
      ∀ t event, Inv t → C t event →
        Inv (step t event))
    (hHolds : ∀ t, Inv t → P t)
    (hGood :
      ∀ t event, Inv t → P (step t event) →
        C t event) :
    Always step P s events ↔ Along step C s events := by
  constructor
  · intro hAlways
    induction events using List.reverseRecOn with
    | nil => simp
    | append_singleton events event ih =>
        rcases always_concat_iff.mp hAlways with
          ⟨hPast, hLast⟩
        have hAlong := ih hPast
        have hInv := invariant_of_along hInit hStep hAlong
        rw [run_concat] at hLast
        exact along_concat_iff.mpr
          ⟨hAlong, hGood _ _ hInv hLast⟩
  · intro hAlong past hPrefix
    exact hHolds _
      (always_of_along hInit hStep hAlong past hPrefix)

end Transition
