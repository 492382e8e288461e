import Inks.Library.Run

/-
  An event loop with members that come as long as it listens
  and that take steps of their own. It ends when it is told
  to, or when a step of a member fails.

  What a member does depends on the events of the others only
  in that they may end the loop.

  Key definitions include:
    * `EventLoop`
    * `EventLoop.step`
    * `EventLoop.alone`

  Key theorems include:
    * `EventLoop.alone_of_up`
    * `EventLoop.up_iff_alone`
    * `EventLoop.member_invariant`
    * `EventLoop.members_invariant`
-/

------------------------------------------------------------
-- Loops
------------------------------------------------------------

structure EventLoop
    (C : Type*) where
  up : Bool := true
  listening : Bool := true
  members : List C := []
deriving DecidableEq, Repr

namespace EventLoop

variable {C E : Type*}

inductive Event
    (C E : Type*) where
| joined (member : C)
| deaf
| happened (i : Nat) (event : E)
| halted
deriving DecidableEq, Repr

/- How a member steps, and whether a step has failed. -/
structure Rules
    (C E : Type*) where
  f : C → E → C
  fails : C → Bool

def happen
    (rules : Rules C E)
    (loop : EventLoop C)
    (i : Nat)
    (event : E) : EventLoop C :=
  match loop.members[i]? with
  | none => loop
  | some c =>
      { loop with
        up := !rules.fails (rules.f c event)
        members := loop.members.set i (rules.f c event) }

def step
    (rules : Rules C E)
    (loop : EventLoop C)
    (event : Event C E) : EventLoop C :=
  if !loop.up then
    loop
  else
    match event with
    | .joined member =>
        if loop.listening then
          { loop with members := loop.members ++ [member] }
        else
          loop
    | .deaf => { loop with listening := false }
    | .happened i event => loop.happen rules i event
    | .halted =>
        { loop with up := false, listening := false }

/- The events without those of other members and the end. -/
def concerns
    (i : Nat) : Event C E → Bool
| .joined _ => true
| .deaf => true
| .happened j _ => j = i
| .halted => false

def alone
    (i : Nat)
    (events : List (Event C E)) : List (Event C E) :=
  events.filter (concerns i)

end EventLoop

------------------------------------------------------------
-- Steps
------------------------------------------------------------

namespace EventLoop

variable {C E : Type*}
variable {rules : Rules C E} {loop : EventLoop C}

theorem step_down
    (hDown : loop.up = false)
    (event : Event C E) :
    step rules loop event = loop := by
  simp [step, hDown]

theorem step_joined
    (hUp : loop.up = true)
    (member : C) :
    step rules loop (.joined member : Event C E) =
      if loop.listening then
        { loop with members := loop.members ++ [member] }
      else
        loop := by
  simp [step, hUp]

theorem step_deaf
    (hUp : loop.up = true) :
    step rules loop (.deaf : Event C E) =
      { loop with listening := false } := by
  simp [step, hUp]

theorem step_happened
    {i : Nat}
    {c : C}
    (hUp : loop.up = true)
    (hMember : loop.members[i]? = some c)
    (event : E) :
    step rules loop (.happened i event) =
      { loop with
        up := !rules.fails (rules.f c event)
        members := loop.members.set i (rules.f c event) } := by
  simp [step, hUp, happen, hMember]

theorem step_happened_none
    {i : Nat}
    (hMember : loop.members[i]? = none)
    (event : E) :
    step rules loop (.happened i event) = loop := by
  simp [step, happen, hMember]

/- A loop that has ended does not come up again. -/
theorem up_of_step
    {event : Event C E}
    (hUp : (step rules loop event).up = true) :
    loop.up = true := by
  cases hDown : loop.up with
  | true => rfl
  | false =>
      rw [step_down hDown, hDown] at hUp
      cases hUp

/- An event that does not concern a member leaves it. -/
theorem member_frame
    (rules : Rules C E)
    (loop : EventLoop C)
    {i : Nat}
    {event : Event C E}
    (hOther : concerns i event = false) :
    (step rules loop event).members[i]? =
        loop.members[i]? ∧
      (step rules loop event).members.length =
        loop.members.length ∧
      ((step rules loop event).up = true →
        (step rules loop event).listening =
          loop.listening) := by
  unfold step
  cases hUp : loop.up with
  | false => simp
  | true =>
      cases event with
      | joined member => simp [concerns] at hOther
      | deaf => simp [concerns] at hOther
      | halted => simp
      | happened j event =>
          have hNe : j ≠ i := by simpa [concerns] using hOther
          cases hMember : loop.members[j]? with
          | none => simp [happen, hMember]
          | some c =>
              simp [happen, hMember,
                List.getElem?_set_ne hNe]

end EventLoop

------------------------------------------------------------
-- One Member Alone
------------------------------------------------------------

namespace EventLoop

variable {C E : Type*}
variable {rules : Rules C E}

/- Two loops that agree on one member. -/
structure Agree
    (i : Nat)
    (loop other : EventLoop C) : Prop where
  up : loop.up = true
  other_up : other.up = true
  listening : other.listening = loop.listening
  length : other.members.length = loop.members.length
  member : other.members[i]? = loop.members[i]?

/-
  An event that concerns the member does the same to both
  loops, also in whether it ends them.
-/
theorem Agree.step
    (rules : Rules C E)
    {i : Nat}
    {loop other : EventLoop C}
    (hAgree : Agree i loop other)
    {event : Event C E}
    (hConcerns : concerns i event = true) :
    (step rules other event).up =
        (step rules loop event).up ∧
      ((step rules loop event).up = true →
        Agree i (step rules loop event)
          (step rules other event)) := by
  rcases hAgree with
    ⟨hUp, hOther, hListening, hLength, hMember⟩
  cases event with
  | joined member =>
      rw [step_joined hUp, step_joined hOther, hListening]
      split
      · refine ⟨hOther.trans hUp.symm, fun _ => ?_⟩
        refine ⟨hUp, hOther, rfl, ?_, ?_⟩
        · simp [hLength]
        · simp only [List.getElem?_append, hLength, hMember]
      · exact ⟨hOther.trans hUp.symm, fun _ =>
          ⟨hUp, hOther, hListening, hLength, hMember⟩⟩
  | deaf =>
      rw [step_deaf hUp, step_deaf hOther]
      exact ⟨hOther.trans hUp.symm, fun _ =>
        ⟨hUp, hOther, rfl, hLength, hMember⟩⟩
  | halted => simp [concerns] at hConcerns
  | happened j event =>
      have hSame : j = i := by simpa [concerns] using hConcerns
      subst hSame
      cases hFound : loop.members[j]? with
      | none =>
          rw [step_happened_none hFound,
            step_happened_none (hMember.trans hFound)]
          exact ⟨hOther.trans hUp.symm, fun _ =>
            ⟨hUp, hOther, hListening, hLength, hMember⟩⟩
      | some c =>
          rw [step_happened hUp hFound,
            step_happened hOther (hMember.trans hFound)]
          refine ⟨rfl, fun hStill => ?_⟩
          refine ⟨hStill, hStill, hListening, ?_, ?_⟩
          · simpa using hLength
          · simp only [List.getElem?_set, hLength]
            split
            · rfl
            · exact hMember

theorem alone_concat
    (i : Nat)
    (events : List (Event C E))
    (event : Event C E) :
    alone i (events ++ [event]) =
      if concerns i event then
        alone i events ++ [event]
      else
        alone i events := by
  unfold alone
  rw [List.filter_append]
  cases hConcerns : concerns i event <;> simp [hConcerns]

/-
  As long as the loop is up, a member is what it would be
  after its own events alone.
-/
theorem agree_alone
    (i : Nat)
    (events : List (Event C E))
    (hUp :
      (Transition.run (step rules) {} events).up = true) :
    Agree i (Transition.run (step rules) {} events)
      (Transition.run (step rules) {} (alone i events)) := by
  induction events using List.reverseRecOn with
  | nil => exact ⟨rfl, rfl, rfl, rfl, rfl⟩
  | append_singleton events event ih =>
      rw [Transition.run_concat] at hUp ⊢
      have hAgree := ih (up_of_step hUp)
      rw [alone_concat]
      cases hConcerns : concerns i event with
      | true =>
          rw [if_pos rfl, Transition.run_concat]
          exact (hAgree.step rules hConcerns).2 hUp
      | false =>
          rw [if_neg (by simp)]
          rcases member_frame rules
              (Transition.run (step rules) {} events)
              hConcerns with
            ⟨hMember, hLength, hListening⟩
          exact
            { up := hUp
              other_up := hAgree.other_up
              listening :=
                hAgree.listening.trans (hListening hUp).symm
              length := hAgree.length.trans hLength.symm
              member := hAgree.member.trans hMember.symm }

theorem alone_of_up
    {events : List (Event C E)}
    (hUp :
      (Transition.run (step rules) {} events).up = true)
    (i : Nat) :
    (Transition.run (step rules) {} events).members[i]? =
      (Transition.run (step rules) {}
        (alone i events)).members[i]? :=
  (agree_alone i events hUp).member.symm

/- The loop is up as long as every member alone keeps it. -/
theorem up_iff_alone
    (events : List (Event C E)) :
    (Transition.run (step rules) {} events).up = true ↔
      .halted ∉ events ∧
        ∀ i,
          (Transition.run (step rules) {}
            (alone i events)).up = true := by
  constructor
  · intro hUp
    refine ⟨?_, fun i => (agree_alone i events hUp).other_up⟩
    induction events using List.reverseRecOn with
    | nil => simp
    | append_singleton events event ih =>
        rw [Transition.run_concat] at hUp
        have hBefore := up_of_step hUp
        rw [List.mem_append, List.mem_singleton]
        rintro (hMem | rfl)
        · exact ih hBefore hMem
        · simp [step, hBefore] at hUp
  · rintro ⟨hHalted, hAlone⟩
    induction events using List.reverseRecOn with
    | nil => rfl
    | append_singleton events event ih =>
        have hBefore :
            (Transition.run (step rules) {}
              events).up = true := by
          apply ih
          · intro hMem
            exact hHalted (List.mem_append_left _ hMem)
          · intro i
            have hHere := hAlone i
            rw [alone_concat] at hHere
            split at hHere
            · rw [Transition.run_concat] at hHere
              exact up_of_step hHere
            · exact hHere
        -- Some member's events are left with the last one.
        have hLast :
            ∀ i, concerns i event = true →
              (step rules
                (Transition.run (step rules) {} events)
                event).up = true := by
          intro i hConcerns
          have hHere := hAlone i
          rw [alone_concat, if_pos hConcerns,
            Transition.run_concat] at hHere
          have hSame :=
            ((agree_alone i events hBefore).step rules
              hConcerns).1
          exact hSame.symm.trans hHere
        rw [Transition.run_concat]
        cases event with
        | joined member => exact hLast 0 rfl
        | deaf => exact hLast 0 rfl
        | happened i event => exact hLast i (by simp [concerns])
        | halted => exact absurd (by simp) hHalted

end EventLoop

------------------------------------------------------------
-- Invariants of a Member
------------------------------------------------------------

namespace EventLoop

variable {C E : Type*}
variable {rules : Rules C E}

/-
  What the steps of a member keep, the loop keeps: whatever
  happens to other members.
-/
theorem member_invariant
    (rules : Rules C E)
    {P : C → Prop}
    {Q : E → Prop}
    {i : Nat}
    (hStep : ∀ c event, P c → Q event → P (rules.f c event))
    {loop : EventLoop C}
    (hMember : ∃ c, loop.members[i]? = some c ∧ P c)
    (events : List (Event C E))
    (hOwn : ∀ event, .happened i event ∈ events → Q event) :
    ∃ c,
      (Transition.run (step rules) loop events).members[i]? =
          some c ∧
        P c := by
  induction events using List.reverseRecOn with
  | nil => exact hMember
  | append_singleton events event ih =>
      rcases ih (fun event hMem =>
          hOwn event (List.mem_append_left _ hMem)) with
        ⟨c, hBefore, hHolds⟩
      rw [Transition.run_concat]
      generalize
        Transition.run (step rules) loop events = before
        at hBefore ⊢
      cases hUp : before.up with
      | false =>
          rw [step_down hUp]
          exact ⟨c, hBefore, hHolds⟩
      | true =>
          cases hConcerns : concerns i event with
          | false =>
              rw [(member_frame rules before hConcerns).1]
              exact ⟨c, hBefore, hHolds⟩
          | true =>
              cases event with
              | halted => simp [concerns] at hConcerns
              | deaf =>
                  rw [step_deaf hUp]
                  exact ⟨c, hBefore, hHolds⟩
              | joined member =>
                  refine ⟨c, ?_, hHolds⟩
                  have hLt :=
                    (List.getElem?_eq_some_iff.mp hBefore).1
                  rw [step_joined hUp]
                  split
                  · rw [← hBefore]
                    exact List.getElem?_append_left hLt
                  · exact hBefore
              | happened j event =>
                  have hSame : j = i := by
                    simpa [concerns] using hConcerns
                  subst hSame
                  rw [step_happened hUp hBefore]
                  have hLt :=
                    (List.getElem?_eq_some_iff.mp hBefore).1
                  refine ⟨rules.f c event, ?_, ?_⟩
                  · simp [hLt]
                  · apply hStep c event hHolds
                    exact hOwn event (by simp)

/- What holds of each member that comes, and of its steps. -/
theorem members_invariant
    (rules : Rules C E)
    {P : C → Prop}
    (hStep : ∀ c event, P c → P (rules.f c event))
    (events : List (Event C E))
    (hJoined : ∀ c, .joined c ∈ events → P c) :
    ∀ c ∈ (Transition.run (step rules) {} events).members,
      P c := by
  induction events using List.reverseRecOn with
  | nil =>
      intro c hMem
      cases hMem
  | append_singleton events event ih =>
      have hBefore :=
        ih (fun c hMem =>
          hJoined c (List.mem_append_left _ hMem))
      rw [Transition.run_concat]
      generalize Transition.run (step rules) {} events = loop
        at hBefore ⊢
      cases hUp : loop.up with
      | false =>
          rw [step_down hUp]
          exact hBefore
      | true =>
          cases event with
          | halted =>
              simp only [step, hUp]
              exact hBefore
          | deaf =>
              rw [step_deaf hUp]
              exact hBefore
          | joined member =>
              rw [step_joined hUp]
              split
              · intro c hMem
                rcases List.mem_append.mp hMem with
                  hOld | hNew
                · exact hBefore c hOld
                · rw [List.mem_singleton.mp hNew]
                  exact hJoined member (by simp)
              · exact hBefore
          | happened i event =>
              cases hMember : loop.members[i]? with
              | none =>
                  rw [step_happened_none hMember]
                  exact hBefore
              | some c =>
                  rw [step_happened hUp hMember]
                  intro other hMem
                  rcases List.mem_or_eq_of_mem_set hMem with
                    hOld | rfl
                  · exact hBefore other hOld
                  · apply hStep
                    exact
                      hBefore c
                        (List.mem_of_getElem? hMember)

end EventLoop
