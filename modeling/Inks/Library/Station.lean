import Inks.Library.Run

/-
  A station with several servers and one line: who arrives
  waits at its end, a free server takes who is first, and a
  server that is done is free again.

  Key definitions include:
    * `Station`
    * `Station.step`
    * `Station.arrivals`, `Station.leaves`
    * `Station.Blocked`

  Key theorems include:
    * `Station.served_append_waiting`
    * `Station.busy_add_leaves`
    * `Station.served_at_iff`
    * `Station.served_or_few_leaves`
-/

------------------------------------------------------------
-- Stations
------------------------------------------------------------

structure Station
    (J : Type*) where
  servers : Nat
  busy : Nat
  waiting : List J
  -- All whose service has begun, in order.
  served : List J

namespace Station

variable {J : Type*}

inductive Event
    (J : Type*) where
| arrive (j : J)
| serve
| leave

def step
    (st : Station J) : Event J → Station J
| .arrive j => { st with waiting := st.waiting ++ [j] }
| .serve =>
    match st.waiting with
    | [] => st
    | j :: rest =>
        if st.busy < st.servers then
          { st with
            busy := st.busy + 1
            waiting := rest
            served := st.served ++ [j] }
        else
          st
| .leave => { st with busy := st.busy - 1 }

abbrev run
    (st : Station J)
    (events : List (Event J)) : Station J :=
  Transition.run step st events

/- Who arrives in a run, in order. -/
def arrivals
    (events : List (Event J)) : List J :=
  events.filterMap fun
    | .arrive j => some j
    | _ => none

/- How often a server gets free in a run. -/
def leaves
    (events : List (Event J)) : Nat :=
  events.countP fun
    | .leave => true
    | _ => false

/- Only a server that is busy can get free. -/
def Legal
    (st : Station J) : Event J → Prop
| .leave => 0 < st.busy
| _ => True

/- Nobody can be served: there is no one, or no server. -/
def Blocked
    (st : Station J) : Prop :=
  st.waiting = [] ∨ st.servers ≤ st.busy

end Station

------------------------------------------------------------
-- The Line
------------------------------------------------------------

namespace Station

variable {J : Type*} {st : Station J}

theorem arrivals_append
    (past future : List (Event J)) :
    arrivals (past ++ future) =
      arrivals past ++ arrivals future := by
  simp [arrivals]

theorem leaves_append
    (past future : List (Event J)) :
    leaves (past ++ future) =
      leaves past + leaves future := by
  simp [leaves]

@[simp] theorem step_servers
    (st : Station J)
    (event : Event J) :
    (st.step event).servers = st.servers := by
  cases event with
  | arrive j => rfl
  | leave => rfl
  | serve =>
      unfold step
      cases st.waiting with
      | nil => rfl
      | cons j rest =>
          simp only
          split
          · rfl
          · rfl

theorem run_concat
    (st : Station J)
    (past : List (Event J))
    (event : Event J) :
    st.run (past ++ [event]) = (st.run past).step event :=
  Transition.run_concat step st past event

@[simp] theorem run_servers
    (st : Station J)
    (events : List (Event J)) :
    (st.run events).servers = st.servers := by
  induction events using List.reverseRecOn with
  | nil => rfl
  | append_singleton events event ih =>
      rw [run_concat, step_servers, ih]

theorem step_serve_of_blocked
    (hBlocked : st.Blocked) :
    st.step .serve = st := by
  unfold step
  rcases hBlocked with hNobody | hFull
  · simp [hNobody]
  · cases st.waiting with
    | nil => rfl
    | cons j rest =>
        simp only
        rw [if_neg (Nat.not_lt.mpr hFull)]

theorem step_serve_of_free
    {j : J}
    {rest : List J}
    (hWaiting : st.waiting = j :: rest)
    (hFree : st.busy < st.servers) :
    st.step .serve =
      { st with
        busy := st.busy + 1
        waiting := rest
        served := st.served ++ [j] } := by
  unfold step
  simp [hWaiting, hFree]

/- A step keeps the order of the line. -/
theorem step_line
    (st : Station J)
    (event : Event J) :
    (st.step event).served ++ (st.step event).waiting =
      st.served ++ st.waiting ++ arrivals [event] := by
  cases event with
  | arrive j => simp [step, arrivals]
  | leave => simp [step, arrivals]
  | serve =>
      unfold step
      cases hWaiting : st.waiting with
      | nil => simp [hWaiting, arrivals]
      | cons j rest =>
          simp only
          split
          · simp [arrivals]
          · simp [hWaiting, arrivals]

/- First come, first served. -/
theorem served_append_waiting
    (st : Station J)
    (events : List (Event J)) :
    (st.run events).served ++ (st.run events).waiting =
      st.served ++ st.waiting ++ arrivals events := by
  induction events using List.reverseRecOn with
  | nil => simp [arrivals]
  | append_singleton events event ih =>
      rw [run_concat, step_line, ih,
        arrivals_append, List.append_assoc _ (arrivals _)]

/-
  Who waits at some place is served in a run exactly when
  the run has more services than there are before that one.
-/
theorem served_at_iff
    {k : Nat}
    {j : J}
    (hPlace : st.waiting[k]? = some j)
    (events : List (Event J)) :
    (st.run events).served[st.served.length + k]? =
        some j ↔
      st.served.length + k <
        (st.run events).served.length := by
  constructor
  · intro hServed
    exact (List.getElem?_eq_some_iff.mp hServed).1
  · intro hMany
    have hLine := served_append_waiting st events
    have hLeft :
        ((st.run events).served ++
            (st.run events).waiting)[st.served.length + k]? =
          (st.run events).served[st.served.length + k]? :=
      List.getElem?_append_left hMany
    have hInside : k < st.waiting.length :=
      (List.getElem?_eq_some_iff.mp hPlace).1
    rw [← hLeft, hLine, List.append_assoc,
      List.getElem?_append_right (Nat.le_add_right _ _),
      Nat.add_sub_cancel_left,
      List.getElem?_append_left hInside]
    exact hPlace

end Station

------------------------------------------------------------
-- The Servers
------------------------------------------------------------

namespace Station

variable {J : Type*} {st : Station J}

/- Servers and services are in balance in a legal step. -/
theorem step_balance
    {event : Event J}
    (hLegal : Legal st event) :
    (st.step event).busy + leaves [event] +
        st.served.length =
      st.busy + (st.step event).served.length := by
  cases event with
  | arrive j => simp [step, leaves]
  | leave =>
      have hBusy : 0 < st.busy := hLegal
      simp [step, leaves]
      omega
  | serve =>
      unfold step
      cases st.waiting with
      | nil => simp [leaves]
      | cons j rest =>
          simp only
          split
          · simp [leaves]
            omega
          · simp [leaves]

theorem busy_add_leaves
    {events : List (Event J)}
    (hLegal : Transition.Along step Legal st events) :
    (st.run events).busy + leaves events +
        st.served.length =
      st.busy + (st.run events).served.length := by
  induction events using List.reverseRecOn with
  | nil => simp [leaves]
  | append_singleton events event ih =>
      rcases Transition.along_concat_iff.mp hLegal with
        ⟨hPast, hLast⟩
      have hBefore := ih hPast
      have hStep :
          ((st.run events).step event).busy +
              leaves [event] +
              (st.run events).served.length =
            (st.run events).busy +
              ((st.run events).step event).served.length :=
        step_balance hLast
      rw [run_concat, leaves_append]
      omega

/-
  Bounded waiting. When in the end nobody can be served, who
  waited at place `k` has been served, unless the servers
  that were free and those that got free are `k` at most.
-/
theorem served_or_few_leaves
    {events : List (Event J)}
    (hLegal : Transition.Along step Legal st events)
    (hServers : st.busy ≤ st.servers)
    (hBlocked : (st.run events).Blocked)
    {k : Nat}
    {j : J}
    (hPlace : st.waiting[k]? = some j) :
    (st.run events).served[st.served.length + k]? =
        some j ∨
      leaves events + (st.servers - st.busy) ≤ k := by
  rw [served_at_iff hPlace]
  by_cases hMany :
      st.served.length + k < (st.run events).served.length
  · exact Or.inl hMany
  · have hBalance := busy_add_leaves hLegal
    rcases hBlocked with hNobody | hFull
    · have hLine :=
        congrArg List.length
          (served_append_waiting st events)
      have hInside : k < st.waiting.length :=
        (List.getElem?_eq_some_iff.mp hPlace).1
      simp only [hNobody, List.append_nil,
        List.length_append] at hLine
      omega
    · rw [run_servers] at hFull
      omega

end Station
