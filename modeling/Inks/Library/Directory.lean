import Mathlib.Data.List.Basic

/-
  Walks in a tree of directories without links. A directory
  is the list of the names that lead to it from the root. A
  walk is what its reduced route does: some moves up, then
  some moves down; and different reduced routes can be told
  apart as soon as there are two names.

  Key definitions include:
    * `Directory.Move`
    * `Directory.walk`
    * `Directory.Route`
    * `Directory.Route.ofMoves`

  Key theorems include:
    * `Directory.Route.ofMoves_act`
    * `Directory.Route.eq_of_act`
    * `Directory.Route.exists_act_ne`
-/

------------------------------------------------------------
-- Walks
------------------------------------------------------------

namespace Directory

/- To the parent, or to a child by its name. -/
inductive Move
    (α : Type*) where
| up
| down (name : α)
deriving DecidableEq

variable {α : Type*}

/- The parent of the root is the root. -/
def go
    (d : List α) : Move α → List α
| .up => d.dropLast
| .down name => d ++ [name]

def walk
    (d : List α)
    (moves : List (Move α)) : List α :=
  moves.foldl go d

@[simp] theorem walk_nil
    (d : List α) :
    walk d [] = d := rfl

@[simp] theorem walk_cons
    (d : List α)
    (move : Move α)
    (moves : List (Move α)) :
    walk d (move :: moves) = walk (go d move) moves := rfl

theorem walk_append
    (d : List α)
    (before after : List (Move α)) :
    walk d (before ++ after) =
      walk (walk d before) after := by
  simp [walk]

/- Moves down add their names. -/
theorem walk_down
    (d names : List α) :
    walk d (names.map Move.down) = d ++ names := by
  induction names generalizing d with
  | nil => simp
  | cons name names ih =>
      rw [List.map_cons, walk_cons, ih, go,
        List.append_assoc]
      rfl

/- Moves up remove as many names. -/
theorem walk_up
    (d : List α)
    (n : Nat) :
    walk d (List.replicate n Move.up) =
      d.take (d.length - n) := by
  induction n generalizing d with
  | zero => simp
  | succ n ih =>
      rw [List.replicate_succ, walk_cons, ih, go,
        List.dropLast_eq_take, List.take_take]
      congr 1
      simp only [List.length_take]
      omega

/- A name at the end of a walk was there or was walked. -/
theorem mem_walk
    {d : List α}
    {moves : List (Move α)}
    {name : α}
    (hMem : name ∈ walk d moves) :
    name ∈ d ∨ Move.down name ∈ moves := by
  induction moves generalizing d with
  | nil => exact Or.inl hMem
  | cons move moves ih =>
      rcases ih hMem with hGo | hLater
      · cases move with
        | up => exact Or.inl (List.dropLast_subset _ hGo)
        | down other =>
            rcases List.mem_append.mp hGo with hOld | hNew
            · exact Or.inl hOld
            · rw [List.mem_singleton.mp hNew]
              exact Or.inr List.mem_cons_self
      · exact Or.inr (List.mem_cons_of_mem move hLater)

end Directory

------------------------------------------------------------
-- Reduced Routes
------------------------------------------------------------

namespace Directory

/- Moves up and then down to the named children. -/
@[ext] structure Route
    (α : Type*) where
  ups : Nat := 0
  names : List α := []

namespace Route

variable {α : Type*}

/- Where the route leads from a directory. -/
def act
    (r : Route α)
    (d : List α) : List α :=
  d.take (d.length - r.ups) ++ r.names

/- A move up takes back the last move down, if any. -/
def push
    (r : Route α) : Move α → Route α
| .up =>
    if r.names = [] then
      { r with ups := r.ups + 1 }
    else
      { r with names := r.names.dropLast }
| .down name => { r with names := r.names ++ [name] }

def ofMoves
    (moves : List (Move α)) : Route α :=
  moves.foldl push {}

theorem push_act
    (r : Route α)
    (move : Move α)
    (d : List α) :
    (r.push move).act d = go (r.act d) move := by
  cases move with
  | down name => simp [push, Route.act, go]
  | up =>
      by_cases hNames : r.names = []
      · rw [push, if_pos hNames]
        simp only [Route.act, hNames, List.append_nil, go,
          List.dropLast_eq_take, List.take_take,
          List.length_take]
        congr 1
        omega
      · rw [push, if_neg hNames]
        simp [Route.act, go,
          List.dropLast_append_of_ne_nil hNames]

/- A walk is what its reduced route does. -/
theorem ofMoves_act
    (moves : List (Move α))
    (d : List α) :
    (ofMoves moves).act d = walk d moves := by
  have hAll :
      ∀ r : Route α,
        (moves.foldl push r).act d =
          walk (r.act d) moves := by
    induction moves with
    | nil => simp
    | cons move moves ih =>
        intro r
        rw [List.foldl_cons, ih, push_act, walk_cons]
  rw [ofMoves, hAll]
  simp [Route.act]

theorem ofMoves_concat
    (moves : List (Move α))
    (move : Move α) :
    ofMoves (moves ++ [move]) =
      (ofMoves moves).push move := by
  simp [ofMoves]

/- The names of a reduced route were walked. -/
theorem mem_names_ofMoves
    {moves : List (Move α)}
    {name : α}
    (hMem : name ∈ (ofMoves moves).names) :
    Move.down name ∈ moves := by
  have hWalked : name ∈ walk [] moves := by
    rw [← ofMoves_act]
    exact List.mem_append_right _ hMem
  rcases mem_walk hWalked with hRoot | hDown
  · simp at hRoot
  · exact hDown

/- The moves of a reduced route. -/
theorem walk_moves
    (r : Route α)
    (d : List α) :
    walk d
        (List.replicate r.ups Move.up ++
          r.names.map Move.down) =
      r.act d := by
  rw [walk_append, walk_up, walk_down, Route.act]

theorem length_act
    (r : Route α)
    (d : List α) :
    (r.act d).length =
      (d.length - r.ups) + r.names.length := by
  simp [Route.act]

theorem act_replicate
    (r : Route α)
    (n : Nat)
    (name : α) :
    r.act (List.replicate n name) =
      List.replicate (n - r.ups) name ++ r.names := by
  simp [Route.act]

/-
  Routes that lead to the same place from the directories
  of a single name differ by moves up and down that name.
-/
theorem names_eq_of_act
    {r s : Route α}
    {name : α}
    (hSame :
      ∀ n, r.act (List.replicate n name) =
        s.act (List.replicate n name)) :
    s.names =
      List.replicate (s.ups - r.ups) name ++ r.names := by
  have hDeep := hSame s.ups
  rw [act_replicate, act_replicate, Nat.sub_self] at hDeep
  simpa using hDeep.symm

/- Two names are enough to tell routes apart. -/
theorem eq_of_act
    {r s : Route α}
    {a b : α}
    (hNe : a ≠ b)
    (hSame :
      ∀ n name, name = a ∨ name = b →
        r.act (List.replicate n name) =
          s.act (List.replicate n name)) :
    r = s := by
  wlog hUps : r.ups ≤ s.ups generalizing r s with hOther
  · exact
      (hOther (fun n name hName => (hSame n name hName).symm)
        (Nat.le_of_not_le hUps)).symm
  have hA :=
    names_eq_of_act
      (fun n => hSame n a (Or.inl rfl))
  have hB :=
    names_eq_of_act
      (fun n => hSame n b (Or.inr rfl))
  have hEqual : s.ups - r.ups = 0 := by
    by_contra hPos
    obtain ⟨k, hK⟩ := Nat.exists_eq_succ_of_ne_zero hPos
    rw [hK] at hA hB
    rw [hA, List.replicate_succ, List.replicate_succ] at hB
    exact hNe (List.cons.inj hB).1
  rw [hEqual] at hA
  have hSameUps : r.ups = s.ups := by omega
  exact Route.ext hSameUps hA.symm

/- A route never leads to one place from everywhere. -/
theorem exists_act_ne
    (r : Route α)
    (place : List α)
    (name : α) :
    ∃ n, r.act (List.replicate n name) ≠ place := by
  refine ⟨place.length + r.ups + 1, ?_⟩
  intro hEq
  have hLength := congrArg List.length hEq
  rw [length_act, List.length_replicate] at hLength
  omega

end Route

end Directory
