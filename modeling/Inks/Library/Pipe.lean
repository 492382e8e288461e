import Mathlib.Data.List.Basic
import Mathlib.Logic.Function.Iterate

/-
  Pipes that hold only so much. How much of a write a pipe
  takes may depend on everything that was written to it and
  read from it before, since bytes do not pack tightly in a
  kernel's buffers. All that is fixed is that an empty pipe
  takes something.

  Key definitions include:
    * `PipeUse`
    * `Pipe`
    * `Pipe.alone`
    * `Pipe.Fits`, `Pipe.Between`

  Key theorems include:
    * `Function.of_iterate_of_fixed`
    * `Pipe.left_lt`
    * `Pipe.length_held_wrote`
-/

------------------------------------------------------------
-- Pipes
------------------------------------------------------------

/- What happens to a pipe. -/
inductive PipeUse
    (α : Type*) where
-- What got in of a write, and whether that was all of it.
| written (data : List α) (whole : Bool)
| read (n : Nat)
deriving DecidableEq, Repr

namespace PipeUse

variable {α : Type*}

def after
    (held : List α) : PipeUse α → List α
| .written data _ => held ++ data
| .read n => held.drop n

/- What is in a pipe with a history. -/
def held
    (uses : List (PipeUse α)) : List α :=
  uses.foldl after []

/- A read that gets nothing leaves no trace. -/
def took
    (uses : List (PipeUse α))
    (n : Nat) : List (PipeUse α) :=
  if n = 0 then
    uses
  else
    uses ++ [.read n]

@[simp] theorem held_nil :
    held ([] : List (PipeUse α)) = [] := rfl

@[simp] theorem held_concat
    (uses : List (PipeUse α))
    (use : PipeUse α) :
    held (uses ++ [use]) = after (held uses) use := by
  simp [held]

@[simp] theorem took_zero
    (uses : List (PipeUse α)) :
    took uses 0 = uses := rfl

@[simp] theorem held_took
    (uses : List (PipeUse α))
    (n : Nat) :
    held (took uses n) = (held uses).drop n := by
  unfold took
  split
  · next hZero => rw [hZero, List.drop_zero]
  · rw [held_concat]
    rfl

end PipeUse

structure Pipe
    (α : Type*) where
  -- How much it would take of a write, after a history.
  room : List (PipeUse α) → List α → Nat
  room_pos :
    ∀ uses data, PipeUse.held uses = [] → data ≠ [] →
      0 < room uses data

namespace Pipe

variable {α : Type*}

/- What gets in of a write. -/
def gets
    (pipe : Pipe α)
    (uses : List (PipeUse α))
    (data : List α) : List α :=
  data.take (pipe.room uses data)

/- What does not, and is still to be written. -/
def left
    (pipe : Pipe α)
    (uses : List (PipeUse α))
    (data : List α) : List α :=
  data.drop (pipe.room uses data)

/- A write that has to wait leaves no trace. -/
def wrote
    (pipe : Pipe α)
    (uses : List (PipeUse α))
    (data : List α) : List (PipeUse α) :=
  if pipe.gets uses data = [] then
    uses
  else
    uses ++
      [.written (pipe.gets uses data)
        (decide (pipe.left uses data = []))]

/- The writes that are left after what gets in of the first. -/
def rest
    (pipe : Pipe α)
    (uses : List (PipeUse α)) : List (List α) → List (List α)
| [] => []
| data :: later =>
    if pipe.left uses data = [] then
      later
    else
      pipe.left uses data :: later

/- The next thing that a writer gets done without a reader. -/
def alone
    (pipe : Pipe α)
    (s : List (PipeUse α) × List (List α)) :
    List (PipeUse α) × List (List α) :=
  match s.2 with
  | [] => s
  | data :: _ =>
      (pipe.wrote s.1 data, pipe.rest s.1 s.2)

/- A new pipe takes all of some writes without a reader. -/
def Fits
    (pipe : Pipe α)
    (writes : List (List α)) : Prop :=
  ∃ n, ((pipe.alone)^[n] ([], writes)).2 = []

/-
  A pipe that takes a write as a whole wherever it then has
  no more than `sure` in it, and never has more than `most`.
-/
structure Between
    (pipe : Pipe α)
    (sure most : Nat) : Prop where
  sure :
    ∀ uses data,
      (PipeUse.held uses).length + data.length ≤ sure →
        data.length ≤ pipe.room uses data
  most :
    ∀ uses data,
      (PipeUse.held uses).length ≤ most →
        (PipeUse.held uses).length +
            (pipe.gets uses data).length ≤
          most

/- A pipe that only counts what is in it. -/
def counting
    (capacity : Nat)
    (hCapacity : 0 < capacity) : Pipe α where
  room uses _ := capacity - (PipeUse.held uses).length
  room_pos uses data hEmpty _ := by
    simpa [hEmpty] using hCapacity

end Pipe

------------------------------------------------------------
-- Writes
------------------------------------------------------------

/- What holds from some turn on holds where nothing moves. -/
theorem Function.of_iterate_of_fixed
    {S : Type*}
    {P : S → Prop}
    {f : S → S}
    {s : S}
    (hKept : ∀ t, P t → P (f t))
    {k n : Nat}
    (hFixed : f (f^[k] s) = f^[k] s)
    (hThere : P (f^[n] s)) :
    P (f^[k] s) := by
  rcases Nat.le_total n k with hLe | hLe
  · rcases Nat.exists_eq_add_of_le' hLe with ⟨m, rfl⟩
    rw [Function.iterate_add_apply]
    generalize f^[n] s = t at hThere ⊢
    clear hFixed hLe
    induction m with
    | zero => exact hThere
    | succ m ih =>
        rw [Function.iterate_succ_apply']
        exact hKept _ ih
  · rcases Nat.exists_eq_add_of_le' hLe with ⟨m, rfl⟩
    rw [Function.iterate_add_apply,
      Function.iterate_fixed hFixed] at hThere
    exact hThere

namespace Pipe

variable {α : Type*}
variable {pipe : Pipe α} {uses : List (PipeUse α)}
variable {data : List α}

@[simp] theorem gets_append_left
    (pipe : Pipe α)
    (uses : List (PipeUse α))
    (data : List α) :
    pipe.gets uses data ++ pipe.left uses data = data :=
  List.take_append_drop _ _

theorem gets_ne_nil
    (hEmpty : PipeUse.held uses = [])
    (hData : data ≠ []) :
    pipe.gets uses data ≠ [] := by
  have hPos := pipe.room_pos uses data hEmpty hData
  unfold gets
  rw [Ne, List.take_eq_nil_iff, not_or]
  exact ⟨Nat.ne_of_gt hPos, hData⟩

/- What gets in is no longer to be written. -/
theorem left_lt
    (hGets : pipe.gets uses data ≠ []) :
    (pipe.left uses data).length < data.length := by
  have hBoth :=
    congrArg List.length (gets_append_left pipe uses data)
  have hPos := List.length_pos_of_ne_nil hGets
  rw [List.length_append] at hBoth
  omega

theorem left_of_gets_eq_nil
    (hGets : pipe.gets uses data = []) :
    pipe.left uses data = data := by
  have hBoth := gets_append_left pipe uses data
  rw [hGets] at hBoth
  exact hBoth

theorem wrote_of_gets_eq_nil
    (hGets : pipe.gets uses data = []) :
    pipe.wrote uses data = uses :=
  if_pos hGets

@[simp] theorem held_wrote
    (pipe : Pipe α)
    (uses : List (PipeUse α))
    (data : List α) :
    PipeUse.held (pipe.wrote uses data) =
      PipeUse.held uses ++ pipe.gets uses data := by
  unfold wrote
  split
  · next hNone => rw [hNone, List.append_nil]
  · rw [PipeUse.held_concat]
    rfl

theorem length_held_wrote
    {sure most : Nat}
    (hBetween : pipe.Between sure most)
    (hSize : (PipeUse.held uses).length ≤ most)
    (data : List α) :
    (PipeUse.held (pipe.wrote uses data)).length ≤ most := by
  rw [held_wrote, List.length_append]
  exact hBetween.most uses data hSize

theorem left_of_sure
    {sure most : Nat}
    (hBetween : pipe.Between sure most)
    (hRoom :
      (PipeUse.held uses).length + data.length ≤ sure) :
    pipe.left uses data = [] :=
  List.drop_eq_nil_of_le (hBetween.sure uses data hRoom)

theorem rest_cons
    (pipe : Pipe α)
    (uses : List (PipeUse α))
    (data : List α)
    (later : List (List α)) :
    pipe.rest uses (data :: later) =
      if pipe.left uses data = [] then
        later
      else
        pipe.left uses data :: later := rfl

/- What gets in, and what is left, are all there was. -/
theorem gets_append_flatten_rest
    (pipe : Pipe α)
    (uses : List (PipeUse α))
    (data : List α)
    (later : List (List α)) :
    pipe.gets uses data ++
        (pipe.rest uses (data :: later)).flatten =
      (data :: later).flatten := by
  have hBoth := gets_append_left pipe uses data
  rw [rest_cons, List.flatten_cons]
  split
  · next hNone =>
      rw [hNone, List.append_nil] at hBoth
      rw [hBoth]
  · rw [List.flatten_cons, ← List.append_assoc, hBoth]

/- How much there still is to be written, a call a turn. -/
def load : List (List α) → Nat
| [] => 0
| data :: later => data.length + 1 + load later

/- A write that does not have to wait leaves less to do. -/
theorem load_rest_lt
    (later : List (List α))
    (hGoes : data = [] ∨ pipe.gets uses data ≠ []) :
    load (pipe.rest uses (data :: later)) <
      load (data :: later) := by
  rw [rest_cons]
  split
  · simp only [load]
    omega
  · next hLeft =>
      rcases hGoes with hNone | hGets
      · subst hNone
        exact absurd List.drop_nil hLeft
      · have hLess := left_lt hGets
        simp only [load]
        omega

/- A writer without a reader that waits waits for ever. -/
theorem alone_of_waits
    {later : List (List α)}
    (hGets : pipe.gets uses data = [])
    (hData : data ≠ []) :
    pipe.alone (uses, data :: later) =
      (uses, data :: later) := by
  simp [alone, rest, wrote_of_gets_eq_nil hGets,
    left_of_gets_eq_nil hGets, hData]

/- A writer whose writes fit does not have to wait. -/
theorem Fits.gets_ne_nil
    {writes later : List (List α)}
    (hFits : pipe.Fits writes)
    {k : Nat}
    (hHere :
      (pipe.alone)^[k] ([], writes) = (uses, data :: later))
    (hData : data ≠ []) :
    pipe.gets uses data ≠ [] := by
  intro hGets
  rcases hFits with ⟨n, hDone⟩
  have hKept :
      ∀ t : List (PipeUse α) × List (List α),
        t.2 = [] → (pipe.alone t).2 = [] := by
    intro t hNil
    simp [alone, hNil]
  have hThere :=
    Function.of_iterate_of_fixed
      (P := fun t : List (PipeUse α) × List (List α) =>
        t.2 = [])
      hKept (k := k)
      (by rw [hHere]; exact alone_of_waits hGets hData)
      hDone
  rw [hHere] at hThere
  cases hThere

/-
  Writes that are sure to have room fit. The induction is on
  the writes, with what is in the pipe before each.
-/
theorem Between.fits
    {sure most : Nat}
    (hBetween : pipe.Between sure most)
    {writes : List (List α)}
    (hSize : writes.flatten.length ≤ sure) :
    pipe.Fits writes := by
  have hAll :
      ∀ uses,
        (PipeUse.held uses).length + writes.flatten.length ≤
            sure →
          ∃ n, ((pipe.alone)^[n] (uses, writes)).2 = [] := by
    clear hSize
    induction writes with
    | nil => exact fun _ _ => ⟨0, rfl⟩
    | cons data later ih =>
        intro uses hRoom
        rw [List.flatten_cons, List.length_append] at hRoom
        have hLeft : pipe.left uses data = [] :=
          left_of_sure hBetween (by omega)
        have hGets := gets_append_left pipe uses data
        rw [hLeft, List.append_nil] at hGets
        have hTurn :
            pipe.alone (uses, data :: later) =
              (pipe.wrote uses data, later) := by
          simp [alone, rest, hLeft]
        rcases ih (pipe.wrote uses data)
            (by
              rw [held_wrote, hGets, List.length_append]
              omega) with ⟨n, hDone⟩
        exact ⟨n + 1, by
          rw [Function.iterate_succ_apply, hTurn, hDone]⟩
  exact hAll [] (by simpa using hSize)

/- Writes that fit are no more than a pipe ever holds. -/
theorem Between.length_le
    {sure most : Nat}
    (hBetween : pipe.Between sure most)
    {writes : List (List α)}
    (hFits : pipe.Fits writes) :
    writes.flatten.length ≤ most := by
  have hAll :
      ∀ n,
        let t := (pipe.alone)^[n] ([], writes)
        (PipeUse.held t.1).length ≤ most ∧
          (PipeUse.held t.1).length + t.2.flatten.length =
            writes.flatten.length := by
    intro n
    induction n with
    | zero => simp
    | succ n ih =>
        rw [Function.iterate_succ_apply']
        generalize (pipe.alone)^[n] ([], writes) = t at ih ⊢
        rcases t with ⟨uses, _ | ⟨data, later⟩⟩
        · exact ih
        · have hRest :=
            congrArg List.length
              (gets_append_flatten_rest pipe uses data later)
          have hBefore :
              (PipeUse.held uses).length +
                  (data :: later).flatten.length =
                writes.flatten.length := ih.2
          rw [List.length_append] at hRest
          refine ⟨length_held_wrote hBetween ih.1 data, ?_⟩
          simp only [alone, held_wrote, List.length_append]
          omega
  rcases hFits with ⟨n, hDone⟩
  have hThere := hAll n
  simp only [hDone, List.flatten_nil, List.length_nil,
    Nat.add_zero] at hThere
  omega

theorem counting_between
    (capacity : Nat)
    (hCapacity : 0 < capacity) :
    (counting capacity hCapacity : Pipe α).Between capacity
      capacity where
  sure uses data hRoom := by
    simp only [counting]
    omega
  most uses data hSize := by
    simp only [gets, counting, List.length_take]
    omega

end Pipe
