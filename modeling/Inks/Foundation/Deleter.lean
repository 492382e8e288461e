import Inks.Library.Run
import Mathlib.Data.List.Nodup
import Mathlib.Logic.Function.Basic

/-
  Guards that run a cleanup when they are destroyed, and the
  program that makes, moves, releases and destroys them.

  Each call of `make_deleter` brings a cleanup of its own,
  numbered in their order, and each guard has a number too.

  Key definitions include:
    * `Deleter.step`
    * `Deleter.Settles`
    * `Deleter.Owns`

  Key theorems include:
    * `Deleter.count_destroyAll`
    * `Deleter.Inv.step`
    * `Deleter.settles_iff`
-/

------------------------------------------------------------
-- Guards
------------------------------------------------------------

namespace Inks

structure ScopedDeleter where
  id : Nat
  del : Nat
  valid : Bool := true
deriving DecidableEq, Repr

namespace Deleter

/- The guards that exist and the cleanups that have run. -/
structure Program where
  objects : List ScopedDeleter := []
  next : Nat := 0
  made : Nat := 0
  runs : List Nat := []
  -- Ghost: the guard that owns a cleanup.
  owner : Nat → Option Nat := fun _ => none
  -- Ghost: `release` was called on the owner of a cleanup.
  released : Nat → Bool := fun _ => false

inductive Event where
| make
| move (rhs : Nat)
| release (id : Nat)
| destroy (id : Nat)
deriving DecidableEq, Repr

def find
    (objects : List ScopedDeleter)
    (id : Nat) : Option ScopedDeleter :=
  objects.find? (fun o => o.id = id)

/- `valid = false` in one guard. -/
def invalidate
    (objects : List ScopedDeleter)
    (id : Nat) : List ScopedDeleter :=
  objects.map fun o =>
    if o.id = id then { o with valid := false } else o

def makeDeleter
    (s : Program) : Program :=
  { s with
    objects := s.objects ++ [{ id := s.next, del := s.made }]
    next := s.next + 1
    made := s.made + 1
    owner := Function.update s.owner s.made (some s.next) }

/-
  The move constructor. The new guard is valid whatever the
  other one was.
-/
def moveFrom
    (s : Program)
    (rhs : ScopedDeleter) : Program :=
  { s with
    objects :=
      invalidate s.objects rhs.id ++
        [{ id := s.next, del := rhs.del }]
    next := s.next + 1
    owner :=
      if s.owner rhs.del = some rhs.id then
        Function.update s.owner rhs.del (some s.next)
      else
        s.owner }

def release
    (s : Program)
    (o : ScopedDeleter) : Program :=
  { s with
    objects := invalidate s.objects o.id
    released :=
      if s.owner o.del = some o.id then
        Function.update s.released o.del true
      else
        s.released }

/- The destructor, with `free`. -/
def destroy
    (s : Program)
    (o : ScopedDeleter) : Program :=
  { s with
    objects := s.objects.filter (fun other => other.id ≠ o.id)
    runs := if o.valid then s.runs ++ [o.del] else s.runs }

/- A guard that does not exist takes part in nothing. -/
def step
    (s : Program) : Event → Program
| .make => makeDeleter s
| .move rhs =>
    match find s.objects rhs with
    | none => s
    | some rhs => moveFrom s rhs
| .release id =>
    match find s.objects id with
    | none => s
    | some o => release s o
| .destroy id =>
    match find s.objects id with
    | none => s
    | some o => destroy s o

/- The end of the program: no guard is left. -/
def destroyAll
    (s : Program) : Program :=
  Transition.run step s
    (s.objects.map fun o => .destroy o.id)

/- How often a cleanup should have run by then. -/
def expected
    (released : Bool) : Nat :=
  if released then 0 else 1

/-
  Whenever the program ends, each cleanup has run once, and
  not at all if it was released by its owner.
-/
def Settles
    (s : Program) : Prop :=
  ∀ d < s.made,
    (destroyAll s).runs.count d = expected (s.released d)

/- A move is made from a guard that still owns its cleanup. -/
def Owns
    (s : Program) : Event → Prop
| .move rhs =>
    ∀ o, find s.objects rhs = some o → o.valid = true
| _ => True

end Deleter

end Inks

------------------------------------------------------------
-- Lists of Guards
------------------------------------------------------------

namespace Inks

namespace Deleter

/- Whether the destruction of a guard runs a cleanup. -/
def due
    (d : Nat)
    (o : ScopedDeleter) : Bool :=
  o.valid && o.del == d

/- A guard that is found stands at one place of the list. -/
theorem exists_split
    {objects : List ScopedDeleter}
    {id : Nat}
    {o : ScopedDeleter}
    (hNodup : (objects.map ScopedDeleter.id).Nodup)
    (hFind : find objects id = some o) :
    ∃ before after,
      objects = before ++ o :: after ∧
      o.id = id ∧
      (∀ other ∈ before, other.id ≠ id) ∧
      ∀ other ∈ after, other.id ≠ id := by
  have hId : o.id = id := by
    simpa using List.find?_some hFind
  rcases List.append_of_mem
      (List.mem_of_find?_eq_some hFind) with
    ⟨before, after, rfl⟩
  rw [List.map_append, List.map_cons,
    List.nodup_append, List.nodup_cons] at hNodup
  refine ⟨before, after, rfl, hId, ?_, ?_⟩
  · intro other hMem hSame
    apply hNodup.2.2 other.id (List.mem_map_of_mem hMem)
      o.id (by simp)
    rw [hSame, hId]
  · intro other hMem hSame
    apply hNodup.2.1.1
    rw [hId, ← hSame]
    exact List.mem_map_of_mem hMem

theorem invalidate_of_forall_ne
    {objects : List ScopedDeleter}
    {id : Nat}
    (hNe : ∀ other ∈ objects, other.id ≠ id) :
    invalidate objects id = objects := by
  unfold invalidate
  conv_rhs => rw [← List.map_id objects]
  apply List.map_congr_left
  intro other hMem
  simp [hNe other hMem]

theorem invalidate_split
    {before after : List ScopedDeleter}
    {o : ScopedDeleter}
    (hBefore : ∀ other ∈ before, other.id ≠ o.id)
    (hAfter : ∀ other ∈ after, other.id ≠ o.id) :
    invalidate (before ++ o :: after) o.id =
      before ++ { o with valid := false } :: after := by
  have hFirst := invalidate_of_forall_ne hBefore
  have hLast := invalidate_of_forall_ne hAfter
  unfold invalidate at hFirst hLast ⊢
  rw [List.map_append, List.map_cons, hFirst, hLast]
  simp

theorem filter_split
    {before after : List ScopedDeleter}
    {o : ScopedDeleter}
    (hBefore : ∀ other ∈ before, other.id ≠ o.id)
    (hAfter : ∀ other ∈ after, other.id ≠ o.id) :
    (before ++ o :: after).filter
        (fun other => other.id ≠ o.id) =
      before ++ after := by
  have hFirst :
      before.filter (fun other => other.id ≠ o.id) =
        before := by
    apply List.filter_eq_self.mpr
    simpa using hBefore
  have hLast :
      after.filter (fun other => other.id ≠ o.id) =
        after := by
    apply List.filter_eq_self.mpr
    simpa using hAfter
  rw [List.filter_append, List.filter_cons, hFirst, hLast]
  simp

@[simp] theorem map_id_invalidate
    (objects : List ScopedDeleter)
    (id : Nat) :
    (invalidate objects id).map ScopedDeleter.id =
      objects.map ScopedDeleter.id := by
  unfold invalidate
  rw [List.map_map]
  apply List.map_congr_left
  intro o _
  by_cases hSame : o.id = id <;> simp [hSame]

end Deleter

end Inks

------------------------------------------------------------
-- The End of the Program
------------------------------------------------------------

namespace Inks

namespace Deleter

theorem destroyAll_cons
    {s : Program}
    {o : ScopedDeleter}
    {rest : List ScopedDeleter}
    (hObjects : s.objects = o :: rest)
    (hNe : ∀ other ∈ rest, other.id ≠ o.id) :
    (destroy s o).objects = rest ∧
      destroyAll s = destroyAll (destroy s o) := by
  have hRest : (destroy s o).objects = rest := by
    unfold destroy
    rw [hObjects]
    change
      (([] ++ o :: rest).filter
        (fun other => other.id ≠ o.id)) = [] ++ rest
    exact filter_split (by simp) hNe
  have hStep : step s (.destroy o.id) = destroy s o := by
    simp [step, find, hObjects]
  refine ⟨hRest, ?_⟩
  unfold destroyAll
  rw [hRest, hObjects, List.map_cons]
  change
    Transition.run step (step s (.destroy o.id)) _ = _
  rw [hStep]

theorem count_runs_destroy
    (s : Program)
    (o : ScopedDeleter)
    (d : Nat) :
    (destroy s o).runs.count d =
      s.runs.count d + if due d o then 1 else 0 := by
  unfold destroy due
  cases hValid : o.valid with
  | true =>
      simp only [if_true, Bool.true_and]
      rw [List.count_append, List.count_singleton]
  | false => simp

/- What has run by the end: so far, and by each guard left. -/
theorem count_destroyAll
    {s : Program}
    (hNodup : (s.objects.map ScopedDeleter.id).Nodup)
    (d : Nat) :
    (destroyAll s).runs.count d =
      s.runs.count d + s.objects.countP (due d) := by
  generalize hObjects : s.objects = objects at hNodup ⊢
  induction objects generalizing s with
  | nil =>
      simp [destroyAll, hObjects]
  | cons o rest ih =>
      rw [List.map_cons, List.nodup_cons] at hNodup
      have hNe : ∀ other ∈ rest, other.id ≠ o.id := by
        intro other hMem hSame
        apply hNodup.1
        rw [← hSame]
        exact List.mem_map_of_mem hMem
      rcases destroyAll_cons hObjects hNe with
        ⟨hRest, hEnd⟩
      rw [hEnd, ih hRest hNodup.2, List.countP_cons,
        count_runs_destroy]
      omega

end Deleter

end Inks

------------------------------------------------------------
-- Ownership
------------------------------------------------------------

namespace Inks

namespace Deleter

/-
  What good moves keep: the valid guards are the owners of
  the cleanups that were not released, and each cleanup has
  run, or will, exactly as often as it should.
-/
structure Inv
    (s : Program) : Prop where
  nodup : (s.objects.map ScopedDeleter.id).Nodup
  ids : ∀ o ∈ s.objects, o.id < s.next
  dels : ∀ o ∈ s.objects, o.del < s.made
  ran : ∀ d ∈ s.runs, d < s.made
  fresh : ∀ d, s.made ≤ d → s.released d = false
  owners :
    ∀ o ∈ s.objects,
      o.valid = true ↔
        s.owner o.del = some o.id ∧
          s.released o.del = false
  settled :
    ∀ d < s.made,
      s.runs.count d + s.objects.countP (due d) =
        expected (s.released d)

theorem inv_init : Inv {} := by
  constructor <;> simp

theorem Inv.settles
    {s : Program}
    (hInv : Inv s) :
    Settles s := by
  intro d hMade
  rw [count_destroyAll hInv.nodup]
  exact hInv.settled d hMade

theorem nodup_concat
    {s : Program}
    (hInv : Inv s)
    {objects : List ScopedDeleter}
    (hIds :
      objects.map ScopedDeleter.id =
        s.objects.map ScopedDeleter.id)
    (del : Nat) :
    ((objects ++
        [({ id := s.next, del := del } : ScopedDeleter)]).map
      ScopedDeleter.id).Nodup := by
  rw [List.map_append, hIds, List.map_singleton,
    List.nodup_append]
  refine ⟨hInv.nodup, by simp, ?_⟩
  intro id hId other hOther
  rcases List.mem_map.mp hId with ⟨o, hMem, rfl⟩
  have hLt := hInv.ids o hMem
  simp only [List.mem_singleton] at hOther
  omega

theorem Inv.make
    {s : Program}
    (hInv : Inv s) :
    Inv (makeDeleter s) where
  nodup := nodup_concat hInv rfl s.made
  ids := by
    intro o hMem
    rcases List.mem_append.mp hMem with hOld | hNew
    · exact Nat.lt_succ_of_lt (hInv.ids o hOld)
    · rw [List.mem_singleton.mp hNew]
      exact Nat.lt_succ_self _
  dels := by
    intro o hMem
    rcases List.mem_append.mp hMem with hOld | hNew
    · exact Nat.lt_succ_of_lt (hInv.dels o hOld)
    · rw [List.mem_singleton.mp hNew]
      exact Nat.lt_succ_self _
  ran := fun d hMem => Nat.lt_succ_of_lt (hInv.ran d hMem)
  fresh := fun d hLe => hInv.fresh d (Nat.le_of_succ_le hLe)
  owners := by
    intro o hMem
    rcases List.mem_append.mp hMem with hOld | hNew
    · have hNe : o.del ≠ s.made :=
        (hInv.dels o hOld).ne
      simp only [makeDeleter, Function.update_of_ne hNe]
      exact hInv.owners o hOld
    · rw [List.mem_singleton.mp hNew]
      simp [makeDeleter, hInv.fresh s.made le_rfl]
  settled := by
    intro d hMade
    have hNew : d ≠ s.made → d < s.made := by
      intro hNe
      exact lt_of_le_of_ne (Nat.le_of_lt_succ hMade) hNe
    change
      s.runs.count d +
          (s.objects ++
            [({ id := s.next, del := s.made } :
              ScopedDeleter)]).countP (due d) =
        expected (s.released d)
    rw [List.countP_append, List.countP_singleton]
    by_cases hSame : d = s.made
    · have hRuns : s.runs.count d = 0 := by
        apply List.count_eq_zero.mpr
        intro hMem
        exact absurd (hInv.ran d hMem) (by omega)
      have hObjects : s.objects.countP (due d) = 0 := by
        apply List.countP_eq_zero.mpr
        intro o hMem
        have hLt := hInv.dels o hMem
        simp [due]
        omega
      rw [hRuns, hObjects, hSame,
        hInv.fresh s.made le_rfl]
      simp [due, expected]
    · have hOther : ¬ s.made = d := fun h => hSame h.symm
      simpa [due, hOther] using
        hInv.settled d (hNew hSame)

/- A good move hands the cleanup on. -/
theorem Inv.move
    {s : Program}
    (hInv : Inv s)
    {id : Nat}
    {rhs : ScopedDeleter}
    (hFind : find s.objects id = some rhs)
    (hValid : rhs.valid = true) :
    Inv (moveFrom s rhs) := by
  rcases exists_split hInv.nodup hFind with
    ⟨before, after, hObjects, rfl, hBefore, hAfter⟩
  have hMem : rhs ∈ s.objects := by
    simp [hObjects]
  have hOwner := (hInv.owners rhs hMem).mp hValid
  have hMoved :
      (moveFrom s rhs).objects =
        before ++ { rhs with valid := false } :: after ++
          [{ id := s.next, del := rhs.del }] := by
    simp only [moveFrom, hObjects]
    rw [invalidate_split hBefore hAfter]
  have hOwners :
      (moveFrom s rhs).owner =
        Function.update s.owner rhs.del (some s.next) := by
    simp [moveFrom, hOwner.1]
  have hCases :
      ∀ o ∈ (moveFrom s rhs).objects,
        (o ∈ s.objects ∧ o.id ≠ rhs.id) ∨
          o = { rhs with valid := false } ∨
          o = { id := s.next, del := rhs.del } := by
    intro o hO
    rw [hMoved] at hO
    rw [hObjects]
    simp only [List.mem_append, List.mem_cons,
      List.not_mem_nil, or_false] at hO ⊢
    rcases hO with (hO | hO | hO) | hO
    · exact Or.inl ⟨Or.inl hO, hBefore o hO⟩
    · exact Or.inr (Or.inl hO)
    · exact Or.inl ⟨Or.inr (Or.inr hO), hAfter o hO⟩
    · exact Or.inr (Or.inr hO)
  refine ⟨?_, ?_, ?_, hInv.ran, hInv.fresh, ?_, ?_⟩
  · exact nodup_concat hInv (map_id_invalidate _ _) rhs.del
  · intro o hO
    rcases hCases o hO with ⟨hOld, _⟩ | rfl | rfl
    · exact Nat.lt_succ_of_lt (hInv.ids o hOld)
    · exact Nat.lt_succ_of_lt (hInv.ids rhs hMem)
    · exact Nat.lt_succ_self _
  · intro o hO
    rcases hCases o hO with ⟨hOld, _⟩ | rfl | rfl
    · exact hInv.dels o hOld
    · exact hInv.dels rhs hMem
    · exact hInv.dels rhs hMem
  · intro o hO
    rw [hOwners]
    have hReleased :
        (moveFrom s rhs).released = s.released := rfl
    rw [hReleased]
    rcases hCases o hO with ⟨hOld, hNe⟩ | rfl | rfl
    · rw [hInv.owners o hOld]
      by_cases hSame : o.del = rhs.del
      · have hLt := hInv.ids o hOld
        rw [hSame, Function.update_self, hOwner.1]
        simp only [Option.some.injEq]
        constructor
        · intro hBoth
          exact absurd hBoth.1.symm hNe
        · intro hBoth
          omega
      · rw [Function.update_of_ne hSame]
    · have hLt := hInv.ids rhs hMem
      simp only [Function.update_self, Option.some.injEq,
        Bool.false_eq_true, false_iff]
      omega
    · simpa using hOwner.2
  · intro d hMade
    have hSettled := hInv.settled d hMade
    rw [hMoved]
    rw [hObjects] at hSettled
    have hRuns : (moveFrom s rhs).runs = s.runs := rfl
    have hReleased :
        (moveFrom s rhs).released = s.released := rfl
    rw [hRuns, hReleased]
    simp only [List.countP_append, List.countP_cons,
      List.countP_nil, due, hValid, Bool.true_and,
      Bool.false_and, Bool.false_eq_true, if_false,
      Nat.add_zero] at hSettled ⊢
    omega

/- A move from a guard that owns nothing makes it run. -/
theorem Inv.not_settles_move
    {s : Program}
    (hInv : Inv s)
    {id : Nat}
    {rhs : ScopedDeleter}
    (hFind : find s.objects id = some rhs)
    (hInvalid : rhs.valid = false) :
    ¬ Settles (moveFrom s rhs) := by
  rcases exists_split hInv.nodup hFind with
    ⟨before, after, hObjects, rfl, hBefore, hAfter⟩
  have hMem : rhs ∈ s.objects := by
    simp [hObjects]
  have hMade := hInv.dels rhs hMem
  have hSame :
      invalidate s.objects rhs.id = s.objects := by
    rw [hObjects, invalidate_split hBefore hAfter,
      ← hInvalid]
  intro hSettles
  have hHere := hSettles rhs.del hMade
  rw [count_destroyAll
    (nodup_concat hInv (map_id_invalidate _ _) rhs.del)]
    at hHere
  have hSettled := hInv.settled rhs.del hMade
  have hCount :
      (moveFrom s rhs).objects.countP (due rhs.del) =
        s.objects.countP (due rhs.del) + 1 := by
    simp [moveFrom, hSame, due]
  have hRuns : (moveFrom s rhs).runs = s.runs := rfl
  have hReleased :
      (moveFrom s rhs).released = s.released := rfl
  rw [hCount, hRuns, hReleased] at hHere
  omega

/- Releasing a guard that owns nothing changes nothing. -/
theorem Inv.release_of_invalid
    {s : Program}
    (hInv : Inv s)
    {id : Nat}
    {o : ScopedDeleter}
    (hFind : find s.objects id = some o)
    (hInvalid : o.valid = false) :
    release s o = s := by
  rcases exists_split hInv.nodup hFind with
    ⟨before, after, hObjects, rfl, hBefore, hAfter⟩
  have hMem : o ∈ s.objects := by
    simp [hObjects]
  have hSame : invalidate s.objects o.id = s.objects := by
    rw [hObjects, invalidate_split hBefore hAfter,
      ← hInvalid]
  have hReleased :
      (if s.owner o.del = some o.id then
          Function.update s.released o.del true
        else
          s.released) = s.released := by
    split
    · next hOwner =>
        have hNot :
            ¬ (s.owner o.del = some o.id ∧
              s.released o.del = false) := by
          rw [← hInv.owners o hMem, hInvalid]
          simp
        have hTrue : s.released o.del = true := by
          simpa [hOwner] using hNot
        rw [← hTrue, Function.update_eq_self]
    · rfl
  unfold release
  rw [hSame, hReleased]

/- The owner gives its cleanup up. -/
theorem Inv.release_of_valid
    {s : Program}
    (hInv : Inv s)
    {id : Nat}
    {o : ScopedDeleter}
    (hFind : find s.objects id = some o)
    (hValid : o.valid = true) :
    Inv (release s o) := by
  rcases exists_split hInv.nodup hFind with
    ⟨before, after, hObjects, rfl, hBefore, hAfter⟩
  have hMem : o ∈ s.objects := by
    simp [hObjects]
  have hMade := hInv.dels o hMem
  have hOwner := (hInv.owners o hMem).mp hValid
  have hRest :
      (release s o).objects =
        before ++ { o with valid := false } :: after := by
    simp only [release, hObjects]
    rw [invalidate_split hBefore hAfter]
  have hReleased :
      (release s o).released =
        Function.update s.released o.del true := by
    simp [release, hOwner.1]
  have hCases :
      ∀ other ∈ (release s o).objects,
        (other ∈ s.objects ∧ other.id ≠ o.id) ∨
          other = { o with valid := false } := by
    intro other hOther
    rw [hRest] at hOther
    rw [hObjects]
    simp only [List.mem_append, List.mem_cons]
      at hOther ⊢
    rcases hOther with hOther | hOther | hOther
    · exact Or.inl ⟨Or.inl hOther, hBefore other hOther⟩
    · exact Or.inr hOther
    · exact Or.inl
        ⟨Or.inr (Or.inr hOther), hAfter other hOther⟩
  refine ⟨?_, ?_, ?_, hInv.ran, ?_, ?_, ?_⟩
  · simpa [release] using hInv.nodup
  · intro other hOther
    rcases hCases other hOther with ⟨hOld, _⟩ | rfl
    · exact hInv.ids other hOld
    · exact hInv.ids o hMem
  · intro other hOther
    rcases hCases other hOther with ⟨hOld, _⟩ | rfl
    · exact hInv.dels other hOld
    · exact hMade
  · intro d hLe
    have hLt : o.del < d := Nat.lt_of_lt_of_le hMade hLe
    rw [hReleased, Function.update_of_ne hLt.ne']
    exact hInv.fresh d hLe
  · intro other hOther
    have hKept : (release s o).owner = s.owner := rfl
    rw [hReleased, hKept]
    rcases hCases other hOther with ⟨hOld, hNe⟩ | rfl
    · rw [hInv.owners other hOld]
      by_cases hSame : other.del = o.del
      · rw [hSame, Function.update_self, hOwner.1]
        simp [hNe.symm]
      · rw [Function.update_of_ne hSame]
    · simp
  · intro d hLt
    have hSettled := hInv.settled d hLt
    have hOwn := hInv.settled o.del hMade
    have hRuns : (release s o).runs = s.runs := rfl
    rw [hRest, hReleased, hRuns]
    rw [hObjects] at hSettled hOwn
    by_cases hSame : d = o.del
    · rw [hSame, Function.update_self]
      rw [hOwner.2] at hOwn
      have hOne : expected false = 1 := rfl
      have hZero : expected true = 0 := rfl
      rw [hOne] at hOwn
      rw [hZero]
      simp only [List.countP_append, List.countP_cons, due,
        hValid, beq_self_eq_true, Bool.true_and,
        Bool.false_and, Bool.false_eq_true, if_true,
        if_false] at hOwn ⊢
      omega
    · have hOther : ¬ o.del = d := fun h => hSame h.symm
      rw [Function.update_of_ne hSame, ← hSettled]
      simp [due, hOther]

theorem Inv.destroy
    {s : Program}
    (hInv : Inv s)
    {id : Nat}
    {o : ScopedDeleter}
    (hFind : find s.objects id = some o) :
    Inv (destroy s o) := by
  rcases exists_split hInv.nodup hFind with
    ⟨before, after, hObjects, rfl, hBefore, hAfter⟩
  have hMem : o ∈ s.objects := by
    simp [hObjects]
  have hMade := hInv.dels o hMem
  have hRest :
      (Deleter.destroy s o).objects = before ++ after := by
    simp only [Deleter.destroy, hObjects]
    exact filter_split hBefore hAfter
  have hSublist :
      (before ++ after).Sublist s.objects := by
    rw [hObjects]
    exact List.Sublist.append (List.Sublist.refl _)
      (List.sublist_cons_self _ _)
  have hSub :
      ∀ other ∈ (Deleter.destroy s o).objects,
        other ∈ s.objects := by
    intro other hOther
    rw [hRest] at hOther
    exact hSublist.subset hOther
  refine ⟨?_, ?_, ?_, ?_, hInv.fresh, ?_, ?_⟩
  · rw [hRest]
    exact (hSublist.map _).nodup hInv.nodup
  · intro other hOther
    exact hInv.ids other (hSub other hOther)
  · intro other hOther
    exact hInv.dels other (hSub other hOther)
  · intro d hRan
    simp only [Deleter.destroy] at hRan
    split at hRan
    · rcases List.mem_append.mp hRan with hOld | hNew
      · exact hInv.ran d hOld
      · rw [List.mem_singleton.mp hNew]
        exact hMade
    · exact hInv.ran d hRan
  · intro other hOther
    exact hInv.owners other (hSub other hOther)
  · intro d hLt
    have hSettled := hInv.settled d hLt
    have hKept :
        (Deleter.destroy s o).released = s.released := rfl
    rw [hRest, hKept, ← hSettled, hObjects,
      count_runs_destroy]
    simp only [List.countP_append, List.countP_cons]
    omega

end Deleter

end Inks

------------------------------------------------------------
-- Programs
------------------------------------------------------------

namespace Inks

namespace Deleter

theorem Inv.step
    {s : Program}
    {event : Event}
    (hInv : Inv s)
    (hOwns : Owns s event) :
    Inv (step s event) := by
  cases event with
  | make => exact hInv.make
  | move id =>
      cases hFind : find s.objects id with
      | none => simpa [Deleter.step, hFind] using hInv
      | some rhs =>
          simp only [Deleter.step, hFind]
          exact hInv.move hFind (hOwns rhs hFind)
  | release id =>
      cases hFind : find s.objects id with
      | none => simpa [Deleter.step, hFind] using hInv
      | some o =>
          simp only [Deleter.step, hFind]
          cases hValid : o.valid with
          | true => exact hInv.release_of_valid hFind hValid
          | false =>
              rw [hInv.release_of_invalid hFind hValid]
              exact hInv
  | destroy id =>
      cases hFind : find s.objects id with
      | none => simpa [Deleter.step, hFind] using hInv
      | some o =>
          simp only [Deleter.step, hFind]
          exact hInv.destroy hFind

/-
  When every end of a program, after any of its events, runs
  each cleanup as often as it should.
-/
theorem settles_iff
    (events : List Event) :
    Transition.Always step Settles {} events ↔
      Transition.Along step Owns {} events := by
  apply Transition.always_iff_along_of_good inv_init
  · intro s event hInv hOwns
    exact hInv.step hOwns
  · intro s hInv
    exact hInv.settles
  · intro s event hInv hSettles
    cases event with
    | move id =>
        intro rhs hFind
        by_contra hNot
        rw [Bool.not_eq_true] at hNot
        simp only [step, hFind] at hSettles
        exact hInv.not_settles_move hFind hNot hSettles
    | make => trivial
    | release id => trivial
    | destroy id => trivial

/- A cleanup that was released runs after a move. -/
theorem released_cleanup_runs :
    (Transition.run step {}
        [.make, .release 0]).released 0 = true ∧
      (Transition.run step {}
        [.make, .release 0, .move 0, .destroy 1,
          .destroy 0]).objects = [] ∧
      (Transition.run step {}
        [.make, .release 0, .move 0, .destroy 1,
          .destroy 0]).runs = [0] ∧
      ¬ Transition.Always step Settles {}
        [.make, .release 0, .move 0] := by
  refine ⟨by decide, by decide, by decide, ?_⟩
  intro hAlways
  exact absurd (hAlways.last 0 (by decide)) (by decide)

end Deleter

end Inks
