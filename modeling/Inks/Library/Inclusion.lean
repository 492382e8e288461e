import Inks.Library.Recency
import Mathlib.Data.List.Forall2

/-
  Two bounded maps that differ in their capacity only, and
  get the same calls. Whatever the smaller one holds is held
  by the larger one, in the same order of last use, so that
  more room never costs a hit.

  Key definitions include:
    * `Recency.Within`
    * `Recency.Covers`

  Key theorems include:
    * `Recency.Within.step`
    * `Recency.run_within`
-/

------------------------------------------------------------
-- Two Maps
------------------------------------------------------------

namespace Recency

variable {κ ν : Type*} [DecidableEq κ]
variable {small large : Nat}
variable {pairs more : List (κ × ν)}

/-
  The larger map has all pairs of the smaller one, and it is
  not full unless the smaller one is.
-/
structure Within
    (small large : Nat)
    (pairs more : List (κ × ν)) : Prop where
  sublist : pairs.Sublist more
  room : more.length + small ≤ pairs.length + large

/- A hit, with its value, is also one of the other map. -/
def Covers
    (result other : Option ν) : Prop :=
  ∀ v, result = some v → other = some v

omit [DecidableEq κ] in
theorem Within.mem_keys
    {k : κ}
    (hWithin : Within small large pairs more)
    (hMem : k ∈ pairs.map Prod.fst) :
    k ∈ more.map Prod.fst :=
  (hWithin.sublist.map _).subset hMem

theorem Within.lookup
    {k : κ}
    {v : ν}
    (hWithin : Within small large pairs more)
    (hBounded : Bounded large more)
    (hLookup : pairs.lookup k = some v) :
    more.lookup k = some v := by
  apply lookup_of_mem hBounded.nodup
  exact hWithin.sublist.subset (mem_of_lookup hLookup)

theorem remove_of_notMem
    {k : κ}
    (hNotMem : k ∉ pairs.map Prod.fst) :
    remove k pairs = pairs := by
  apply List.filter_eq_self.mpr
  intro p hMem
  rw [decide_eq_true_eq]
  intro hEq
  exact hNotMem (hEq ▸ List.mem_map_of_mem hMem)

theorem remove_cons
    (k : κ)
    (p : κ × ν) :
    remove k (p :: pairs) =
      if p.1 = k then
        remove k pairs
      else
        p :: remove k pairs := by
  by_cases hEq : p.1 = k <;> simp [remove, hEq]

/- A key without repetition is removed with one pair. -/
theorem length_remove
    {k : κ}
    (hNodup : (pairs.map Prod.fst).Nodup)
    (hMem : k ∈ pairs.map Prod.fst) :
    (remove k pairs).length + 1 = pairs.length := by
  induction pairs with
  | nil => simp at hMem
  | cons p pairs ih =>
      rw [List.map_cons, List.nodup_cons] at hNodup
      rw [remove_cons]
      by_cases hEq : p.1 = k
      · rw [if_pos hEq, remove_of_notMem (hEq ▸ hNodup.1),
          List.length_cons]
      · have hLater : k ∈ pairs.map Prod.fst := by
          rcases List.mem_cons.mp hMem with hHead | hLater
          · exact absurd hHead.symm hEq
          · exact hLater
        rw [if_neg hEq, List.length_cons, List.length_cons,
          ih hNodup.2 hLater]

/- What stands before the last pairs. -/
omit [DecidableEq κ] in
theorem dropLast_sublist_dropLast
    (hSublist : pairs.Sublist more) :
    pairs.dropLast.Sublist more.dropLast := by
  have hReverse := hSublist.reverse.tail
  rw [← List.reverse_sublist, List.tail_reverse,
    List.tail_reverse] at hReverse
  simpa using hReverse

end Recency

------------------------------------------------------------
-- One Call
------------------------------------------------------------

namespace Recency

variable {κ ν : Type*} [DecidableEq κ]
variable {small large : Nat}
variable {pairs more : List (κ × ν)}

theorem Within.remove
    (hWithin : Within small large pairs more)
    (hPairs : Bounded small pairs)
    (hMore : Bounded large more)
    (k : κ) :
    Within small large (remove k pairs) (remove k more) := by
  refine ⟨hWithin.sublist.filter _, ?_⟩
  have hRoom := hWithin.room
  by_cases hMem : k ∈ pairs.map Prod.fst
  · have hLess := length_remove hPairs.nodup hMem
    have hLessMore :=
      length_remove hMore.nodup (hWithin.mem_keys hMem)
    omega
  · rw [remove_of_notMem hMem]
    have hLe := (remove_sublist k more).length_le
    omega

/- Both maps have the key, and it comes to the front. -/
theorem Within.front
    {k : κ}
    (hWithin : Within small large pairs more)
    (hPairs : Bounded small pairs)
    (hMore : Bounded large more)
    (v : ν) :
    Within small large
      ((k, v) :: Recency.remove k pairs)
      ((k, v) :: Recency.remove k more) := by
  have hRest := hWithin.remove hPairs hMore k
  refine ⟨hRest.sublist.cons_cons _, ?_⟩
  have hRoom := hRest.room
  rw [List.length_cons, List.length_cons]
  omega

/- Only the larger map has the key. -/
theorem Within.remove_more
    {k : κ}
    (hWithin : Within small large pairs more)
    (hNotMem : k ∉ pairs.map Prod.fst) :
    pairs.Sublist (Recency.remove k more) := by
  have hSublist := hWithin.sublist.filter (fun p => p.1 ≠ k)
  change
    (Recency.remove k pairs).Sublist
      (Recency.remove k more) at hSublist
  rwa [remove_of_notMem hNotMem] at hSublist

theorem Within.get
    (hWithin : Within small large pairs more)
    (hPairs : Bounded small pairs)
    (hMore : Bounded large more)
    (k : κ) :
    Covers (get k pairs).1 (get k more).1 ∧
      Within small large (get k pairs).2
        (get k more).2 := by
  unfold Recency.get
  cases hSmall : pairs.lookup k with
  | some v =>
      rw [hWithin.lookup hMore hSmall]
      exact ⟨fun _ hSome => hSome,
        hWithin.front hPairs hMore v⟩
  | none =>
      refine ⟨by simp [Covers], ?_⟩
      cases hLarge : more.lookup k with
      | none => exact hWithin
      | some v =>
          have hKey := mem_keys_of_lookup hLarge
          have hNotMem : k ∉ pairs.map Prod.fst := by
            intro hMem
            rcases List.mem_map.mp hMem with
              ⟨⟨key, w⟩, hPair, rfl⟩
            rw [lookup_of_mem hPairs.nodup hPair] at hSmall
            cases hSmall
          have hLength := length_remove hMore.nodup hKey
          have hRoom := hWithin.room
          refine ⟨(hWithin.remove_more hNotMem).cons _, ?_⟩
          simp only [List.length_cons]
          omega

/-
  A new key. When the larger map has to drop a pair, so does
  the smaller one, and it drops the same pair or one that was
  used later.
-/
theorem Within.put
    (hPos : 1 ≤ small)
    (hWithin : Within small large pairs more)
    (hPairs : Bounded small pairs)
    (hMore : Bounded large more)
    (k : κ)
    (v : ν) :
    Within small large (put small k v pairs)
      (put large k v more) := by
  have hRoom := hWithin.room
  have hFewer := hWithin.sublist.length_le
  have hSize := hPairs.size
  have hSizeMore := hMore.size
  unfold Recency.put
  by_cases hMem : k ∈ pairs.map Prod.fst
  · rw [if_pos hMem, if_pos (hWithin.mem_keys hMem)]
    exact hWithin.front hPairs hMore v
  · rw [if_neg hMem]
    have hDrop := List.dropLast_sublist pairs
    have hDropped : pairs.dropLast.length = pairs.length - 1 :=
      List.length_dropLast
    by_cases hKey : k ∈ more.map Prod.fst
    · rw [if_pos hKey]
      have hKept := hWithin.remove_more hMem
      have hLength := length_remove hMore.nodup hKey
      split
      · refine ⟨(hDrop.trans hKept).cons_cons _, ?_⟩
        simp only [List.length_cons]
        omega
      · refine ⟨hKept.cons_cons _, ?_⟩
        simp only [List.length_cons]
        omega
    · rw [if_neg hKey]
      have hDroppedMore :
          more.dropLast.length = more.length - 1 :=
        List.length_dropLast
      by_cases hFull : pairs.length = small
      · rw [if_pos hFull]
        split
        · have hBoth :=
            dropLast_sublist_dropLast hWithin.sublist
          refine ⟨hBoth.cons_cons _, ?_⟩
          simp only [List.length_cons]
          omega
        · have hSublist := hDrop.trans hWithin.sublist
          refine ⟨hSublist.cons_cons _, ?_⟩
          simp only [List.length_cons]
          omega
      · have hNotFull : more.length ≠ large := by omega
        rw [if_neg hFull, if_neg hNotFull]
        refine ⟨hWithin.sublist.cons_cons _, ?_⟩
        simp only [List.length_cons]
        omega

theorem Within.step
    (hPos : 1 ≤ small)
    (hWithin : Within small large pairs more)
    (hPairs : Bounded small pairs)
    (hMore : Bounded large more)
    (call : Call κ ν) :
    Covers (step small pairs call).1
        (step large more call).1 ∧
      Within small large (step small pairs call).2
        (step large more call).2 := by
  cases call with
  | get k => exact hWithin.get hPairs hMore k
  | put k v =>
      refine ⟨by simp [Covers, Recency.step], ?_⟩
      exact hWithin.put hPos hPairs hMore k v
  | erase k =>
      refine ⟨by simp [Covers, Recency.step], ?_⟩
      exact hWithin.remove hPairs hMore k

end Recency

------------------------------------------------------------
-- Runs
------------------------------------------------------------

namespace Recency

variable {κ ν : Type*} [DecidableEq κ]
variable {small large : Nat}
variable {pairs more : List (κ × ν)}

theorem run_within
    (hPos : 1 ≤ small)
    (hLe : small ≤ large)
    (hWithin : Within small large pairs more)
    (hPairs : Bounded small pairs)
    (hMore : Bounded large more)
    (calls : List (Call κ ν)) :
    List.Forall₂ Covers (run small pairs calls).1
        (run large more calls).1 ∧
      Within small large (run small pairs calls).2
        (run large more calls).2 := by
  induction calls generalizing pairs more with
  | nil => exact ⟨List.Forall₂.nil, hWithin⟩
  | cons call calls ih =>
      have hHere := hWithin.step hPos hPairs hMore call
      have hRest :=
        ih hHere.2 (hPairs.step hPos call)
          (hMore.step (hPos.trans hLe) call)
      exact ⟨List.Forall₂.cons hHere.1 hRest.1, hRest.2⟩

end Recency
