import Inks.Foundation.LruRefinement
import Inks.Library.Inclusion

/-
  Two maps of different capacity under the same calls. The
  larger one answers every call that the smaller one answers,
  and with the same value.

  Key theorems include:
    * `Lru.run_includes`
-/

------------------------------------------------------------
-- More Room
------------------------------------------------------------

namespace Inks

namespace Lru

variable {κ ν : Type*} [DecidableEq κ]

/-
  More room never costs a hit, wherever the nodes of the two
  maps are, and whatever is erased in between. The pairs of
  the smaller map are always pairs of the larger one, in the
  same order of last use.
-/
theorem run_includes
    {small large : Nat}
    (hPos : 1 ≤ small)
    (hLe : small ≤ large)
    (alloc other : Allocator)
    (calls : List (Recency.Call κ ν)) :
    ∃ results s more t,
      (new small : Lru κ ν).run alloc calls =
        some (results, s) ∧
      (new large : Lru κ ν).run other calls =
        some (more, t) ∧
      List.Forall₂ Recency.Covers results more ∧
      (pairs s.list).Sublist (pairs t.list) := by
  rcases run_refines_from (s := (new small : Lru κ ν))
      hPos linked_empty alloc calls with
    ⟨s, hSmall, hPairs, _⟩
  rcases run_refines_from (s := (new large : Lru κ ν))
      (hPos.trans hLe) linked_empty other calls with
    ⟨t, hLarge, hMore, _⟩
  have hWithin :
      Recency.Within small large
        (pairs (new small : Lru κ ν).list)
        (pairs (new large : Lru κ ν).list) := by
    refine ⟨List.Sublist.refl _, ?_⟩
    simpa [new, pairs] using hLe
  have hEmpty (capacity : Nat) :
      Recency.Bounded capacity
        (pairs (new capacity : Lru κ ν).list) := by
    refine ⟨?_, ?_⟩ <;> simp [new, pairs]
  have hRun :=
    Recency.run_within hPos hLe hWithin (hEmpty small)
      (hEmpty large) calls
  refine ⟨_, s, _, t, hSmall, hLarge, hRun.1, ?_⟩
  rw [hPairs, hMore]
  exact hRun.2.sublist

/- A hit that takes room for two. -/
theorem run_includes_small :
    ∃ results s more t,
      (new 1 : Lru Nat Nat).run nextAllocator
          [.put 1 5, .put 2 6, .get 1, .get 2] =
        some (results, s) ∧
      (new 2 : Lru Nat Nat).run nextAllocator
          [.put 1 5, .put 2 6, .get 1, .get 2] =
        some (more, t) ∧
      List.Forall₂ Recency.Covers results more ∧
      (pairs s.list).Sublist (pairs t.list) :=
  run_includes le_rfl one_le_two nextAllocator
    nextAllocator
    [.put 1 5, .put 2 6, .get 1, .get 2]

end Lru

end Inks
