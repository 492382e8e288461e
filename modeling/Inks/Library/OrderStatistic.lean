import Mathlib.Data.List.Sort
import Mathlib.Data.List.DropRight

/-
  Order statistics of a list with ties, by counting.

  Key definitions include:
    * `OrderStatistic.IsRank`

  Key theorems include:
    * `OrderStatistic.IsRank.unique`
    * `OrderStatistic.isRank_insertionSort`
-/

------------------------------------------------------------
-- Ranks
------------------------------------------------------------

namespace OrderStatistic

variable {α : Type*} [LinearOrder α]

/-
  A sample with `k` samples up to it and all but `k - 1`
  from it on, itself counted both times.
-/
structure IsRank
    (samples : List α)
    (k : Nat)
    (x : α) : Prop where
  mem : x ∈ samples
  below : k ≤ samples.countP (· ≤ x)
  above :
    samples.length - k + 1 ≤ samples.countP (x ≤ ·)

/- Ranks do not depend on the order of the samples. -/
theorem IsRank.perm
    {samples other : List α}
    {k : Nat}
    {x : α}
    (hRank : IsRank samples k x)
    (hPerm : samples.Perm other) :
    IsRank other k x where
  mem := hPerm.mem_iff.mp hRank.mem
  below := by
    rw [← hPerm.countP_eq]
    exact hRank.below
  above := by
    rw [← hPerm.countP_eq, ← hPerm.length_eq]
    exact hRank.above

/- Samples up to `x` and samples from `y` on are disjoint. -/
theorem countP_le_add_countP_ge
    {x y : α}
    (hLt : x < y)
    (samples : List α) :
    samples.countP (· ≤ x) + samples.countP (y ≤ ·) ≤
      samples.length := by
  induction samples with
  | nil => simp
  | cons z samples ih =>
      have hApart : ¬ (z ≤ x ∧ y ≤ z) := by
        intro hBoth
        exact absurd (hBoth.2.trans hBoth.1)
          (not_le_of_gt hLt)
      by_cases hLow : z ≤ x
      · have hHigh : ¬ y ≤ z :=
          fun hLe => hApart ⟨hLow, hLe⟩
        simp [hLow, hHigh]
        omega
      · by_cases hHigh : y ≤ z <;>
          simp [hLow, hHigh] <;>
          omega

theorem IsRank.not_lt_of_isRank
    {samples : List α}
    {k : Nat}
    {x y : α}
    (hFirst : IsRank samples k x)
    (hSecond : IsRank samples k y) :
    ¬ x < y := by
  intro hLt
  have hSum := countP_le_add_countP_ge hLt samples
  have hBelow := hFirst.below
  have hAbove := hSecond.above
  have hLength : samples.countP (· ≤ x) ≤ samples.length :=
    List.countP_le_length
  omega

/- At most one sample has a given rank. -/
theorem IsRank.unique
    {samples : List α}
    {k : Nat}
    {x y : α}
    (hFirst : IsRank samples k x)
    (hSecond : IsRank samples k y) :
    x = y :=
  le_antisymm
    (le_of_not_gt (hSecond.not_lt_of_isRank hFirst))
    (le_of_not_gt (hFirst.not_lt_of_isRank hSecond))

end OrderStatistic

------------------------------------------------------------
-- Sorted Lists
------------------------------------------------------------

namespace OrderStatistic

variable {α : Type*} [LinearOrder α]

/- The samples before an index are up to the one at it. -/
theorem le_countP_of_sorted
    {sorted : List α}
    (hSorted : sorted.SortedLE)
    {i : Nat}
    (hIndex : i < sorted.length) :
    i + 1 ≤ sorted.countP (· ≤ sorted[i]) := by
  have hAll :
      ∀ x ∈ sorted.take (i + 1),
        decide (x ≤ sorted[i]) = true := by
    intro x hMem
    rcases List.getElem_of_mem hMem with ⟨j, hj, rfl⟩
    have hLe : j ≤ i := by
      rw [List.length_take] at hj
      omega
    have hEarlier : j < sorted.length :=
      Nat.lt_of_le_of_lt hLe hIndex
    have hSample : sorted[j] ≤ sorted[i] :=
      hSorted.getElem_le_getElem_of_le hLe
    simpa using hSample
  have hCount := List.countP_eq_length.mpr hAll
  have hSub :=
    (List.take_sublist (i + 1) sorted).countP_le
      (p := fun x => decide (x ≤ sorted[i]))
  rw [hCount, List.length_take] at hSub
  omega

/- The samples after an index are from the one at it on. -/
theorem length_sub_le_countP_of_sorted
    {sorted : List α}
    (hSorted : sorted.SortedLE)
    {i : Nat}
    (hIndex : i < sorted.length) :
    sorted.length - i ≤
      sorted.countP (sorted[i] ≤ ·) := by
  have hAll :
      ∀ x ∈ sorted.drop i,
        decide (sorted[i] ≤ x) = true := by
    intro x hMem
    rcases List.getElem_of_mem hMem with ⟨j, hj, rfl⟩
    have hLater : i + j < sorted.length := by
      rw [List.length_drop] at hj
      omega
    have hSample : sorted[i] ≤ sorted[i + j] :=
      hSorted.getElem_le_getElem_of_le
        (Nat.le_add_right i j)
    simpa using hSample
  have hCount := List.countP_eq_length.mpr hAll
  have hSub :=
    (List.drop_sublist i sorted).countP_le
      (p := fun x => decide (sorted[i] ≤ x))
  rw [hCount, List.length_drop] at hSub
  exact hSub

theorem isRank_of_sorted
    {sorted : List α}
    (hSorted : sorted.SortedLE)
    {i : Nat}
    (hIndex : i < sorted.length) :
    IsRank sorted (i + 1) sorted[i] where
  mem := List.getElem_mem hIndex
  below := le_countP_of_sorted hSorted hIndex
  above := by
    have hCount :=
      length_sub_le_countP_of_sorted hSorted hIndex
    omega

/- Sorting puts the sample of each rank at its index. -/
theorem isRank_insertionSort
    {samples : List α}
    {i : Nat}
    {x : α}
    (hGet :
      (samples.insertionSort (· ≤ ·))[i]? = some x) :
    IsRank samples (i + 1) x := by
  rcases List.getElem?_eq_some_iff.mp hGet with
    ⟨hIndex, rfl⟩
  have hRank :=
    isRank_of_sorted
      (List.sortedLE_insertionSort (l := samples)) hIndex
  exact hRank.perm (List.perm_insertionSort _ samples)

end OrderStatistic
