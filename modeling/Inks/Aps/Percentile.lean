import Inks.Aps.Steps
import Inks.Library.OrderStatistic
import Mathlib.Data.List.GetD

/-
  The timeout of the fast lane and the 90th percentile of
  the recent run times from which it comes.

  Key definitions include:
    * `Aps.P90Estimator.addAll`
    * `Aps.IsP90`
    * `Aps.P90Estimator.idx`
    * `Aps.Scheduler.TimeoutFromP90`

  Key theorems include:
    * `Aps.P90Estimator.addAll_samples`
    * `Aps.P90Estimator.compute_isP90`
    * `Aps.Scheduler.timeout_from_recent_runs`
    * `Aps.Scheduler.run_p90Estimator`
-/

------------------------------------------------------------
-- The Window
------------------------------------------------------------

namespace Inks

namespace Aps

namespace P90Estimator

def addAll
    (estimator : P90Estimator)
    (durations : List Int) : P90Estimator :=
  durations.foldl add estimator

@[simp] theorem addAll_nil
    (estimator : P90Estimator) :
    estimator.addAll [] = estimator := rfl

@[simp] theorem addAll_concat
    (estimator : P90Estimator)
    (durations : List Int)
    (duration : Int) :
    estimator.addAll (durations ++ [duration]) =
      (estimator.addAll durations).add duration := by
  simp [addAll]

theorem add_capacity
    (estimator : P90Estimator)
    (duration : Int) :
    (estimator.add duration).capacity =
      estimator.capacity := by
  unfold add
  split <;> rfl

theorem addAll_capacity
    (estimator : P90Estimator)
    (durations : List Int) :
    (estimator.addAll durations).capacity =
      estimator.capacity := by
  induction durations using List.reverseRecOn with
  | nil => rfl
  | append_singleton durations duration ih =>
      rw [addAll_concat, add_capacity, ih]

/-
  One more element in a window over the end of a list: the
  first one goes when the window is full.
-/
theorem rtake_concat
    {capacity : Nat}
    (hCapacity : 1 ≤ capacity)
    (list : List Int)
    (x : Int) :
    (list ++ [x]).rtake capacity =
      (if capacity ≤ (list.rtake capacity).length then
        (list.rtake capacity).tail
      else
        list.rtake capacity) ++ [x] := by
  rcases Nat.exists_eq_add_of_le' hCapacity with ⟨c, rfl⟩
  rw [List.rtake_concat_succ]
  congr 1
  unfold List.rtake
  rw [List.length_drop]
  split
  · rw [List.tail_drop]
    congr 1
    omega
  · congr 1
    omega

/- The window holds the latest positive durations. -/
theorem addAll_samples
    {capacity : Nat}
    (hCapacity : 1 ≤ capacity)
    (durations : List Int) :
    (addAll { capacity := capacity } durations).samples =
      (durations.filter (0 < ·)).rtake capacity := by
  induction durations using List.reverseRecOn with
  | nil => simp
  | append_singleton durations duration ih =>
      have hSize :=
        addAll_capacity { capacity := capacity } durations
      rw [addAll_concat, List.filter_append]
      by_cases hPositive : 0 < duration
      · have hKept :
            [duration].filter (0 < ·) = [duration] := by
          simp [hPositive]
        rw [hKept, rtake_concat hCapacity, add,
          if_neg (by omega), hSize, ih]
      · have hDropped :
            [duration].filter (0 < ·) = [] := by
          simp [hPositive]
        rw [hDropped, List.append_nil, add,
          if_pos (by omega), ih]

theorem pos_of_mem_addAll
    {capacity : Nat}
    (hCapacity : 1 ≤ capacity)
    {durations : List Int}
    {duration : Int}
    (hMem :
      duration ∈
        (addAll { capacity := capacity }
          durations).samples) :
    0 < duration := by
  rw [addAll_samples hCapacity] at hMem
  have hFilter := List.mem_of_mem_drop hMem
  simpa using (List.mem_filter.mp hFilter).2

end P90Estimator

end Aps

end Inks

------------------------------------------------------------
-- The Percentile
------------------------------------------------------------

namespace Inks

namespace Aps

/- The least number of samples that makes 90 percent. -/
def p90Rank
    (m : Nat) : Nat :=
  ⌈(9 / 10 : Rat) * m⌉₊

/- The 90th percentile of a list of samples. -/
structure IsP90
    (samples : List Int)
    (p90 : Int) : Prop where
  sorted :
    (samples.insertionSort (· ≤ ·))[
      p90Rank samples.length - 1]? = some p90
  rank :
    OrderStatistic.IsRank samples
      (p90Rank samples.length) p90

/- The integer division of `compute` rounds up. -/
theorem p90Rank_eq
    (m : Nat) :
    p90Rank m = (m * 9 + 9) / 10 := by
  unfold p90Rank
  have hLow : ((m * 9 + 9) / 10) * 10 ≤ m * 9 + 9 :=
    Nat.div_mul_le_self _ _
  have hHigh : m * 9 ≤ ((m * 9 + 9) / 10) * 10 := by
    omega
  apply le_antisymm
  · apply Nat.ceil_le.mpr
    have hCast : ((m * 9 : Nat) : Rat) ≤
        (((m * 9 + 9) / 10 * 10 : Nat) : Rat) :=
      Nat.cast_le.mpr hHigh
    push_cast at hCast ⊢
    linarith
  · have hCeil := Nat.le_ceil ((9 / 10 : Rat) * m)
    have hCast : ((m * 9 : Nat) : Rat) ≤
        ((⌈(9 / 10 : Rat) * m⌉₊ * 10 : Nat) : Rat) := by
      push_cast
      linarith
    have hNat : m * 9 ≤ ⌈(9 / 10 : Rat) * m⌉₊ * 10 :=
      Nat.cast_le.mp hCast
    omega

theorem p90Rank_pos
    {m : Nat}
    (hPos : 0 < m) :
    1 ≤ p90Rank m := by
  rw [p90Rank_eq]
  omega

theorem p90Rank_le
    (m : Nat) :
    p90Rank m ≤ m := by
  rw [p90Rank_eq]
  omega

theorem le_p90Rank
    (m : Nat) :
    9 * m ≤ 10 * p90Rank m := by
  rw [p90Rank_eq]
  omega

namespace P90Estimator

/- What `max_size` is for a deque of 64-bit numbers. -/
def dequeMaxSize : Nat := 1152921504606846975

/- The index of `compute`, in the arithmetic of `size_t`. -/
def idx
    (n : UInt64) : UInt64 :=
  let idx := (n * 9 + 9) / 10 - 1
  if n - 1 < idx then n - 1 else idx

/- Nothing wraps around and the index is in the window. -/
structure IdxInBounds
    (n : UInt64) : Prop where
  product : n.toNat * 9 + 9 < UInt64.size
  rank : 1 ≤ ((n * 9 + 9) / 10).toNat
  idx_lt : (idx n).toNat < n.toNat
  idx_eq : (idx n).toNat = p90Rank n.toNat - 1

theorem idx_inBounds
    {n : UInt64}
    (hPos : 0 < n.toNat)
    (hMax : n.toNat ≤ dequeMaxSize) :
    IdxInBounds n := by
  have hProduct : n.toNat * 9 + 9 < UInt64.size := by
    simp only [dequeMaxSize, UInt64.size] at hMax ⊢
    omega
  have hRank :
      ((n * 9 + 9) / 10).toNat = (n.toNat * 9 + 9) / 10 := by
    have hTimes : (n * 9).toNat = n.toNat * 9 := by
      rw [UInt64.toNat_mul]
      exact Nat.mod_eq_of_lt
        (Nat.lt_of_le_of_lt (Nat.le_add_right _ 9) hProduct)
    have hSum : (n * 9 + 9).toNat = n.toNat * 9 + 9 := by
      rw [UInt64.toNat_add, hTimes]
      exact Nat.mod_eq_of_lt hProduct
    rw [UInt64.toNat_div, hSum]
    rfl
  have hFirst :
      ((n * 9 + 9) / 10 - 1).toNat =
        (n.toNat * 9 + 9) / 10 - 1 := by
    rw [UInt64.toNat_sub_of_le, hRank]
    · rfl
    · rw [UInt64.le_iff_toNat_le, hRank]
      simp only [UInt64.toNat_ofNat]
      omega
  have hLast : (n - 1).toNat = n.toNat - 1 := by
    rw [UInt64.toNat_sub_of_le]
    · rfl
    · rw [UInt64.le_iff_toNat_le]
      exact hPos
  have hIdx :
      (idx n).toNat = (n.toNat * 9 + 9) / 10 - 1 := by
    simp only [idx]
    split
    · next hLt =>
        rw [UInt64.lt_iff_toNat_lt, hFirst, hLast] at hLt
        rw [hLast]
        omega
    · exact hFirst
  refine ⟨hProduct, ?_, ?_, ?_⟩
  · rw [hRank]
    omega
  · rw [hIdx]
    omega
  · rw [hIdx, p90Rank_eq]

/- What `compute` returns for a window with samples. -/
theorem compute_isP90
    {estimator : P90Estimator}
    (hSome : estimator.samples ≠ []) :
    IsP90 estimator.samples estimator.compute := by
  have hPos : 0 < estimator.samples.length :=
    List.length_pos_iff.mpr hSome
  have hRank := p90Rank_pos hPos
  have hLe := p90Rank_le estimator.samples.length
  have hIdx :
      min ((estimator.samples.length * 9 + 9) / 10 - 1)
          (estimator.samples.length - 1) =
        p90Rank estimator.samples.length - 1 := by
    rw [← p90Rank_eq]
    omega
  have hIn :
      p90Rank estimator.samples.length - 1 <
        (estimator.samples.insertionSort
          (· ≤ ·)).length := by
    rw [List.length_insertionSort]
    omega
  have hGet :
      (estimator.samples.insertionSort (· ≤ ·))[
          p90Rank estimator.samples.length - 1]? =
        some estimator.compute := by
    unfold compute
    rw [if_neg (by omega), hIdx,
      List.getElem?_eq_getElem hIn,
      List.getD_eq_getElem _ _ hIn]
  refine ⟨hGet, ?_⟩
  have hIsRank := OrderStatistic.isRank_insertionSort hGet
  rw [Nat.sub_add_cancel hRank] at hIsRank
  exact hIsRank

/- No other number is a sample of that rank. -/
theorem isRank_p90Rank_iff
    {estimator : P90Estimator}
    (hSome : estimator.samples ≠ [])
    (x : Int) :
    OrderStatistic.IsRank estimator.samples
        (p90Rank estimator.samples.length) x ↔
      x = estimator.compute := by
  have hP90 := compute_isP90 hSome
  constructor
  · intro hRank
    exact hRank.unique hP90.rank
  · intro hEq
    rw [hEq]
    exact hP90.rank

end P90Estimator

end Aps

end Inks

------------------------------------------------------------
-- The Product
------------------------------------------------------------

namespace Inks

namespace Aps

namespace Scheduler

/-
  Three halves of the count have 54 bits and lie half-way
  between an even number and the next one: from 2^53 halves
  on, the double is the even number below.
-/
def RoundedDown
    (p90 : Int) : Prop :=
  9007199254740992 < 3 * p90 ∧ p90 % 4 = 3

instance
    (p90 : Int) : Decidable (RoundedDown p90) :=
  inferInstanceAs (Decidable (_ ∧ _))

/- Counts below 2^53 are doubles. -/
theorem round_count
    {p90 : Int}
    (hPos : 0 < p90)
    (hExact : p90 < 4503599627370496) :
    Binary64.round p90 = p90 := by
  have hCast : (0 : Rat) < p90 := Int.cast_pos.mpr hPos
  have hBound : (p90 : Rat) < 4503599627370496 := by
    exact_mod_cast hExact
  apply Binary64.round_eq_self (n := p90) 0
  · simp
  · rw [abs_of_pos hCast]
    norm_num
    linarith

/- The product of an even count is whole. -/
theorem even_product
    (q : Int) :
    ((2 * q : Int) : Rat) * p90Multiplier =
      ((3 * q : Int) : Rat) := by
  rw [p90Multiplier]
  push_cast
  ring

/- The product of an odd count ends in a half. -/
theorem odd_product
    (q : Int) :
    ((2 * q + 1 : Int) : Rat) * p90Multiplier =
      ((3 * q + 1 : Int) : Rat) + 1 / 2 := by
  rw [p90Multiplier]
  push_cast
  ring

theorem round_whole
    {q : Int}
    (hPos : 0 < q)
    (hExact : 2 * q < 4503599627370496) :
    Binary64.round ((3 * q : Int) : Rat) =
      ((3 * q : Int) : Rat) := by
  have hCast : (0 : Rat) < q := Int.cast_pos.mpr hPos
  have hBound : 2 * (q : Rat) < 4503599627370496 := by
    exact_mod_cast hExact
  apply Binary64.round_eq_self (n := 3 * q) 0
  · simp
  · push_cast
    rw [abs_of_pos (by linarith)]
    norm_num
    linarith

theorem round_half
    {q : Int}
    (hPos : 0 ≤ q)
    (hExact : 3 * (2 * q + 1) < 9007199254740992) :
    Binary64.round (((3 * q + 1 : Int) : Rat) + 1 / 2) =
      ((3 * q + 1 : Int) : Rat) + 1 / 2 := by
  have hCast : (0 : Rat) ≤ q := by
    exact_mod_cast hPos
  have hBound :
      3 * (2 * (q : Rat) + 1) < 9007199254740992 := by
    exact_mod_cast hExact
  apply Binary64.round_eq_self (n := 6 * q + 3) 1
  · push_cast
    ring
  · push_cast
    rw [abs_of_pos (by linarith)]
    norm_num
    linarith

/- A half that does not fit is rounded to even. -/
theorem round_tie
    {q : Int}
    (hExact : 2 * q + 1 < 4503599627370496)
    (hTie : 9007199254740992 < 3 * (2 * q + 1)) :
    Binary64.round (((3 * q + 1 : Int) : Rat) + 1 / 2) =
      ((if (3 * q + 1) % 2 = 0 then
          3 * q + 1
        else
          3 * q + 1 + 1 : Int) : Rat) := by
  have hHigh : 2 * (q : Rat) + 1 < 4503599627370496 := by
    exact_mod_cast hExact
  have hLow :
      9007199254740992 < 3 * (2 * (q : Rat) + 1) := by
    exact_mod_cast hTie
  have hAbs :
      |((3 * q + 1 : Int) : Rat) + 1 / 2| =
        3 * (q : Rat) + 1 + 1 / 2 := by
    push_cast
    exact abs_of_pos (by linarith)
  rw [Binary64.round_eq_roundEven, Binary64.roundEven_half]
  · rw [hAbs]
    norm_num
    linarith
  · rw [hAbs]
    norm_num
    linarith

theorem ceil_half
    (n : Int) :
    ⌈(n : Rat) + 1 / 2⌉ = n + 1 := by
  rw [Int.ceil_eq_iff]
  constructor <;> push_cast <;> linarith

/- The ceiling of the rounded product. -/
theorem ceil_round_product
    {p90 : Int}
    (hPos : 0 < p90)
    (hExact : p90 < 4503599627370496) :
    ⌈Binary64.round (p90 * p90Multiplier)⌉ =
      if RoundedDown p90 then
        ⌈(3 / 2 : Rat) * p90⌉ - 1
      else
        ⌈(3 / 2 : Rat) * p90⌉ := by
  rw [mul_comm (3 / 2 : Rat), ← p90Multiplier]
  rcases Int.even_or_odd' p90 with ⟨q, rfl | rfl⟩
  · have hNot : ¬ RoundedDown (2 * q) := by
      unfold RoundedDown
      omega
    rw [even_product, round_whole (by omega) hExact,
      if_neg hNot]
  · rw [odd_product, ceil_half]
    by_cases hSmall : 3 * (2 * q + 1) < 9007199254740992
    · have hNot : ¬ RoundedDown (2 * q + 1) := by
        unfold RoundedDown
        omega
      rw [if_neg hNot, round_half (by omega) hSmall,
        ceil_half]
    · rw [round_tie hExact (by omega), Int.ceil_intCast]
      unfold RoundedDown
      split_ifs <;> omega

end Scheduler

end Aps

end Inks

------------------------------------------------------------
-- The Timeout
------------------------------------------------------------

namespace Inks

namespace Aps

namespace Scheduler

/- How the timeout comes from the window. -/
structure TimeoutFromP90
    (s : Scheduler) : Prop where
  few :
    s.p90Estimator.size < 15 → s.computeTimeout = 30
  product :
    15 ≤ s.p90Estimator.size →
      s.computeTimeout =
        if RoundedDown s.p90Estimator.compute then
          ⌈(3 / 2 : Rat) * s.p90Estimator.compute⌉ - 1
        else
          ⌈(3 / 2 : Rat) * s.p90Estimator.compute⌉
  least : 2 ≤ s.computeTimeout
  covers :
    15 ≤ s.p90Estimator.size →
      9 * s.p90Estimator.size ≤
        10 * s.p90Estimator.samples.countP
          (· ≤ s.computeTimeout)

/- What `compute_timeout` takes from a long enough window. -/
theorem computeTimeout_of_samples
    {s : Scheduler}
    (hEnough : 15 ≤ s.p90Estimator.size)
    (hPos : 0 < s.p90Estimator.compute)
    (hExact : s.p90Estimator.compute < 4503599627370496) :
    s.computeTimeout =
      if RoundedDown s.p90Estimator.compute then
        ⌈(3 / 2 : Rat) * s.p90Estimator.compute⌉ - 1
      else
        ⌈(3 / 2 : Rat) * s.p90Estimator.compute⌉ := by
  have hMany : ¬ s.p90Estimator.size < p90MinSamples := by
    simpa [p90MinSamples] using hEnough
  simp only [computeTimeout]
  rw [if_neg hMany, if_neg (by omega),
    round_count hPos hExact,
    ceil_round_product hPos hExact]

/- The product is more than one second above the count. -/
theorem lt_ceil_product
    {p90 : Int}
    (hPos : 0 < p90) :
    p90 < ⌈(3 / 2 : Rat) * p90⌉ := by
  have hCast : (0 : Rat) < p90 := Int.cast_pos.mpr hPos
  rw [Int.lt_ceil]
  linarith

theorem two_le_ceil_product
    {p90 : Int}
    (hPos : 0 < p90) :
    2 ≤ ⌈(3 / 2 : Rat) * p90⌉ := by
  have hLt := lt_ceil_product hPos
  omega

theorem le_computeTimeout
    {s : Scheduler}
    (hEnough : 15 ≤ s.p90Estimator.size)
    (hPos : 0 < s.p90Estimator.compute)
    (hExact : s.p90Estimator.compute < 4503599627370496) :
    s.p90Estimator.compute ≤ s.computeTimeout ∧
      2 ≤ s.computeTimeout := by
  have hTimeout :=
    computeTimeout_of_samples hEnough hPos hExact
  have hLt := lt_ceil_product hPos
  have hTwo := two_le_ceil_product hPos
  rw [hTimeout]
  split
  · next hDown =>
      -- A count that is rounded down is far above one.
      unfold RoundedDown at hDown
      omega
  · omega

theorem timeoutFromP90_of_addAll
    {capacity : Nat}
    (hCapacity : 1 ≤ capacity)
    {durations : List Int}
    {s : Scheduler}
    (hEstimator :
      s.p90Estimator =
        P90Estimator.addAll { capacity := capacity }
          durations)
    (hExact :
      ∀ d ∈ s.p90Estimator.samples,
        d < 4503599627370496) :
    TimeoutFromP90 s := by
  have hFew :
      s.p90Estimator.size < 15 → s.computeTimeout = 30 := by
    intro hFew
    have hMin : s.p90Estimator.size < p90MinSamples := by
      simpa [p90MinSamples] using hFew
    rw [computeTimeout, if_pos hMin, defaultTimeout]
  have hP90 :
      15 ≤ s.p90Estimator.size →
        IsP90 s.p90Estimator.samples
          s.p90Estimator.compute := by
    intro hEnough
    apply P90Estimator.compute_isP90
    intro hNil
    rw [P90Estimator.size, hNil] at hEnough
    simp at hEnough
  have hPos :
      15 ≤ s.p90Estimator.size →
        0 < s.p90Estimator.compute := by
    intro hEnough
    have hMem := (hP90 hEnough).rank.mem
    rw [hEstimator] at hMem ⊢
    exact P90Estimator.pos_of_mem_addAll hCapacity hMem
  have hBound :
      15 ≤ s.p90Estimator.size →
        s.p90Estimator.compute < 4503599627370496 :=
    fun hEnough => hExact _ (hP90 hEnough).rank.mem
  refine ⟨hFew, ?_, ?_, ?_⟩
  · intro hEnough
    exact computeTimeout_of_samples hEnough
      (hPos hEnough) (hBound hEnough)
  · by_cases hEnough : 15 ≤ s.p90Estimator.size
    · exact (le_computeTimeout hEnough (hPos hEnough)
        (hBound hEnough)).2
    · rw [hFew (by omega)]
      omega
  · intro hEnough
    have hLe :=
      (le_computeTimeout hEnough (hPos hEnough)
        (hBound hEnough)).1
    have hBelow := (hP90 hEnough).rank.below
    have hRank := le_p90Rank s.p90Estimator.samples.length
    have hMono :
        s.p90Estimator.samples.countP
            (· ≤ s.p90Estimator.compute) ≤
          s.p90Estimator.samples.countP
            (· ≤ s.computeTimeout) := by
      apply List.countP_mono_left
      intro d _ hSample
      simp only [decide_eq_true_eq] at hSample ⊢
      exact hSample.trans hLe
    rw [P90Estimator.size]
    omega

/-
  The window holds the latest positive durations, `compute`
  is its 90th percentile, and the timeout follows from it.
-/
theorem timeout_from_recent_runs
    {capacity : Nat}
    (hCapacity : 1 ≤ capacity)
    (durations : List Int) :
    let estimator :=
      P90Estimator.addAll { capacity := capacity } durations
    estimator.samples =
        (durations.filter (0 < ·)).rtake capacity ∧
      (estimator.samples ≠ [] →
        IsP90 estimator.samples estimator.compute) ∧
      (∀ n : UInt64,
        n.toNat = estimator.samples.length →
          0 < n.toNat →
            n.toNat ≤ P90Estimator.dequeMaxSize →
              P90Estimator.IdxInBounds n) ∧
      ∀ s : Scheduler,
        s.p90Estimator = estimator →
          (∀ d ∈ estimator.samples,
            d < 4503599627370496) →
            TimeoutFromP90 s := by
  refine ⟨P90Estimator.addAll_samples hCapacity durations,
    P90Estimator.compute_isP90, ?_, ?_⟩
  · intro n _ hPos hMax
    exact P90Estimator.idx_inBounds hPos hMax
  · intro s hEstimator hExact
    rw [← hEstimator] at hExact
    exact timeoutFromP90_of_addAll hCapacity hEstimator
      hExact

/- A scheduler whose last runs took a given time. -/
def afterRuns
    (durations : List Int) : Scheduler where
  pq := {}
  storage := {}
  totalLane := 4
  fastLane := 1
  slowLane := 3
  p90Estimator :=
    P90Estimator.addAll { capacity := 1000 } durations

theorem timeout_after_runs :
    IsP90 [3, 5]
        (P90Estimator.addAll { capacity := 2 }
          [4, -1, 3, 0, 5]).compute ∧
      (afterRuns (List.replicate 15 9)).computeTimeout =
        14 := by
  constructor
  · have hTwo : 1 ≤ 2 := by
      decide
    have hSmall :=
      timeout_from_recent_runs hTwo [4, -1, 3, 0, 5]
    exact hSmall.2.1 (by decide)
  · have hMany : 1 ≤ 1000 := by
      decide
    have hFull :=
      timeout_from_recent_runs hMany (List.replicate 15 9)
    have hTimeout :=
      (hFull.2.2.2 (afterRuns (List.replicate 15 9)) rfl
        (by decide)).product (by decide)
    have hCompute :
        (afterRuns
          (List.replicate 15 9)).p90Estimator.compute =
            9 := by
      decide
    rw [hTimeout, hCompute, if_neg (by decide)]
    norm_num

/-
  Below 2^52 seconds the double product is not always exact:
  half of a second can be lost, and then the ceiling is one
  too low.
-/
theorem timeout_below_product :
    (∀ d ∈ (afterRuns
        (List.replicate 15
          4503599627370495)).p90Estimator.samples,
        d < 4503599627370496) ∧
      15 ≤ (afterRuns
        (List.replicate 15
          4503599627370495)).p90Estimator.size ∧
      (afterRuns
        (List.replicate 15
          4503599627370495)).computeTimeout <
        ⌈(3 / 2 : Rat) *
          (afterRuns
            (List.replicate 15
              4503599627370495)).p90Estimator.compute⌉ := by
  have hCompute :
      (afterRuns
        (List.replicate 15
          4503599627370495)).p90Estimator.compute =
        4503599627370495 := by
    decide
  refine ⟨by decide, by decide, ?_⟩
  rw [computeTimeout_of_samples (by decide)
    (by rw [hCompute]; decide) (by rw [hCompute]; decide)]
  rw [if_pos (by rw [hCompute]; decide)]
  omega

end Scheduler

end Aps

end Inks

------------------------------------------------------------
-- Runs
------------------------------------------------------------

namespace Inks

namespace Aps

namespace Scheduler

/- A step leaves the estimator alone or adds a duration. -/
theorem step_p90Estimator
    (s : Scheduler)
    (event : Event) :
    ∃ durations : List Int,
      (s.step event).p90Estimator =
        s.p90Estimator.addAll durations := by
  have hMove := step_move s event
  generalize s.step event = t at hMove ⊢
  cases hMove with
  | exit id it exitCode now hLookup =>
      by_cases hExited : wifexited exitCode
      · refine
          ⟨[durationCastSeconds (now - it.startTime)], ?_⟩
        simp [hExited, P90Estimator.addAll]
      · exact ⟨[], by simp [hExited]⟩
  | start pj rest pid now hAdmitted hQueue =>
      exact ⟨[], by simp [schedule]⟩
  | timeout id it hLookup => exact ⟨[], by simp⟩
  | push pj => exact ⟨[], rfl⟩
  | idle pid now hNone => exact ⟨[], rfl⟩
  | exitUnknown id exitCode now hLookup => exact ⟨[], rfl⟩
  | timeoutUnknown id hLookup => exact ⟨[], rfl⟩
  | stop => exact ⟨[], rfl⟩

/- In a run, the estimator was only added to. -/
theorem run_p90Estimator
    (s : Scheduler)
    (events : List Event) :
    ∃ durations : List Int,
      (s.run events).p90Estimator =
        s.p90Estimator.addAll durations := by
  induction events using List.reverseRecOn with
  | nil => exact ⟨[], rfl⟩
  | append_singleton events event ih =>
      rcases ih with ⟨earlier, hEarlier⟩
      rcases step_p90Estimator (s.run events) event with
        ⟨latest, hLatest⟩
      refine ⟨earlier ++ latest, ?_⟩
      rw [run_concat, hLatest, hEarlier]
      simp [P90Estimator.addAll]

/- The timeout of every scheduler that started empty. -/
theorem run_timeoutFromP90
    {pq : PendingQ}
    {storage : FinishedStorage}
    {lane : UInt64}
    {s : Scheduler}
    (hNew : Scheduler.new pq storage lane = .ok s)
    (events : List Event)
    (hExact :
      ∀ d ∈ (s.run events).p90Estimator.samples,
        d < 4503599627370496) :
    TimeoutFromP90 (s.run events) := by
  have hFresh : s.p90Estimator = { capacity := 1000 } := by
    unfold Scheduler.new at hNew
    split at hNew
    · cases hNew
    · cases hNew
      rfl
  rcases run_p90Estimator s events with
    ⟨durations, hDurations⟩
  rw [hFresh] at hDurations
  exact timeoutFromP90_of_addAll (by decide) hDurations
    hExact

end Scheduler

end Aps

end Inks
