import Inks.Foundation.Backoff
import Mathlib.Algebra.Order.Ring.Nat
import Mathlib.Tactic.Ring

/-
  The delays that a range goes through, against the capped
  exponential in unbounded integers.

  Key definitions include:
    * `Backoff.cappedDelay`
    * `Backoff.CappedExponential`
    * `Backoff.KeepsBits`

  Key theorems include:
    * `Backoff.shiftedDelay_eq_iff`
    * `Backoff.cappedExponential_iff`
-/

------------------------------------------------------------
-- Values
------------------------------------------------------------

namespace Inks

namespace ExponentialBackoffIterator

/- The value belongs to the present retry. -/
structure Computed
    (it : ExponentialBackoffIterator) : Prop where
  plain :
    it.jitter = false →
      it.currentValue = it.calculated.toUInt32
  bounded :
    it.currentValue.toNat ≤ it.calculated.toNat

theorem calculated_congr
    {it other : ExponentialBackoffIterator}
    (hBase : it.base = other.base)
    (hCapped : it.capped = other.capped)
    (hRetry : it.currentRetry = other.currentRetry) :
    it.calculated = other.calculated := by
  unfold calculated
  rw [hBase, hCapped, hRetry]

@[simp] theorem calculated_compute
    (it : ExponentialBackoffIterator) :
    it.compute.calculated = it.calculated := by
  apply calculated_congr <;> simp

theorem computed_compute
    (it : ExponentialBackoffIterator) :
    it.compute.Computed := by
  constructor
  · intro hPlain
    rw [(compute_frame it).2.2.2.1] at hPlain
    rw [calculated_compute]
    unfold compute
    rw [hPlain]
  · rw [calculated_compute]
    unfold compute
    split
    · next rng _ _ =>
        have hDraw := (rng 0 it.calculated).property
        rw [UInt64.le_iff_toNat_le] at hDraw
        rw [UInt64.toNat_toUInt32]
        exact (Nat.mod_le _ _).trans hDraw
    · rw [UInt64.toNat_toUInt32]
      exact Nat.mod_le _ _

/- A step that stays before the limit computes anew. -/
theorem computed_increment
    {it : ExponentialBackoffIterator}
    (hMore :
      it.currentRetry.toNat + 1 < it.maxRetries.toNat) :
    it.increment.Computed := by
  have hBound := it.maxRetries.toNat_lt
  have hHere : it.currentRetry < it.maxRetries := by
    rw [UInt32.lt_iff_toNat_lt]
    omega
  have hNext : it.currentRetry + 1 < it.maxRetries := by
    rw [UInt32.lt_iff_toNat_lt, UInt32.toNat_add,
      Nat.mod_eq_of_lt]
    · exact hMore
    · simp
      omega
  unfold increment
  rw [if_pos hHere]
  simp only
  rw [if_pos hNext]
  exact computed_compute _

theorem computed_iterate
    (base : UInt32)
    {maxRetries : UInt32}
    (capped : UInt32)
    (jitter : Bool)
    (rng : Rng)
    {i : Nat}
    (hIndex : i < maxRetries.toNat) :
    (increment^[i]
      (new base maxRetries capped jitter rng)).Computed := by
  cases i with
  | zero => exact computed_compute _
  | succ i =>
      have hSteps :=
        iterate_increment
          (new base maxRetries capped jitter rng) i
      have hFirst :=
        new_frame base maxRetries capped jitter rng
      rw [Function.iterate_succ_apply']
      apply computed_increment
      rw [hSteps.2.2.2.2, hSteps.2.1, hFirst.2.1,
        hFirst.2.2.2.2]
      · simpa using hIndex
      · rw [hFirst.2.2.2.2, hFirst.2.1]
        simp
        omega

end ExponentialBackoffIterator

end Inks

------------------------------------------------------------
-- Delays
------------------------------------------------------------

namespace Inks

namespace Backoff

/- The delay of a retry in unbounded integers. -/
def cappedDelay
    (base capped : UInt32)
    (i : Nat) : Nat :=
  min (base.toNat * 2 ^ i) capped.toNat

/- The delay that a shift in 64 bits gives. -/
def shiftedDelay
    (base capped : UInt32)
    (i : Nat) : Nat :=
  min
    (if i < 64 then
      base.toNat * 2 ^ i % 18446744073709551616
    else
      capped.toNat)
    capped.toNat

theorem shiftedDelay_le
    (base capped : UInt32)
    (i : Nat) :
    shiftedDelay base capped i ≤ capped.toNat :=
  Nat.min_le_right _ _

theorem toNat_calculated
    (it : ExponentialBackoffIterator) :
    it.calculated.toNat =
      shiftedDelay it.base it.capped
        it.currentRetry.toNat := by
  have hProduct :
      (if it.currentRetry < 64 then
          it.base.toUInt64 <<< it.currentRetry.toUInt64
        else
          it.capped.toUInt64).toNat =
        if it.currentRetry.toNat < 64 then
          it.base.toNat * 2 ^ it.currentRetry.toNat %
            18446744073709551616
        else
          it.capped.toNat := by
    have hIff :
        it.currentRetry < 64 ↔
          it.currentRetry.toNat < 64 := by
      rw [UInt32.lt_iff_toNat_lt]
      rfl
    by_cases hShort : it.currentRetry.toNat < 64
    · rw [if_pos (hIff.mpr hShort), if_pos hShort,
        UInt64.toNat_shiftLeft, UInt32.toNat_toUInt64,
        UInt32.toNat_toUInt64, Nat.mod_eq_of_lt hShort,
        Nat.shiftLeft_eq]
    · rw [if_neg (fun hLt => hShort (hIff.mp hLt)),
        if_neg hShort, UInt32.toNat_toUInt64]
  unfold ExponentialBackoffIterator.calculated shiftedDelay
  rw [← hProduct]
  generalize
    (if it.currentRetry < 64 then
        it.base.toUInt64 <<< it.currentRetry.toUInt64
      else
        it.capped.toUInt64) = product
  simp only
  split
  · next hOver =>
      rw [UInt64.lt_iff_toNat_lt,
        UInt32.toNat_toUInt64] at hOver
      rw [UInt32.toNat_toUInt64, Nat.min_eq_right]
      exact hOver.le
  · next hWithin =>
      rw [UInt64.lt_iff_toNat_lt, UInt32.toNat_toUInt64,
        Nat.not_lt] at hWithin
      rw [Nat.min_eq_left hWithin]

/- What the range computes at an index. -/
theorem toNat_calculated_iterate
    (base : UInt32)
    {maxRetries : UInt32}
    (capped : UInt32)
    (jitter : Bool)
    (rng : Rng)
    {i : Nat}
    (hIndex : i < maxRetries.toNat) :
    (ExponentialBackoffIterator.increment^[i]
      (.new base maxRetries capped jitter
        rng)).calculated.toNat =
      shiftedDelay base capped i := by
  have hSteps :=
    ExponentialBackoffIterator.iterate_increment
      (.new base maxRetries capped jitter rng) i
  have hFirst :=
    ExponentialBackoffIterator.new_frame base maxRetries
      capped jitter rng
  rw [toNat_calculated, hSteps.1, hSteps.2.2.1, hFirst.1,
    hFirst.2.2.1, hSteps.2.2.2.2]
  · rw [hFirst.2.2.2.2]
    simp
  · rw [hFirst.2.2.2.2, hFirst.2.1]
    simp
    omega

theorem values_getElem?_new
    {base maxRetries capped : UInt32}
    {jitter : Bool}
    {rng : Rng}
    {i : Nat}
    (hIndex : i < maxRetries.toNat) :
    (exponentialBackoff base maxRetries capped jitter
        rng).values[i]? =
      some
        (ExponentialBackoffIterator.increment^[i]
          (.new base maxRetries capped jitter
            rng)).currentValue := by
  have hFirst :=
    ExponentialBackoffIterator.new_frame base maxRetries
      capped jitter rng
  unfold exponentialBackoff
  apply ExponentialBackoffIterator.values_getElem?
  rw [hFirst.2.1, hFirst.2.2.2.2]
  simpa using hIndex

theorem exists_value
    (base : UInt32)
    {maxRetries : UInt32}
    (capped : UInt32)
    (rng : Rng)
    {i : Nat}
    (hIndex : i < maxRetries.toNat) :
    ∃ v,
      (exponentialBackoff base maxRetries capped false
        rng).values[i]? = some v ∧
      v.toNat = shiftedDelay base capped i := by
  refine ⟨_, values_getElem?_new hIndex, ?_⟩
  have hComputed :=
    ExponentialBackoffIterator.computed_iterate base capped
      false rng hIndex
  have hCalculated :=
    toNat_calculated_iterate base capped false rng hIndex
  have hLe := shiftedDelay_le base capped i
  have hBound := capped.toNat_lt
  rw [hComputed.plain, UInt64.toNat_toUInt32, hCalculated]
  · exact Nat.mod_eq_of_lt (by omega)
  · rw [(ExponentialBackoffIterator.iterate_increment
      _ i).2.2.2.1]
    simp

theorem exists_jittered_value
    (base : UInt32)
    {maxRetries : UInt32}
    (capped : UInt32)
    (rng : Rng)
    {i : Nat}
    (hIndex : i < maxRetries.toNat) :
    ∃ v,
      (exponentialBackoff base maxRetries capped true
        rng).values[i]? = some v ∧
      v.toNat ≤ shiftedDelay base capped i := by
  refine ⟨_, values_getElem?_new hIndex, ?_⟩
  have hComputed :=
    ExponentialBackoffIterator.computed_iterate base capped
      true rng hIndex
  have hCalculated :=
    toNat_calculated_iterate base capped true rng hIndex
  rw [← hCalculated]
  exact hComputed.bounded

end Backoff

end Inks

------------------------------------------------------------
-- Lost Bits
------------------------------------------------------------

namespace Inks

namespace Backoff

/-
  No shift within the word pushes out all bits of the base,
  and none is abandoned for a base that has no bits.
-/
def KeepsBits
    (base maxRetries capped : UInt32) : Prop :=
  capped = 0 ∨
    (base = 0 ∧ maxRetries.toNat ≤ 64) ∨
    (base ≠ 0 ∧
      ¬ 2 ^ max 1 (65 - maxRetries.toNat) ∣ base.toNat)

theorem eq_zero_iff_toNat
    (n : UInt32) :
    n = 0 ↔ n.toNat = 0 := by
  rw [← UInt32.toNat_inj]
  rfl

/- A product that passes the word has no bits below 2^33. -/
theorem le_mod_of_overflow
    {base i : Nat}
    (hBase : base < 4294967296)
    (hOver : 18446744073709551616 ≤ base * 2 ^ i)
    (hSome : base * 2 ^ i % 18446744073709551616 ≠ 0) :
    8589934592 ≤ base * 2 ^ i % 18446744073709551616 := by
  have hShift : 33 ≤ i := by
    by_contra hSmall
    have hPow : 2 ^ i ≤ 2 ^ 32 :=
      Nat.pow_le_pow_right (by decide) (by omega)
    have hProduct : base * 2 ^ i ≤ base * 2 ^ 32 :=
      Nat.mul_le_mul_left base hPow
    omega
  have hPow : (2 : Nat) ^ 33 ∣ 2 ^ i :=
    Nat.pow_dvd_pow 2 hShift
  have hMultiple :
      8589934592 ∣ base * 2 ^ i % 18446744073709551616 :=
    (Nat.dvd_mod_iff (by decide)).mpr
      (hPow.mul_left base)
  exact Nat.le_of_dvd (Nat.pos_of_ne_zero hSome) hMultiple

/- All bits leave the word when the base has enough zeros. -/
theorem mod_eq_zero_iff
    {base i : Nat}
    (hWord : i < 64) :
    base * 2 ^ i % 18446744073709551616 = 0 ↔
      2 ^ (64 - i) ∣ base := by
  have hSplit :
      18446744073709551616 = 2 ^ (64 - i) * 2 ^ i := by
    rw [← Nat.pow_add, Nat.sub_add_cancel hWord.le]
  rw [← Nat.dvd_iff_mod_eq_zero, hSplit]
  exact Nat.mul_dvd_mul_iff_right (Nat.two_pow_pos i)

/- A shift within the word. -/
theorem shiftedDelay_eq_iff_of_lt
    {base capped : UInt32}
    {i : Nat}
    (hWord : i < 64) :
    shiftedDelay base capped i = cappedDelay base capped i ↔
      capped = 0 ∨ base = 0 ∨
        ¬ 2 ^ (64 - i) ∣ base.toNat := by
  have hBase := base.toNat_lt
  have hCapped := capped.toNat_lt
  have hPow : 0 < 2 ^ i := Nat.two_pow_pos i
  unfold shiftedDelay cappedDelay
  rw [if_pos hWord, ← mod_eq_zero_iff hWord,
    eq_zero_iff_toNat base, eq_zero_iff_toNat capped]
  by_cases hLost :
      base.toNat * 2 ^ i % 18446744073709551616 = 0
  · have hProduct :
        base.toNat * 2 ^ i = 0 ↔ base.toNat = 0 := by
      simp
    rw [hLost]
    omega
  · by_cases hOver :
        18446744073709551616 ≤ base.toNat * 2 ^ i
    · have hLarge :=
        le_mod_of_overflow (by omega) hOver hLost
      omega
    · rw [Nat.mod_eq_of_lt (by omega)]
      simp [Nat.mod_eq_of_lt (Nat.lt_of_not_ge hOver)]
        at hLost ⊢
      omega

/- From the width of the word on, the cap stands in. -/
theorem shiftedDelay_eq_iff_of_le
    {base capped : UInt32}
    {i : Nat}
    (hWord : 64 ≤ i) :
    shiftedDelay base capped i = cappedDelay base capped i ↔
      capped = 0 ∨ base ≠ 0 := by
  have hCapped := capped.toNat_lt
  have hPow : 2 ^ 64 ≤ 2 ^ i :=
    Nat.pow_le_pow_right (by decide) hWord
  unfold shiftedDelay cappedDelay
  rw [if_neg (by omega), eq_zero_iff_toNat capped]
  by_cases hBase : base = 0
  · simp [hBase]
  · have hPos : 1 ≤ base.toNat :=
      Nat.pos_of_ne_zero
        (mt (eq_zero_iff_toNat base).mpr hBase)
    have hProduct : 1 * 2 ^ i ≤ base.toNat * 2 ^ i :=
      Nat.mul_le_mul_right _ hPos
    simp only [hBase, ne_eq, not_false_eq_true, or_true,
      iff_true]
    omega

/-
  The shift is right at every index exactly when it keeps
  bits.
-/
theorem shiftedDelay_eq_iff
    (base maxRetries capped : UInt32) :
    (∀ i < maxRetries.toNat,
      shiftedDelay base capped i =
        cappedDelay base capped i) ↔
      KeepsBits base maxRetries capped := by
  constructor
  · intro hAll
    by_cases hCapped : capped = 0
    · exact Or.inl hCapped
    right
    by_cases hBase : base = 0
    · left
      refine ⟨hBase, ?_⟩
      by_contra hMany
      have hHere := hAll 64 (by omega)
      rw [shiftedDelay_eq_iff_of_le le_rfl] at hHere
      tauto
    · right
      refine ⟨hBase, ?_⟩
      intro hDvd
      have hPos : 0 < base.toNat :=
        Nat.pos_of_ne_zero
          (mt (eq_zero_iff_toNat base).mpr hBase)
      have hSize := Nat.le_of_dvd hPos hDvd
      have hBound := base.toNat_lt
      have hMany : 33 < maxRetries.toNat := by
        by_contra hFew
        have hPow :
            2 ^ 32 ≤ 2 ^ max 1 (65 - maxRetries.toNat) :=
          Nat.pow_le_pow_right (by decide) (by omega)
        omega
      have hHere :=
        hAll (min (maxRetries.toNat - 1) 63) (by omega)
      rw [shiftedDelay_eq_iff_of_lt (by omega)] at hHere
      have hIndex :
          64 - min (maxRetries.toNat - 1) 63 =
            max 1 (65 - maxRetries.toNat) := by
        omega
      rw [hIndex] at hHere
      tauto
  · intro hKeeps i hIndex
    by_cases hWord : i < 64
    · rw [shiftedDelay_eq_iff_of_lt hWord]
      rcases hKeeps with hCapped | ⟨hBase, _⟩ | ⟨_, hDvd⟩
      · exact Or.inl hCapped
      · exact Or.inr (Or.inl hBase)
      · right
        right
        intro hHere
        apply hDvd
        have hPow :
            2 ^ max 1 (65 - maxRetries.toNat) ∣
              2 ^ (64 - i) :=
          Nat.pow_dvd_pow 2 (by omega)
        exact hPow.trans hHere
    · rw [shiftedDelay_eq_iff_of_le (by omega)]
      rcases hKeeps with hCapped | ⟨_, hFew⟩ | ⟨hBase, _⟩
      · exact Or.inl hCapped
      · omega
      · exact Or.inr hBase

end Backoff

end Inks

------------------------------------------------------------
-- The Capped Exponential
------------------------------------------------------------

namespace Inks

namespace Backoff

/- What the delays of a range promise. -/
structure CappedExponential
    (base maxRetries capped : UInt32) : Prop where
  value :
    ∀ rng i, i < maxRetries.toNat →
      ∃ v,
        (exponentialBackoff base maxRetries capped false
          rng).values[i]? = some v ∧
        v.toNat = cappedDelay base capped i
  nondecreasing :
    ∀ rng,
      (exponentialBackoff base maxRetries capped false
        rng).values.Pairwise (· ≤ ·)
  atMost :
    ∀ rng,
      ∀ v ∈
        (exponentialBackoff base maxRetries capped false
          rng).values,
        v ≤ capped
  jittered :
    ∀ rng i, i < maxRetries.toNat →
      ∃ v,
        (exponentialBackoff base maxRetries capped true
          rng).values[i]? = some v ∧
        v.toNat ≤ cappedDelay base capped i

theorem cappedDelay_mono
    (base capped : UInt32)
    {i j : Nat}
    (hLe : i ≤ j) :
    cappedDelay base capped i ≤
      cappedDelay base capped j := by
  have hPow : 2 ^ i ≤ 2 ^ j :=
    Nat.pow_le_pow_right (by decide) hLe
  exact min_le_min_right _ (Nat.mul_le_mul_left _ hPow)

theorem cappedExponential_of_keepsBits
    {base maxRetries capped : UInt32}
    (hKeeps : KeepsBits base maxRetries capped) :
    CappedExponential base maxRetries capped := by
  have hDelay :=
    (shiftedDelay_eq_iff base maxRetries capped).mpr hKeeps
  have hValue :
      ∀ rng i, i < maxRetries.toNat →
        ∃ v,
          (exponentialBackoff base maxRetries capped false
            rng).values[i]? = some v ∧
          v.toNat = cappedDelay base capped i := by
    intro rng i hIndex
    rw [← hDelay i hIndex]
    exact exists_value base capped rng hIndex
  refine ⟨hValue, ?_, ?_, ?_⟩
  · intro rng
    rw [List.pairwise_iff_getElem]
    intro i j hi hj hLt
    have hLength :=
      length_exponentialBackoff base maxRetries capped false
        rng
    rcases hValue rng i (by omega) with ⟨v, hv, hvNat⟩
    rcases hValue rng j (by omega) with ⟨w, hw, hwNat⟩
    rw [List.getElem?_eq_getElem hi] at hv
    rw [List.getElem?_eq_getElem hj] at hw
    rw [Option.some.inj hv, Option.some.inj hw,
      UInt32.le_iff_toNat_le, hvNat, hwNat]
    exact cappedDelay_mono base capped hLt.le
  · intro rng v hMem
    rcases List.getElem_of_mem hMem with ⟨i, hi, hGet⟩
    have hLength :=
      length_exponentialBackoff base maxRetries capped false
        rng
    rcases hValue rng i (by omega) with ⟨w, hw, hwNat⟩
    rw [List.getElem?_eq_getElem hi, hGet] at hw
    rw [Option.some.inj hw, UInt32.le_iff_toNat_le, hwNat]
    exact Nat.min_le_right _ _
  · intro rng i hIndex
    rw [← hDelay i hIndex]
    exact exists_jittered_value base capped rng hIndex

/- When the delays of a range are the capped exponential. -/
theorem cappedExponential_iff
    (base maxRetries capped : UInt32) :
    CappedExponential base maxRetries capped ↔
      KeepsBits base maxRetries capped := by
  constructor
  · intro hPromise
    rw [← shiftedDelay_eq_iff]
    intro i hIndex
    rcases hPromise.value highestDraws i hIndex with
      ⟨v, hv, hvNat⟩
    rcases exists_value base capped highestDraws hIndex with
      ⟨w, hw, hwNat⟩
    rw [hv] at hw
    rw [← hvNat, ← hwNat, Option.some.inj hw]
  · exact cappedExponential_of_keepsBits

/- The only bit of the base leaves the word. -/
theorem delay_drops_to_zero :
    (∀ rng,
      (exponentialBackoff 2 64 100 false rng).values[62]? =
          some 100 ∧
        (exponentialBackoff 2 64 100 false
          rng).values[63]? = some 0) ∧
      cappedDelay 2 100 63 = 100 ∧
      ¬ CappedExponential 2 64 100 := by
  have hHere :
      ∀ rng (i : Nat) (v : UInt32), i < 64 →
        shiftedDelay 2 100 i = v.toNat →
          (exponentialBackoff 2 64 100 false
            rng).values[i]? = some v := by
    intro rng i v hIndex hDelay
    have hWithin : i < (64 : UInt32).toNat := hIndex
    rcases exists_value 2 100 rng hWithin with
      ⟨w, hw, hwNat⟩
    rw [hw, UInt32.toNat_inj.mp (hwNat.trans hDelay)]
  refine ⟨?_, by decide, ?_⟩
  · intro rng
    exact ⟨hHere rng 62 100 (by decide) (by decide),
      hHere rng 63 0 (by decide) (by decide)⟩
  · intro hPromise
    rcases hPromise.value highestDraws 63
      (by decide) with ⟨v, hv, hvNat⟩
    rw [hHere _ 63 0 (by decide) (by decide)] at hv
    rw [← Option.some.inj hv] at hvNat
    exact absurd hvNat (by decide)

end Backoff

end Inks
