import Inks.Foundation.Backoff

/-
  Equality of the iterators that a program can hold.

  Key definitions include:
    * `ExponentialBackoffIterator.Reachable`
    * `ExponentialBackoffIterator.EquivalenceAt`
    * `ExponentialBackoffIterator.Lopsided`
    * `ExponentialBackoffIterator.Broken`

  Key theorems include:
    * `ExponentialBackoffIterator.equal_iff`
    * `ExponentialBackoffIterator.equivalenceAt_iff`
-/

------------------------------------------------------------
-- Reachable Iterators
------------------------------------------------------------

namespace Inks

namespace ExponentialBackoffIterator

/- What construction and increments lead to. -/
inductive Reachable : ExponentialBackoffIterator → Prop where
| new
    (base maxRetries capped : UInt32)
    (jitter : Bool)
    (rng : Rng) :
    Reachable (.new base maxRetries capped jitter rng)
| endIterator :
    Reachable endIterator
| increment
    {it : ExponentialBackoffIterator}
    (hReachable : Reachable it) :
    Reachable it.increment

/- The place of an iterator is not before its limit. -/
def Exhausted
    (it : ExponentialBackoffIterator) : Prop :=
  it.maxRetries.toNat ≤ it.currentRetry.toNat

/- All that the fallback of `equal` compares. -/
def SamePlace
    (it other : ExponentialBackoffIterator) : Prop :=
  it.base = other.base ∧
    it.currentRetry = other.currentRetry

theorem exhausted_endIterator :
    endIterator.Exhausted :=
  Nat.zero_le _

/- Only the end iterator is past its limit. -/
theorem Reachable.eq_end_or_le
    {it : ExponentialBackoffIterator}
    (hReachable : it.Reachable) :
    it = ExponentialBackoffIterator.endIterator ∨
      it.currentRetry.toNat ≤ it.maxRetries.toNat := by
  induction hReachable with
  | new base maxRetries capped jitter rng =>
      right
      simp
  | endIterator => exact Or.inl rfl
  | @increment it hReachable ih =>
      rcases ih with hEnd | hLe
      · left
        rw [hEnd]
        exact increment_of_exhausted (by decide)
      · right
        rw [(increment_frame it).2.1]
        by_cases hMore :
            it.currentRetry.toNat < it.maxRetries.toNat
        · rw [currentRetry_increment hMore]
          exact hMore
        · rw [increment_of_exhausted]
          · exact hLe
          · rw [UInt32.le_iff_toNat_le]
            omega

/- `equal` on the iterators of a program. -/
theorem equal_iff
    {it other : ExponentialBackoffIterator}
    (hOther : other.Reachable) :
    it.equal other = true ↔
      (it.Exhausted ∧ other = endIterator) ∨
        it.SamePlace other := by
  have hPast :
      other.currentRetry > other.maxRetries ↔
        other = ExponentialBackoffIterator.endIterator := by
    constructor
    · intro hLt
      rw [gt_iff_lt, UInt32.lt_iff_toNat_lt] at hLt
      rcases hOther.eq_end_or_le with hEnd | hLe
      · exact hEnd
      · omega
    · intro hEnd
      rw [hEnd]
      decide
  have hDone :
      it.currentRetry ≥ it.maxRetries ↔ it.Exhausted :=
    UInt32.le_iff_toNat_le
  rw [← hPast, ← hDone]
  unfold equal SamePlace
  by_cases hBoth :
      it.currentRetry ≥ it.maxRetries ∧
        other.currentRetry > other.maxRetries
  · rw [if_pos hBoth]
    exact iff_of_true rfl (Or.inl hBoth)
  · rw [if_neg hBoth]
    simp [hBoth]

end ExponentialBackoffIterator

end Inks

------------------------------------------------------------
-- Equivalence
------------------------------------------------------------

namespace Inks

namespace ExponentialBackoffIterator

/- The laws of an equivalence relation on three iterators. -/
structure EquivalenceAt
    (a b c : ExponentialBackoffIterator) : Prop where
  refl : a.equal a = true
  symm : a.equal b = true → b.equal a = true
  trans :
    a.equal b = true → b.equal c = true →
      a.equal c = true

/-
  An exhausted iterator before the end iterator: equal this
  way around, and the other way only from the same place.
-/
def Lopsided
    (a b : ExponentialBackoffIterator) : Prop :=
  a ≠ endIterator ∧ b = endIterator ∧
    a.Exhausted ∧ ¬ a.SamePlace b

/-
  Two iterators at the same place under different limits, of
  which only the second is exhausted, before the end.
-/
def Broken
    (a b c : ExponentialBackoffIterator) : Prop :=
  a.SamePlace b ∧ ¬ a.Exhausted ∧ b.Exhausted ∧
    c = endIterator

@[simp] theorem samePlace_refl
    (it : ExponentialBackoffIterator) :
    it.SamePlace it :=
  ⟨rfl, rfl⟩

theorem SamePlace.symm
    {it other : ExponentialBackoffIterator}
    (hSame : it.SamePlace other) :
    other.SamePlace it :=
  ⟨hSame.1.symm, hSame.2.symm⟩

theorem SamePlace.trans
    {a b c : ExponentialBackoffIterator}
    (hFirst : a.SamePlace b)
    (hSecond : b.SamePlace c) :
    a.SamePlace c :=
  ⟨hFirst.1.trans hSecond.1, hFirst.2.trans hSecond.2⟩

/- At the retry count of the end, every limit is reached. -/
theorem exhausted_of_samePlace_end
    {it : ExponentialBackoffIterator}
    (hSame : it.SamePlace endIterator) :
    it.Exhausted := by
  have hBound := it.maxRetries.toNat_lt
  unfold Exhausted
  rw [hSame.2]
  simp [endIterator]
  omega

theorem symm_iff
    {a b : ExponentialBackoffIterator}
    (hA : a.Reachable)
    (hB : b.Reachable) :
    (a.equal b = true → b.equal a = true) ↔
      ¬ Lopsided a b := by
  rw [equal_iff hB, equal_iff hA]
  constructor
  · intro hSymm hLopsided
    rcases hLopsided with ⟨hNotEnd, hEnd, hDone, hApart⟩
    rcases hSymm (Or.inl ⟨hDone, hEnd⟩) with
      ⟨_, hIsEnd⟩ | hSame
    · exact hNotEnd hIsEnd
    · exact hApart hSame.symm
  · intro hNot hEqual
    rcases hEqual with ⟨hDone, hEnd⟩ | hSame
    · by_cases hIsEnd : a = endIterator
      · left
        rw [hEnd]
        exact ⟨exhausted_endIterator, hIsEnd⟩
      · right
        by_contra hApart
        exact hNot
          ⟨hIsEnd, hEnd, hDone, fun h => hApart h.symm⟩
    · exact Or.inr hSame.symm

theorem trans_of_not_broken
    {a b c : ExponentialBackoffIterator}
    (hB : b.Reachable)
    (hC : c.Reachable)
    (hLopsided : ¬ Lopsided a b)
    (hBroken : ¬ Broken a b c)
    (hFirst : a.equal b = true)
    (hSecond : b.equal c = true) :
    a.equal c = true := by
  rw [equal_iff hB] at hFirst
  rw [equal_iff hC] at hSecond ⊢
  rcases hFirst with ⟨hDone, hEnd⟩ | hSame
  · rcases hSecond with ⟨_, hLast⟩ | hLater
    · exact Or.inl ⟨hDone, hLast⟩
    · -- Here `c` is at the place of the end iterator `b`.
      by_cases hPlace : a.SamePlace b
      · exact Or.inr (hPlace.trans hLater)
      · by_cases hIsEnd : a = endIterator
        · rw [hIsEnd, ← hEnd]
          exact Or.inr hLater
        · exact absurd ⟨hIsEnd, hEnd, hDone, hPlace⟩
            hLopsided
  · rcases hSecond with ⟨hDone, hLast⟩ | hLater
    · by_cases hHere : a.Exhausted
      · exact Or.inl ⟨hHere, hLast⟩
      · exact absurd ⟨hSame, hHere, hDone, hLast⟩ hBroken
    · exact Or.inr (hSame.trans hLater)

/- When `equal` is an equivalence on three iterators. -/
theorem equivalenceAt_iff
    {a b c : ExponentialBackoffIterator}
    (hA : a.Reachable)
    (hB : b.Reachable)
    (hC : c.Reachable) :
    EquivalenceAt a b c ↔
      ¬ Lopsided a b ∧ ¬ Broken a b c := by
  constructor
  · intro hLaws
    refine ⟨(symm_iff hA hB).mp hLaws.symm, ?_⟩
    intro hBroken
    rcases hBroken with ⟨hSame, hHere, hDone, hLast⟩
    have hEqual :=
      hLaws.trans ((equal_iff hB).mpr (Or.inr hSame))
        ((equal_iff hC).mpr (Or.inl ⟨hDone, hLast⟩))
    rcases (equal_iff hC).mp hEqual with
      ⟨hExhausted, _⟩ | hPlace
    · exact hHere hExhausted
    · rw [hLast] at hPlace
      exact hHere (exhausted_of_samePlace_end hPlace)
  · intro hNot
    refine ⟨?_, (symm_iff hA hB).mpr hNot.1, ?_⟩
    · exact (equal_iff hA).mpr (Or.inr (samePlace_refl a))
    · exact trans_of_not_broken hB hC hNot.1 hNot.2

theorem equivalenceAt_fresh :
    EquivalenceAt
      (.new 1 3 60 false highestDraws)
      (.new 1 5 60 false highestDraws)
      endIterator := by
  apply (equivalenceAt_iff (.new _ _ _ _ _)
    (.new _ _ _ _ _) .endIterator).mpr
  constructor
  · intro hLopsided
    have hDone := hLopsided.2.2.1
    simp [Exhausted] at hDone
  · intro hBroken
    have hDone := hBroken.2.2.1
    simp [Exhausted] at hDone

/- The two orders of an exhausted iterator and the end. -/
theorem equal_end_not_symm :
    ((new 1 0 60 false highestDraws).equal endIterator =
        true ∧
      endIterator.equal (new 1 0 60 false highestDraws) =
        false) ∧
      ¬ ∀ a b c : ExponentialBackoffIterator,
        a.Reachable → b.Reachable → c.Reachable →
          EquivalenceAt a b c := by
  have hOrders :
      (new 1 0 60 false highestDraws).equal endIterator =
          true ∧
        endIterator.equal (new 1 0 60 false highestDraws) =
          false := by
    decide
  refine ⟨hOrders, ?_⟩
  intro hLaws
  have hSymm :=
    (hLaws _ endIterator endIterator (.new 1 0 60 false _)
      .endIterator .endIterator).symm hOrders.1
  rw [hOrders.2] at hSymm
  exact absurd hSymm (by decide)

end ExponentialBackoffIterator

end Inks
