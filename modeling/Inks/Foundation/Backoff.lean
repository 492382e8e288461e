import Mathlib.Logic.Function.Iterate

/-
  Delays that double from one retry to the next, up to a
  cap, and the loop that retries a function after them.

  Key definitions include:
    * `ExponentialBackoffIterator.equal`
    * `ExponentialBackoffIterator.increment`
    * `ExponentialBackoffIterator.values`
    * `exponentialBackoff`
    * `exponentialRetry`

  Key theorems include:
    * `ExponentialBackoffIterator.equal_endIterator_iff`
    * `ExponentialBackoffIterator.values_getElem?`
-/

------------------------------------------------------------
-- The Iterator
------------------------------------------------------------

namespace Inks

/-
  A generator seen through the numbers that it will return:
  each is drawn from a uniform distribution from 0 up to a
  bound, and the bound may depend on the earlier ones.
-/
abbrev Rng :=
  Nat → (bound : UInt64) → { n : UInt64 // n ≤ bound }

/- A generator that always draws the bound. -/
def highestDraws : Rng :=
  fun _ bound => ⟨bound, UInt64.le_refl bound⟩

structure ExponentialBackoffIterator where
  base : UInt32 := 0
  maxRetries : UInt32 := 0
  capped : UInt32 := 0
  jitter : Bool := false
  rng : Option Rng := none
  currentRetry : UInt32 := 0
  currentValue : UInt32 := 0

namespace ExponentialBackoffIterator

/- The product before the jitter, in 64 bits. -/
def calculated
    (it : ExponentialBackoffIterator) : UInt64 :=
  let calculated :=
    if it.currentRetry < 64 then
      it.base.toUInt64 <<< it.currentRetry.toUInt64
    else
      it.capped.toUInt64
  if it.capped.toUInt64 < calculated then
    it.capped.toUInt64
  else
    calculated

def compute
    (it : ExponentialBackoffIterator) :
    ExponentialBackoffIterator :=
  match it.jitter, it.rng with
  | true, some rng =>
      { it with
        rng := some (fun n => rng (n + 1))
        currentValue :=
          (rng 0 it.calculated).val.toUInt32 }
  | _, _ =>
      { it with currentValue := it.calculated.toUInt32 }

/- The constructor with arguments. -/
def new
    (base maxRetries capped : UInt32)
    (jitter : Bool)
    (rng : Rng) : ExponentialBackoffIterator :=
  compute
    { base := base
      maxRetries := maxRetries
      capped := capped
      jitter := jitter
      rng := if jitter then some rng else none }

/- The default constructor: the end of every range. -/
def endIterator : ExponentialBackoffIterator where
  currentRetry := 4294967295

def equal
    (it other : ExponentialBackoffIterator) : Bool :=
  if it.currentRetry ≥ it.maxRetries ∧
      other.currentRetry > other.maxRetries then
    true
  else
    it.base == other.base &&
      it.currentRetry == other.currentRetry

def increment
    (it : ExponentialBackoffIterator) :
    ExponentialBackoffIterator :=
  if it.currentRetry < it.maxRetries then
    let it :=
      { it with currentRetry := it.currentRetry + 1 }
    if it.currentRetry < it.maxRetries then
      it.compute
    else
      it
  else
    it

end ExponentialBackoffIterator

end Inks

------------------------------------------------------------
-- Steps
------------------------------------------------------------

namespace Inks

namespace ExponentialBackoffIterator

/- Computing a value keeps the parameters and the place. -/
@[simp] theorem compute_frame
    (it : ExponentialBackoffIterator) :
    it.compute.base = it.base ∧
      it.compute.maxRetries = it.maxRetries ∧
      it.compute.capped = it.capped ∧
      it.compute.jitter = it.jitter ∧
      it.compute.currentRetry = it.currentRetry := by
  unfold compute
  split <;> simp

@[simp] theorem new_frame
    (base maxRetries capped : UInt32)
    (jitter : Bool)
    (rng : Rng) :
    (new base maxRetries capped jitter rng).base = base ∧
      (new base maxRetries capped jitter rng).maxRetries =
        maxRetries ∧
      (new base maxRetries capped jitter rng).capped =
        capped ∧
      (new base maxRetries capped jitter rng).jitter =
        jitter ∧
      (new base maxRetries capped jitter
        rng).currentRetry = 0 := by
  simp [new]

@[simp] theorem increment_frame
    (it : ExponentialBackoffIterator) :
    it.increment.base = it.base ∧
      it.increment.maxRetries = it.maxRetries ∧
      it.increment.capped = it.capped ∧
      it.increment.jitter = it.jitter := by
  unfold increment
  split
  · simp only
    split <;> simp
  · simp

/- An iterator before its limit advances by one retry. -/
theorem currentRetry_increment
    {it : ExponentialBackoffIterator}
    (hMore : it.currentRetry.toNat < it.maxRetries.toNat) :
    it.increment.currentRetry.toNat =
      it.currentRetry.toNat + 1 := by
  have hBound := it.maxRetries.toNat_lt
  have hNext :
      (it.currentRetry + 1).toNat =
        it.currentRetry.toNat + 1 := by
    rw [UInt32.toNat_add]
    exact Nat.mod_eq_of_lt (by simp; omega)
  have hLt : it.currentRetry < it.maxRetries :=
    UInt32.lt_iff_toNat_lt.mpr hMore
  unfold increment
  rw [if_pos hLt]
  simp only
  split
  · simpa using hNext
  · exact hNext

/- An exhausted iterator stays as it is. -/
theorem increment_of_exhausted
    {it : ExponentialBackoffIterator}
    (hDone : it.maxRetries ≤ it.currentRetry) :
    it.increment = it := by
  unfold increment
  rw [if_neg (UInt32.not_lt.mpr hDone)]

/- The test of a loop: it ends at the limit, not before. -/
theorem equal_endIterator_iff
    (it : ExponentialBackoffIterator) :
    it.equal endIterator = true ↔
      it.maxRetries.toNat ≤ it.currentRetry.toNat := by
  have hBound := it.maxRetries.toNat_lt
  have hEnd :
      endIterator.currentRetry > endIterator.maxRetries := by
    decide
  unfold equal
  by_cases hDone : it.currentRetry ≥ it.maxRetries
  · rw [if_pos ⟨hDone, hEnd⟩]
    simpa using UInt32.le_iff_toNat_le.mp hDone
  · have hMore :
        it.currentRetry.toNat < it.maxRetries.toNat := by
      rw [ge_iff_le, UInt32.le_iff_toNat_le] at hDone
      omega
    have hNe :
        it.currentRetry ≠ endIterator.currentRetry := by
      intro hEq
      rw [hEq] at hMore
      simp [endIterator] at hMore
      omega
    rw [if_neg (fun hBoth => hDone hBoth.1)]
    simp [hNe]
    omega

end ExponentialBackoffIterator

end Inks

------------------------------------------------------------
-- Ranges
------------------------------------------------------------

namespace Inks

namespace ExponentialBackoffIterator

theorem retries_increment_lt
    {it : ExponentialBackoffIterator}
    (hMore : ¬ it.equal endIterator = true) :
    it.increment.maxRetries.toNat -
        it.increment.currentRetry.toNat <
      it.maxRetries.toNat - it.currentRetry.toNat := by
  rw [equal_endIterator_iff, Nat.not_le] at hMore
  rw [currentRetry_increment hMore,
    (increment_frame it).2.1]
  omega

/- What a loop from an iterator to the end goes through. -/
def values
    (it : ExponentialBackoffIterator) : List UInt32 :=
  if _hDone : it.equal endIterator = true then
    []
  else
    it.currentValue :: it.increment.values
termination_by
  it.maxRetries.toNat - it.currentRetry.toNat
decreasing_by exact retries_increment_lt _hDone

theorem values_of_exhausted
    {it : ExponentialBackoffIterator}
    (hDone : it.maxRetries.toNat ≤ it.currentRetry.toNat) :
    it.values = [] := by
  rw [values, dif_pos ((equal_endIterator_iff it).mpr hDone)]

theorem values_of_lt
    {it : ExponentialBackoffIterator}
    (hMore : it.currentRetry.toNat < it.maxRetries.toNat) :
    it.values = it.currentValue :: it.increment.values := by
  rw [values, dif_neg]
  rw [equal_endIterator_iff]
  omega

@[simp] theorem length_values
    (it : ExponentialBackoffIterator) :
    it.values.length =
      it.maxRetries.toNat - it.currentRetry.toNat := by
  induction it using values.induct with
  | case1 it hDone =>
      rw [equal_endIterator_iff] at hDone
      rw [values_of_exhausted hDone, List.length_nil]
      omega
  | case2 it hMore ih =>
      rw [equal_endIterator_iff, Nat.not_le] at hMore
      rw [values_of_lt hMore, List.length_cons, ih,
        currentRetry_increment hMore,
        (increment_frame it).2.1]
      omega

/- The place after some steps before the limit. -/
theorem iterate_increment
    (it : ExponentialBackoffIterator)
    (i : Nat) :
    (increment^[i] it).base = it.base ∧
      (increment^[i] it).maxRetries = it.maxRetries ∧
      (increment^[i] it).capped = it.capped ∧
      (increment^[i] it).jitter = it.jitter ∧
      (it.currentRetry.toNat + i ≤ it.maxRetries.toNat →
        (increment^[i] it).currentRetry.toNat =
          it.currentRetry.toNat + i) := by
  induction i with
  | zero => simp
  | succ i ih =>
      rcases ih with
        ⟨hBase, hMax, hCapped, hJitter, hRetry⟩
      rw [Function.iterate_succ_apply']
      refine ⟨?_, ?_, ?_, ?_, ?_⟩
      · rw [(increment_frame _).1, hBase]
      · rw [(increment_frame _).2.1, hMax]
      · rw [(increment_frame _).2.2.1, hCapped]
      · rw [(increment_frame _).2.2.2, hJitter]
      · intro hRoom
        have hHere := hRetry (by omega)
        have hMore :
            (increment^[i] it).currentRetry.toNat <
              (increment^[i] it).maxRetries.toNat := by
          rw [hHere, hMax]
          omega
        rw [currentRetry_increment hMore, hHere]
        omega

/- Each value of a loop is the one after so many steps. -/
theorem values_getElem?
    {it : ExponentialBackoffIterator}
    {i : Nat}
    (hIndex :
      it.currentRetry.toNat + i < it.maxRetries.toNat) :
    it.values[i]? =
      some (increment^[i] it).currentValue := by
  induction i generalizing it with
  | zero => simp [values_of_lt hIndex]
  | succ i ih =>
      have hMore :
          it.currentRetry.toNat < it.maxRetries.toNat := by
        omega
      rw [values_of_lt hMore, List.getElem?_cons_succ,
        Function.iterate_succ_apply]
      apply ih
      rw [currentRetry_increment hMore,
        (increment_frame it).2.1]
      omega

end ExponentialBackoffIterator

/-
  The first iterator of a range. The other one of every
  range is the end iterator.
-/
def exponentialBackoff
    (base maxRetries capped : UInt32)
    (jitter : Bool)
    (rng : Rng) : ExponentialBackoffIterator :=
  .new base maxRetries capped jitter rng

theorem length_exponentialBackoff
    (base maxRetries capped : UInt32)
    (jitter : Bool)
    (rng : Rng) :
    (exponentialBackoff base maxRetries capped jitter
      rng).values.length = maxRetries.toNat := by
  simp [exponentialBackoff]

end Inks

------------------------------------------------------------
-- Retries
------------------------------------------------------------

namespace Inks

variable {S : Type*}

/-
  The loop over a range. What the outside does is the state
  `S`: a call of `func` and a sleep each lead to another.
-/
def retryLoop
    (func : S → Bool × S)
    (sleepFor : UInt32 → S → S)
    (it : ExponentialBackoffIterator)
    (s : S) : Bool × S :=
  if _hDone :
      it.equal ExponentialBackoffIterator.endIterator =
        true then
    (false, s)
  else
    let s := sleepFor it.currentValue s
    let (done, s) := func s
    if done then
      (true, s)
    else
      retryLoop func sleepFor it.increment s
termination_by
  it.maxRetries.toNat - it.currentRetry.toNat
decreasing_by
  exact ExponentialBackoffIterator.retries_increment_lt
    _hDone

def exponentialRetry
    (base maxRetries : UInt32)
    (func : S → Bool × S)
    (capped : UInt32)
    (jitter : Bool)
    (rng : Rng)
    (sleepFor : UInt32 → S → S)
    (s : S) : Bool × S :=
  let (done, s) := func s
  if done then
    (true, s)
  else
    retryLoop func sleepFor
      (exponentialBackoff base maxRetries capped jitter rng)
      s

end Inks
