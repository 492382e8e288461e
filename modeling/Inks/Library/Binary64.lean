import Mathlib.Algebra.Order.Field.Power
import Mathlib.Data.Int.Log
import Mathlib.Data.Rat.Floor
import Mathlib.Tactic.Linarith
import Mathlib.Tactic.FieldSimp
import Mathlib.Tactic.Positivity

/-
  Rounding a rational number to one with a significand of 53
  bits, to nearest with ties to even. Exponents are not
  bounded: this is the rounding of a double wherever the
  result is a normal number.

  Key definitions include:
    * `Binary64.roundEven`
    * `Binary64.round`

  Key theorems include:
    * `Binary64.round_eq_self`
    * `Binary64.round_eq_roundEven`
-/

------------------------------------------------------------
-- Rounding
------------------------------------------------------------

namespace Binary64

/- The nearest integer, the even one of two. -/
def roundEven
    (x : Rat) : Int :=
  if x - ⌊x⌋ < 1 / 2 then
    ⌊x⌋
  else if 1 / 2 < x - ⌊x⌋ then
    ⌊x⌋ + 1
  else if ⌊x⌋ % 2 = 0 then
    ⌊x⌋
  else
    ⌊x⌋ + 1

/- The distance between neighbours of the size of `x`. -/
def quantum
    (x : Rat) : Rat :=
  2 ^ (Int.log 2 |x| - 52)

def round
    (x : Rat) : Rat :=
  roundEven (x / quantum x) * quantum x

theorem quantum_pos
    (x : Rat) :
    0 < quantum x := by
  unfold quantum
  positivity

@[simp] theorem roundEven_intCast
    (n : Int) :
    roundEven n = n := by
  simp [roundEven]

end Binary64

------------------------------------------------------------
-- Exact Numbers
------------------------------------------------------------

namespace Binary64

/- Multiples of the distance are not rounded. -/
theorem round_of_multiple
    {x : Rat}
    {n : Int}
    (hMultiple : x / quantum x = n) :
    round x = x := by
  have hPos := quantum_pos x
  rw [round, hMultiple, roundEven_intCast, ← hMultiple]
  field_simp

/-
  A number with `j` bits after the point is exact when the
  bits before the point leave room for them.
-/
theorem round_eq_self
    {x : Rat}
    {n : Int}
    (j : Nat)
    (hPoint : x * 2 ^ j = n)
    (hRoom : |x| * 2 ^ j < 2 ^ 53) :
    round x = x := by
  rcases eq_or_ne x 0 with hZero | hZero
  · apply round_of_multiple (n := 0)
    simp [hZero]
  · have hAbs : 0 < |x| := abs_pos.mpr hZero
    have hSize : |x| < 2 ^ (53 - (j : Int)) := by
      rw [zpow_sub₀ (by norm_num), lt_div_iff₀ (by positivity)]
      exact_mod_cast hRoom
    have hLog : Int.log 2 |x| < 53 - (j : Int) :=
      (Int.lt_zpow_iff_log_lt (by norm_num) hAbs).mp
        (by exact_mod_cast hSize)
    have hShift :
        52 - Int.log 2 |x| =
          (j : Int) + (52 - Int.log 2 |x| - j).toNat := by
      omega
    apply round_of_multiple
      (n := n * 2 ^ (52 - Int.log 2 |x| - j).toNat)
    calc
      x / quantum x
          = x * 2 ^ (52 - Int.log 2 |x|) := by
            rw [quantum, div_eq_mul_inv, ← zpow_neg,
              neg_sub]
      _ = x * 2 ^ j *
            2 ^ (52 - Int.log 2 |x| - j).toNat := by
            rw [hShift, zpow_add₀ (by norm_num),
              zpow_natCast, ← mul_assoc]
            simp
      _ = ((n * 2 ^ (52 - Int.log 2 |x| - j).toNat :
            Int) : Rat) := by
            rw [hPoint]
            push_cast
            rfl

end Binary64

------------------------------------------------------------
-- Whole Numbers
------------------------------------------------------------

namespace Binary64

/- Where neighbours are whole numbers one apart. -/
theorem round_eq_roundEven
    {x : Rat}
    (hLow : 2 ^ 52 ≤ |x|)
    (hHigh : |x| < 2 ^ 53) :
    round x = roundEven x := by
  have hAbs : 0 < |x| := by
    linarith
  have hAbove : 52 ≤ Int.log 2 |x| :=
    (Int.zpow_le_iff_le_log (by norm_num) hAbs).mp
      (by exact_mod_cast hLow)
  have hBelow : Int.log 2 |x| < 53 :=
    (Int.lt_zpow_iff_log_lt (by norm_num) hAbs).mp
      (by exact_mod_cast hHigh)
  have hLog : Int.log 2 |x| = 52 := by
    omega
  have hQuantum : quantum x = 1 := by
    rw [quantum, hLog]
    norm_num
  rw [round, hQuantum, div_one, mul_one]

/- Half-way cases go to the even neighbour. -/
theorem roundEven_half
    (n : Int) :
    roundEven (n + 1 / 2) =
      if n % 2 = 0 then n else n + 1 := by
  have hFloor : ⌊(n : Rat) + 1 / 2⌋ = n := by
    rw [Int.floor_eq_iff]
    constructor <;> linarith
  rw [roundEven, hFloor]
  simp

end Binary64
