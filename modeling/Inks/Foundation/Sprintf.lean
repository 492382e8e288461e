import Inks.Foundation.Bytes
import Mathlib.Data.List.Basic

/-
  Formatting into a string that grows until the text fits.

  Key definitions include:
    * `Vsnprintf`
    * `Sprintf.overwrite`
    * `stringVsprintf`
    * `Sprintf.Formats`

  Key theorems include:
    * `Sprintf.loop_of_fits`
    * `Sprintf.loop_of_text`
    * `Sprintf.stringVsprintf_formats`
-/

------------------------------------------------------------
-- Formatting
------------------------------------------------------------

namespace Inks

/-
  What `vsnprintf` does with some format and arguments: it
  fails on every call, and may leave any bytes in the region
  it is given, or it has a text, shorter than the largest
  `int`.
-/
inductive Vsnprintf where
| fails
    (code : Int)
    (negative : code < 0)
    (spill : (n : Nat) → { bytes : ByteString //
      bytes.length = n })
| prints
    (t : ByteString)
    (bound : t.length < 2147483647)

namespace Sprintf

def initialSize : Nat := 128

/- A conversion of `size_t` to `int`. -/
def toInt
    (n : Nat) : Int :=
  (n : Int).bmod 4294967296

/- A longer string is filled up with NUL. -/
def resize
    (str : ByteString)
    (n : Nat) : ByteString :=
  str.take n ++ List.replicate (n - str.length) 0

/- The bytes that a call leaves in a region of the string. -/
def overwrite
    (str : ByteString)
    (pos : Nat)
    (bytes : ByteString) : ByteString :=
  str.take pos ++ bytes ++ str.drop (pos + bytes.length)

/-
  The result of a call and what it writes into its region:
  as much of the text as fits before a NUL.
-/
def vsnprintf
    (format : Vsnprintf)
    (size : Nat) : Int × ByteString :=
  match format with
  | .fails code _ spill => (code, (spill size).val)
  | .prints t _ =>
      (t.length,
        if size = 0 then [] else t.take (size - 1) ++ [0])

/- The region that a call is given, and its string's size. -/
structure Region where
  pos : Nat
  size : Nat
  length : Nat
deriving DecidableEq, Repr

structure Outcome where
  result : Int
  str : ByteString
  calls : List Region
deriving DecidableEq, Repr

/- The size that a turn of the loop makes available. -/
def regionSize
    (pos : Nat)
    (str : ByteString) : Nat :=
  if str.length - pos < initialSize then
    initialSize
  else
    str.length - pos

/- The string with at least the initial size after `pos`. -/
def grown
    (pos : Nat)
    (str : ByteString) : ByteString :=
  if str.length - pos < initialSize then
    resize str (pos + initialSize)
  else
    str

/-
  The loop of `string_vsprintf`, with the regions of the
  calls it has made. Without fuel it has no outcome.
-/
def loop
    (format : Vsnprintf)
    (pos : Nat) :
    Nat → ByteString → List Region → Option Outcome
| 0, _, _ => none
| fuel + 1, str, calls =>
    let size := regionSize pos str
    let str := grown pos str
    let calls :=
      calls ++
        [{ pos := pos, size := size, length := str.length }]
    let (len, bytes) := vsnprintf format size
    let str := overwrite str pos bytes
    if len < 0 then
      some
        { result := len
          str := if pos ≠ 0 then resize str pos else []
          calls := calls }
    else if len < toInt size then
      let str := resize str (pos + len.toNat)
      some
        { result := toInt str.length
          str := str
          calls := calls }
    else
      loop format pos fuel (resize str (pos + len.toNat + 1))
        calls

end Sprintf

def stringVsprintf
    (fuel : Nat)
    (str : ByteString)
    (format : Vsnprintf)
    (append : Bool) : Option Sprintf.Outcome :=
  Sprintf.loop format (if append then str.length else 0)
    fuel str []

/- The overload that returns the text. -/
def stringSprintf
    (fuel : Nat)
    (format : Vsnprintf) : Option ByteString :=
  (stringVsprintf fuel [] format false).map
    Sprintf.Outcome.str

/- The overload that assigns to a string. -/
def stringSprintfTo
    (fuel : Nat)
    (str : ByteString)
    (format : Vsnprintf) : Option Sprintf.Outcome :=
  stringVsprintf fuel str format false

def stringSprintfAppend
    (fuel : Nat)
    (str : ByteString)
    (format : Vsnprintf) : Option Sprintf.Outcome :=
  stringVsprintf fuel str format true

end Inks

------------------------------------------------------------
-- Strings
------------------------------------------------------------

namespace Inks

namespace Sprintf

@[simp] theorem length_resize
    (str : ByteString)
    (n : Nat) :
    (resize str n).length = n := by
  simp [resize]
  omega

/- What is kept by making a string longer or shorter. -/
theorem take_resize
    {str : ByteString}
    {n m : Nat}
    (hWithin : m ≤ str.length)
    (hKept : m ≤ n) :
    (resize str n).take m = str.take m := by
  unfold resize
  rw [List.take_append_of_le_length, List.take_take,
    Nat.min_eq_left hKept]
  rw [List.length_take]
  omega

theorem resize_of_le
    {str : ByteString}
    {n : Nat}
    (hShorter : n ≤ str.length) :
    resize str n = str.take n := by
  unfold resize
  rw [Nat.sub_eq_zero_of_le hShorter]
  simp

theorem length_overwrite
    {str : ByteString}
    {pos : Nat}
    {bytes : ByteString}
    (hInside : pos + bytes.length ≤ str.length) :
    (overwrite str pos bytes).length = str.length := by
  simp [overwrite]
  omega

/- A call leaves what is before its region alone. -/
theorem take_overwrite
    {str : ByteString}
    {pos : Nat}
    (hInside : pos ≤ str.length)
    (bytes : ByteString) :
    (overwrite str pos bytes).take pos = str.take pos := by
  have hLength : (str.take pos).length = pos := by
    rw [List.length_take]
    omega
  unfold overwrite
  rw [List.append_assoc, List.take_append_of_le_length,
    List.take_take, Nat.min_self]
  exact (Nat.le_of_eq hLength.symm)

/- A text that was written stands after the old content. -/
theorem take_overwrite_text
    {str : ByteString}
    {pos : Nat}
    (hInside : pos ≤ str.length)
    (t rest : ByteString) :
    (overwrite str pos (t ++ rest)).take
        (pos + t.length) =
      str.take pos ++ t := by
  have hLength :
      (str.take pos ++ t).length = pos + t.length := by
    rw [List.length_append, List.length_take]
    omega
  unfold overwrite
  rw [← List.append_assoc, List.append_assoc,
    List.take_append_of_le_length
      (Nat.le_of_eq hLength.symm),
    ← hLength, List.take_length]

theorem toInt_le
    (n : Nat) :
    toInt n ≤ n := by
  unfold toInt
  rw [Int.bmod_def]
  split <;> omega

theorem toInt_of_lt
    {n : Nat}
    (hSmall : n < 2147483648) :
    toInt n = n := by
  unfold toInt
  rw [Int.bmod_def]
  split <;> omega

end Sprintf

end Inks

------------------------------------------------------------
-- The Loop
------------------------------------------------------------

namespace Inks

namespace Sprintf

theorem regionSize_pos
    (pos : Nat)
    (str : ByteString) :
    128 ≤ regionSize pos str := by
  unfold regionSize initialSize
  split <;> omega

/- The region of a call goes to the end of the string. -/
theorem length_grown
    {pos : Nat}
    {str : ByteString}
    (hPos : pos ≤ str.length) :
    (grown pos str).length = pos + regionSize pos str := by
  unfold grown regionSize
  split
  · rw [length_resize]
  · omega

theorem take_grown
    {pos : Nat}
    {str : ByteString}
    (hPos : pos ≤ str.length) :
    (grown pos str).take pos = str.take pos := by
  unfold grown
  split
  · exact take_resize hPos (Nat.le_add_right _ _)
  · rfl

/- A turn in which the call fails. -/
theorem loop_of_fails
    (code : Int)
    (negative : code < 0)
    (spill : (n : Nat) → { bytes : ByteString //
      bytes.length = n })
    {pos : Nat}
    (fuel : Nat)
    {str : ByteString}
    (hPos : pos ≤ str.length)
    (calls : List Region) :
    loop (.fails code negative spill) pos (fuel + 1) str
        calls =
      some
        { result := code
          str := str.take pos
          calls :=
            calls ++
              [{ pos := pos
                 size := regionSize pos str
                 length := pos + regionSize pos str }] } := by
  have hLength := length_grown hPos
  have hInside : pos ≤ (grown pos str).length := by
    omega
  have hBytes :=
    (spill (regionSize pos str)).property
  have hRestored :
      (if pos ≠ 0 then
          resize
            (overwrite (grown pos str) pos
              (spill (regionSize pos str)).val) pos
        else
          []) = str.take pos := by
    split
    · rw [resize_of_le, take_overwrite hInside,
        take_grown hPos]
      rw [length_overwrite]
      · exact hInside
      · omega
    · next hZero =>
        rw [not_not.mp hZero, List.take_zero]
  simp only [loop, vsnprintf, if_pos negative, hLength,
    hRestored]

/- A turn in which the text fits. -/
theorem loop_of_fits
    {t : ByteString}
    (bound : t.length < 2147483647)
    {pos : Nat}
    (fuel : Nat)
    {str : ByteString}
    (hPos : pos ≤ str.length)
    (hFits : (t.length : Int) < toInt (regionSize pos str))
    (calls : List Region) :
    loop (.prints t bound) pos (fuel + 1) str calls =
      some
        { result := toInt (pos + t.length)
          str := str.take pos ++ t
          calls :=
            calls ++
              [{ pos := pos
                 size := regionSize pos str
                 length := pos + regionSize pos str }] } := by
  have hLength := length_grown hPos
  have hInside : pos ≤ (grown pos str).length := by
    omega
  have hSize := toInt_le (regionSize pos str)
  have hRoom : t.length ≤ regionSize pos str - 1 := by
    omega
  have hNonneg : ¬ (t.length : Int) < 0 := by
    omega
  have hNonzero : ¬ regionSize pos str = 0 := by
    have hPositive := regionSize_pos pos str
    omega
  have hBytes :
      t.take (regionSize pos str - 1) = t :=
    List.take_of_length_le hRoom
  have hEnd :
      pos + (t ++ [0]).length ≤ (grown pos str).length := by
    rw [List.length_append, List.length_singleton, hLength]
    omega
  have hWritten :
      resize (overwrite (grown pos str) pos (t ++ [0]))
          (pos + t.length) =
        str.take pos ++ t := by
    rw [resize_of_le, take_overwrite_text hInside,
      take_grown hPos]
    rw [length_overwrite hEnd, hLength]
    omega
  have hTotal :
      (str.take pos ++ t).length = pos + t.length := by
    rw [List.length_append, List.length_take,
      Nat.min_eq_left hPos]
  simp only [loop, vsnprintf, if_neg hNonneg,
    if_neg hNonzero, if_pos hFits, hLength, hBytes,
    Int.toNat_natCast, hWritten, hTotal]

/-
  A turn in which it does not: the next one starts from a
  string with room for the text and the NUL.
-/
theorem loop_of_short
    {t : ByteString}
    (bound : t.length < 2147483647)
    {pos : Nat}
    (fuel : Nat)
    {str : ByteString}
    (hPos : pos ≤ str.length)
    (hShort :
      ¬ (t.length : Int) < toInt (regionSize pos str))
    (calls : List Region) :
    ∃ next : ByteString,
      next.length = pos + t.length + 1 ∧
      next.take pos = str.take pos ∧
      loop (.prints t bound) pos (fuel + 1) str calls =
        loop (.prints t bound) pos fuel next
          (calls ++
            [{ pos := pos
               size := regionSize pos str
               length := pos + regionSize pos str }]) := by
  have hLength := length_grown hPos
  have hInside : pos ≤ (grown pos str).length := by
    omega
  have hNonneg : ¬ (t.length : Int) < 0 := by
    omega
  have hPositive := regionSize_pos pos str
  have hNonzero : ¬ regionSize pos str = 0 := by
    omega
  have hEnd :
      pos +
          (t.take (regionSize pos str - 1) ++ [0]).length ≤
        (grown pos str).length := by
    rw [List.length_append, List.length_singleton,
      List.length_take, hLength]
    omega
  refine
    ⟨resize
      (overwrite (grown pos str) pos
        (t.take (regionSize pos str - 1) ++ [0]))
      (pos + t.length + 1),
      length_resize _ _, ?_, ?_⟩
  · rw [take_resize, take_overwrite hInside,
      take_grown hPos]
    · rw [length_overwrite hEnd]
      exact hInside
    · omega
  · simp only [loop, vsnprintf, if_neg hNonneg,
      if_neg hNonzero, if_neg hShort, hLength,
      Int.toNat_natCast]

end Sprintf

end Inks

------------------------------------------------------------
-- The Outcome
------------------------------------------------------------

namespace Inks

namespace Sprintf

/- What a call promises for a string with old content. -/
structure Formats
    (format : Vsnprintf)
    (old : ByteString)
    (append : Bool)
    (outcome : Outcome) : Prop where
  calls : outcome.calls.length ≤ 2
  inside :
    ∀ region ∈ outcome.calls,
      region.pos + region.size ≤ region.length
  text :
    ∀ t bound, format = .prints t bound →
      outcome.str = (if append then old else []) ++ t ∧
      outcome.result = toInt outcome.str.length
  failure :
    ∀ code negative spill,
      format = .fails code negative spill →
        outcome.result = code ∧
        outcome.str = if append then old else []

/- Two turns are enough for every text. -/
theorem loop_of_text
    {t : ByteString}
    (bound : t.length < 2147483647)
    {pos : Nat}
    (fuel : Nat)
    {str : ByteString}
    (hPos : pos ≤ str.length) :
    ∃ outcome,
      loop (.prints t bound) pos (fuel + 2) str [] =
        some outcome ∧
      outcome.str = str.take pos ++ t ∧
      outcome.result = toInt (pos + t.length) ∧
      outcome.calls.length ≤ 2 ∧
      ∀ region ∈ outcome.calls,
        region.pos + region.size ≤ region.length := by
  by_cases hFits :
      (t.length : Int) < toInt (regionSize pos str)
  · have hLoop :=
      loop_of_fits bound (fuel + 1) hPos hFits []
    refine ⟨_, hLoop, ?_, ?_, ?_, ?_⟩
    · rfl
    · simp only
    · simp
    · simp
  · rcases loop_of_short bound (fuel + 1) hPos hFits [] with
      ⟨next, hLength, hTake, hLoop⟩
    have hNextPos : pos ≤ next.length := by
      omega
    have hSize :
        t.length < regionSize pos next ∧
          regionSize pos next < 2147483648 := by
      unfold regionSize initialSize
      split <;> omega
    have hNextFits :
        (t.length : Int) < toInt (regionSize pos next) := by
      rw [toInt_of_lt hSize.2]
      omega
    rw [loop_of_fits bound fuel hNextPos hNextFits]
      at hLoop
    refine ⟨_, hLoop, ?_, ?_, ?_, ?_⟩
    · rw [hTake]
    · simp only
    · simp
    · simp

/- Every text at every length, and every failure. -/
theorem stringVsprintf_formats
    (fuel : Nat)
    (old : ByteString)
    (format : Vsnprintf)
    (append : Bool) :
    ∃ outcome,
      stringVsprintf (fuel + 2) old format append =
        some outcome ∧
      Formats format old append outcome := by
  have hPos :
      (if append then old.length else 0) ≤ old.length := by
    split <;> omega
  have hOld :
      old.take (if append then old.length else 0) =
        if append then old else [] := by
    cases append <;> simp
  cases format with
  | fails code negative spill =>
      refine
        ⟨_, loop_of_fails code negative spill (fuel + 1)
          hPos [], ?_, ?_, ?_, ?_⟩
      · simp
      · simp
      · intro t bound hEq
        cases hEq
      · intro other hNegative otherSpill hEq
        cases hEq
        exact ⟨rfl, hOld⟩
  | prints t bound =>
      rcases loop_of_text bound fuel hPos with
        ⟨outcome, hLoop, hStr, hResult, hCalls, hInside⟩
      refine ⟨outcome, hLoop, hCalls, hInside, ?_, ?_⟩
      · intro other hBound hEq
        cases hEq
        rw [hStr, hOld]
        refine ⟨rfl, ?_⟩
        rw [hResult, ← hOld, List.length_append,
          List.length_take, Nat.min_eq_left hPos]
      · intro code negative spill hEq
        cases hEq

/- The text of a format, empty if there is none. -/
def textOf : Vsnprintf → ByteString
| .prints t _ => t
| .fails _ _ _ => []

/- The string that a call of either kind leaves. -/
theorem str_stringVsprintf
    (fuel : Nat)
    (old : ByteString)
    (format : Vsnprintf)
    (append : Bool) :
    (stringVsprintf (fuel + 2) old format append).map
        Outcome.str =
      some ((if append then old else []) ++
        textOf format) := by
  have hPos :
      (if append then old.length else 0) ≤ old.length := by
    split <;> omega
  have hOld :
      old.take (if append then old.length else 0) =
        if append then old else [] := by
    cases append <;> simp
  unfold stringVsprintf
  cases format with
  | fails code negative spill =>
      rw [loop_of_fails code negative spill (fuel + 1)
        hPos []]
      simp [hOld, textOf]
  | prints t bound =>
      rcases loop_of_text bound fuel hPos with
        ⟨outcome, hLoop, hStr, _⟩
      rw [hLoop]
      simp [hStr, hOld, textOf]

theorem stringSprintf_eq
    (fuel : Nat)
    (format : Vsnprintf) :
    stringSprintf (fuel + 2) format =
      some (textOf format) := by
  unfold stringSprintf
  simpa using str_stringVsprintf fuel [] format false

/- Assigning forgets the old content, appending keeps it. -/
theorem str_stringSprintfTo
    (fuel : Nat)
    (old : ByteString)
    (format : Vsnprintf) :
    (stringSprintfTo (fuel + 2) old format).map
        Outcome.str = some (textOf format) ∧
      (stringSprintfAppend (fuel + 2) old format).map
        Outcome.str = some (old ++ textOf format) := by
  constructor
  · unfold stringSprintfTo
    simpa using str_stringVsprintf fuel old format false
  · unfold stringSprintfAppend
    simpa using str_stringVsprintf fuel old format true

end Sprintf

end Inks
