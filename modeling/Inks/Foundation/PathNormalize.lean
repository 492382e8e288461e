import Mathlib.Data.List.Basic

/-
  Paths without `.`, `..` and consecutive separators, over
  any type of characters. The character `.` of that type is
  a parameter.

  Key definitions include:
    * `PathNormalize.pushToken`
    * `PathNormalize.scan`
    * `pathNormalize`
-/

namespace Inks

namespace PathNormalize

variable {T : Type*} [DecidableEq T]

/- What one token does to the segments so far. -/
def pushToken
    (dot : T)
    (isAbsolute : Bool)
    (segments : List (List T))
    (token : List T) : List (List T) :=
  if token = [dot] then
    segments
  else if token = [dot, dot] then
    if segments ≠ [] ∧
        segments.getLast? ≠ some [dot, dot] then
      segments.dropLast
    else if !isAbsolute then
      segments ++ [token]
    else
      segments
  else
    segments ++ [token]

/- What follows the next token is shorter than the path. -/
theorem length_afterToken_lt
    {sep : T}
    {path : List T}
    (hSome : path.dropWhile (· == sep) ≠ []) :
    ((path.dropWhile (· == sep)).dropWhile
        (· != sep)).length < path.length := by
  have hSkipped :=
    (List.dropWhile_suffix (l := path) (· == sep)).length_le
  have hHead := List.head?_dropWhile_not (· == sep) path
  cases hPos : path.dropWhile (· == sep) with
  | nil => exact absurd hPos hSome
  | cons c rest =>
      rw [hPos] at hSkipped hHead
      have hToken : c ≠ sep := by
        simpa using hHead
      have hDrop :
          (c :: rest).dropWhile (· != sep) =
            rest.dropWhile (· != sep) := by
        simp [hToken]
      have hRest :=
        (List.dropWhile_suffix (l := rest)
          (· != sep)).length_le
      rw [hDrop]
      rw [List.length_cons] at hSkipped
      omega

/-
  The scan of the path: skip separators, then take a token
  up to the next separator.
-/
def scan
    (dot sep : T)
    (isAbsolute : Bool)
    (path : List T)
    (segments : List (List T)) : List (List T) :=
  let pos := path.dropWhile (· == sep)
  if pos = [] then
    segments
  else
    let token := pos.takeWhile (· != sep)
    scan dot sep isAbsolute (pos.dropWhile (· != sep))
      (pushToken dot isAbsolute segments token)
termination_by path.length
decreasing_by
  rename_i hSome
  exact length_afterToken_lt hSome

end PathNormalize

/- The normalized path. -/
def pathNormalize
    {T : Type*} [DecidableEq T]
    (dot : T)
    (path : List T)
    (sep : T) : List T :=
  if path = [] then
    path
  else
    let isAbsolute := decide (path.head? = some sep)
    let segments :=
      PathNormalize.scan dot sep isAbsolute path []
    (if isAbsolute then [sep] else []) ++
      [sep].intercalate segments

end Inks
