import Mathlib.Data.List.Basic

/-
  Splitting a list at a separator, working on the parts one
  by one, and joining them again.

  Key definitions include:
    * `Split.mapParts`
    * `Split.tokens`

  Key theorems include:
    * `Split.splitOn_map`
    * `Split.mapParts_of_prefix`
    * `Split.mapParts_of_skip`
    * `Split.getLast?_intercalate_ne`
    * `Split.splitOn_intercalate_tokens`
-/

------------------------------------------------------------
-- Parts
------------------------------------------------------------

namespace Split

variable {α β : Type*} [DecidableEq α] [DecidableEq β]
variable {sep : α}

/- There is always a first part. -/
theorem exists_parts
    (sep : α)
    (xs : List α) :
    ∃ part parts, xs.splitOn sep = part :: parts :=
  List.exists_cons_of_ne_nil (List.splitOn_ne_nil sep xs)

theorem splitOn_sep
    (xs : List α) :
    (sep :: xs).splitOn sep = [] :: xs.splitOn sep := by
  simp [List.splitOn_cons_eq_if_modifyHead]

/- What has no separator is in front of the first part. -/
theorem splitOn_append
    {front : List α}
    (hFront : sep ∉ front)
    (xs : List α) :
    (front ++ xs).splitOn sep =
      (xs.splitOn sep).modifyHead (front ++ ·) := by
  induction front with
  | nil =>
      rcases exists_parts sep xs with ⟨part, parts, hParts⟩
      simp [hParts]
  | cons x front ih =>
      rcases exists_parts sep xs with ⟨part, parts, hParts⟩
      have hNe : ¬ x = sep := by
        rintro rfl
        simp at hFront
      have hRest : sep ∉ front := by
        intro hMem
        exact hFront (List.mem_cons_of_mem x hMem)
      rw [List.cons_append,
        List.splitOn_cons_eq_if_modifyHead, ih hRest]
      simp [hNe, hParts]

/- The first part ends at the first separator. -/
theorem splitOn_eq_takeWhile
    (sep : α)
    (xs : List α) :
    xs.splitOn sep =
      xs.takeWhile (· != sep) ::
        match xs.dropWhile (· != sep) with
        | [] => []
        | _ :: rest => rest.splitOn sep := by
  induction xs with
  | nil => simp
  | cons x xs ih =>
      by_cases hEq : x = sep
      · subst hEq
        simp [splitOn_sep]
      · rw [List.splitOn_cons_eq_if_modifyHead, ih]
        simp [hEq]

/- Splitting commutes with a map that keeps separators. -/
theorem splitOn_map
    {g : α → β}
    (hSep : ∀ x, g x = g sep → x = sep)
    (xs : List α) :
    (xs.map g).splitOn (g sep) =
      (xs.splitOn sep).map (List.map g) := by
  induction xs with
  | nil => simp
  | cons x xs ih =>
      rcases exists_parts sep xs with ⟨part, parts, hParts⟩
      by_cases hEq : x = sep
      · subst hEq
        simp [splitOn_sep, ih]
      · have hNe : ¬ g x = g sep := fun h => hEq (hSep x h)
        rw [List.map_cons,
          List.splitOn_cons_eq_if_modifyHead,
          List.splitOn_cons_eq_if_modifyHead, ih]
        simp [hEq, hNe, hParts]

end Split

------------------------------------------------------------
-- Working on the Parts
------------------------------------------------------------

namespace Split

variable {α : Type*} [DecidableEq α]
variable {sep : α} {f : List α → List α}

/- Split, change each part, and join again. -/
def mapParts
    (f : List α → List α)
    (sep : α)
    (xs : List α) : List α :=
  [sep].intercalate ((xs.splitOn sep).map f)

@[simp] theorem mapParts_nil :
    mapParts f sep [] = f [] := by
  simp [mapParts]

/- A separator ends the part in front of it. -/
theorem mapParts_append_sep
    {front : List α}
    (hFront : sep ∉ front)
    (xs : List α) :
    mapParts f sep (front ++ sep :: xs) =
      f front ++ sep :: mapParts f sep xs := by
  rcases exists_parts sep xs with ⟨part, parts, hParts⟩
  rw [mapParts, splitOn_append hFront, splitOn_sep,
    mapParts, hParts]
  simp

theorem mapParts_sep
    (xs : List α) :
    mapParts f sep (sep :: xs) =
      f [] ++ sep :: mapParts f sep xs :=
  mapParts_append_sep (List.not_mem_nil) xs

/-
  A front that `f` takes by itself, whatever follows it in
  its part.
-/
theorem mapParts_of_prefix
    {front out : List α}
    (hFront : sep ∉ front)
    (hOut : ∀ part, f (front ++ part) = out ++ f part)
    (xs : List α) :
    mapParts f sep (front ++ xs) =
      out ++ mapParts f sep xs := by
  rcases exists_parts sep xs with ⟨part, parts, hParts⟩
  rw [mapParts, splitOn_append hFront, mapParts, hParts]
  cases parts <;> simp [hOut]

/- A front after which `f` skips the rest of the part. -/
theorem mapParts_of_skip
    {front xs : List α}
    (hFront : sep ∉ front)
    (hNil : f [] = [])
    (hSkip : f (front ++ xs.takeWhile (· != sep)) = []) :
    mapParts f sep (front ++ xs) =
      mapParts f sep (xs.dropWhile (· != sep)) := by
  rw [mapParts, splitOn_append hFront,
    splitOn_eq_takeWhile, mapParts]
  cases hRest : xs.dropWhile (· != sep) with
  | nil => simp [hSkip, hNil]
  | cons x rest =>
      have hSep : x = sep := by
        have hHead := List.head?_dropWhile_not (· != sep) xs
        rw [hRest] at hHead
        simpa using hHead
      subst hSep
      rcases exists_parts x rest with ⟨part, parts, hParts⟩
      simp [splitOn_sep, hParts, hSkip, hNil]

end Split

------------------------------------------------------------
-- Joining
------------------------------------------------------------

namespace Split

variable {α : Type*} {sep : α}

/- The last part follows a separator. -/
theorem intercalate_concat
    {parts : List (List α)}
    (hParts : parts ≠ [])
    (last : List α) :
    [sep].intercalate (parts ++ [last]) =
      [sep].intercalate parts ++ sep :: last := by
  induction parts with
  | nil => exact absurd rfl hParts
  | cons part parts ih =>
      cases parts with
      | nil => simp
      | cons next later =>
          have hJoined := ih (List.cons_ne_nil next later)
          rw [List.cons_append] at hJoined
          rw [List.cons_append, List.cons_append,
            List.intercalate_cons_cons, hJoined,
            List.intercalate_cons_cons]
          simp

theorem getLast?_intercalate
    (parts : List (List α))
    {last : List α}
    (hLast : last ≠ []) :
    ([sep].intercalate (parts ++ [last])).getLast? =
      last.getLast? := by
  by_cases hParts : parts = []
  · simp [hParts]
  · rw [intercalate_concat hParts]
    cases last with
    | nil => exact absurd rfl hLast
    | cons x last => simp [List.getLast?_cons]

/- Joined parts do not end with a separator. -/
theorem getLast?_intercalate_ne
    {parts : List (List α)}
    (hNonempty : parts ≠ [])
    (hParts : ∀ part ∈ parts, part ≠ [] ∧ sep ∉ part) :
    (sep :: [sep].intercalate parts).getLast? ≠
      some sep := by
  rcases List.eq_nil_or_concat' parts with
    hNil | ⟨init, last, rfl⟩
  · exact absurd hNil hNonempty
  · have hLast := hParts last (by simp)
    rcases List.exists_cons_of_ne_nil hLast.1 with
      ⟨x, rest, hCons⟩
    rw [List.getLast?_cons, getLast?_intercalate init hLast.1]
    intro hEnd
    apply hLast.2
    apply List.mem_of_getLast?
    rw [hCons] at hEnd ⊢
    rw [List.getLast?_cons] at hEnd ⊢
    exact hEnd

end Split

------------------------------------------------------------
-- Tokens
------------------------------------------------------------

namespace Split

variable {α : Type*} [DecidableEq α]
variable {sep : α}

/- The parts that are not empty. -/
def tokens
    (sep : α)
    (xs : List α) : List (List α) :=
  (xs.splitOn sep).filter (fun part => !part.isEmpty)

@[simp] theorem tokens_nil :
    tokens sep [] = [] := by
  simp [tokens]

/- A separator in front makes no token. -/
@[simp] theorem tokens_sep
    (xs : List α) :
    tokens sep (sep :: xs) = tokens sep xs := by
  simp [tokens, splitOn_sep]

theorem tokens_skip
    (xs : List α) :
    tokens sep (xs.dropWhile (· == sep)) =
      tokens sep xs := by
  induction xs with
  | nil => rfl
  | cons x xs ih =>
      by_cases hEq : x = sep
      · subst hEq
        simpa using ih
      · simp [hEq]

/- Elsewhere a token goes up to the next separator. -/
theorem tokens_cons
    {x : α}
    (hNe : x ≠ sep)
    (xs : List α) :
    tokens sep (x :: xs) =
      (x :: xs).takeWhile (· != sep) ::
        tokens sep ((x :: xs).dropWhile (· != sep)) := by
  rw [tokens, splitOn_eq_takeWhile,
    List.filter_cons_of_pos (by simp [hNe])]
  cases hRest : (x :: xs).dropWhile (· != sep) with
  | nil => simp
  | cons y rest =>
      have hSep : y = sep := by
        have hHead :=
          List.head?_dropWhile_not (· != sep) (x :: xs)
        rw [hRest] at hHead
        simpa using hHead
      subst hSep
      rw [tokens_sep]
      rfl

/- A token is not empty and has no separator in it. -/
theorem mem_tokens
    {xs part : List α}
    (hMem : part ∈ tokens sep xs) :
    part ≠ [] ∧ sep ∉ part := by
  rw [tokens, List.mem_filter] at hMem
  refine ⟨by simpa using hMem.2, ?_⟩
  have hSplit : part ∈ xs.splitOn sep := hMem.1
  clear hMem
  induction xs generalizing part with
  | nil => simp_all
  | cons x xs ih =>
      rcases exists_parts sep xs with ⟨first, parts, hParts⟩
      rw [List.splitOn_cons_eq_if_modifyHead] at hSplit
      by_cases hEq : x = sep
      · simp only [hEq, beq_self_eq_true, if_true,
          List.mem_cons] at hSplit
        rcases hSplit with rfl | hSplit
        · simp
        · exact ih hSplit
      · simp only [hEq, beq_iff_eq, if_false, hParts,
          List.modifyHead_cons, List.mem_cons] at hSplit
        rw [hParts] at ih
        rcases hSplit with rfl | hSplit
        · have hFirst := ih List.mem_cons_self
          simp [Ne.symm hEq, hFirst]
        · exact ih (List.mem_cons_of_mem first hSplit)

/- Splitting undoes joining tokens. -/
theorem splitOn_intercalate_tokens
    {parts : List (List α)}
    (hParts : ∀ part ∈ parts, part ≠ [] ∧ sep ∉ part) :
    tokens sep ([sep].intercalate parts) = parts := by
  cases parts with
  | nil => simp
  | cons part parts =>
      rw [tokens, List.splitOn_intercalate sep
        (fun part hMem => (hParts part hMem).2) (by simp)]
      rw [List.filter_eq_self]
      intro other hMem
      simpa using (hParts other hMem).1

end Split
