import Inks.Library.Table
import Mathlib.Logic.Function.Basic

/-
  Pools of slots in several lanes.

  A pool counts the slots taken in each lane and keeps a
  table of the owners, one entry per key; an entry says by
  `lane` which lane its slot is in. Acquiring takes a slot
  even when the key has an entry already, and the old entry
  then stays; releasing gives back the slot of the entry.

  Key definitions include:
    * `Pool`
    * `Pool.acquire`, `Pool.release`
    * `Pool.Sound`, `Pool.Exact`

  Key theorems include:
    * `Pool.Sound.acquire`, `Pool.Sound.release`
    * `Pool.exact_acquire_iff`
    * `Pool.Exact.release`
-/

------------------------------------------------------------
-- Pools
------------------------------------------------------------

structure Pool
    (κ ν L : Type*) where
  capacity : L → Nat
  taken : L → Nat
  owners : Table κ ν

namespace Pool

variable {κ ν L : Type*}
variable [DecidableEq κ] [DecidableEq L]

/- Take a slot for `v` and enter it under a free key. -/
def acquire
    (lane : ν → L)
    (pool : Pool κ ν L)
    (k : κ)
    (v : ν) : Pool κ ν L :=
  { pool with
    taken :=
      Function.update pool.taken (lane v)
        (pool.taken (lane v) + 1)
    owners := pool.owners.emplace k v }

/- Give back the slot of the entry under a key. -/
def release
    (lane : ν → L)
    (pool : Pool κ ν L)
    (k : κ) : Pool κ ν L :=
  match pool.owners.lookup k with
  | none => pool
  | some v =>
      { pool with
        taken :=
          Function.update pool.taken (lane v)
            (pool.taken (lane v) - 1)
        owners := pool.owners.erase k }

/- The number of entries whose slot is in a lane. -/
def owned
    (lane : ν → L)
    (pool : Pool κ ν L)
    (l : L) : Nat :=
  Table.count pool.owners fun v => decide (lane v = l)

/-
  No lane is over its capacity, and every entry has a slot.
-/
structure Sound
    (lane : ν → L)
    (pool : Pool κ ν L) : Prop where
  within : ∀ l, pool.taken l ≤ pool.capacity l
  covers : ∀ l, pool.owned lane l ≤ pool.taken l

/- Every slot that is taken has its entry. -/
def Exact
    (lane : ν → L)
    (pool : Pool κ ν L) : Prop :=
  ∀ l, pool.taken l = pool.owned lane l

end Pool

------------------------------------------------------------
-- Owned Slots
------------------------------------------------------------

namespace Pool

variable {κ ν L : Type*}
variable [DecidableEq κ] [DecidableEq L]
variable {lane : ν → L} {pool : Pool κ ν L}
variable {k : κ} {v : ν}

theorem release_of_notMem
    (hLookup : pool.owners.lookup k = none) :
    pool.release lane k = pool := by
  simp [release, hLookup]

theorem release_of_lookup
    (hLookup : pool.owners.lookup k = some v) :
    pool.release lane k =
      { pool with
        taken :=
          Function.update pool.taken (lane v)
            (pool.taken (lane v) - 1)
        owners := pool.owners.erase k } := by
  simp [release, hLookup]

theorem owned_acquire_le
    (l : L) :
    (pool.acquire lane k v).owned lane l ≤
      pool.owned lane l + if lane v = l then 1 else 0 := by
  have hCount :=
    Table.count_emplace_le (t := pool.owners) (k := k)
      (v := v) fun w => decide (lane w = l)
  simpa [owned, acquire] using hCount

theorem owned_acquire_of_notMem
    (hNotMem : k ∉ pool.owners)
    (l : L) :
    (pool.acquire lane k v).owned lane l =
      pool.owned lane l + if lane v = l then 1 else 0 := by
  have hCount :=
    Table.count_emplace_of_notMem (v := v)
      (fun w => decide (lane w = l)) hNotMem
  simpa [owned, acquire] using hCount

variable (lane) in
theorem owned_erase
    (hLookup : pool.owners.lookup k = some v)
    (l : L) :
    pool.owned lane l =
      Table.count (pool.owners.erase k)
          (fun w => decide (lane w = l)) +
        if lane v = l then 1 else 0 := by
  have hCount :=
    Table.count_erase (fun w => decide (lane w = l))
      hLookup
  simpa [owned] using hCount

variable (lane) in
/- An entry owns a slot of its lane. -/
theorem owned_pos_of_lookup
    (hLookup : pool.owners.lookup k = some v) :
    0 < pool.owned lane (lane v) := by
  apply Table.count_pos_of_lookup hLookup
  simp

end Pool

------------------------------------------------------------
-- Soundness
------------------------------------------------------------

namespace Pool

variable {κ ν L : Type*}
variable [DecidableEq κ] [DecidableEq L]
variable {lane : ν → L} {pool : Pool κ ν L}
variable {k : κ} {v : ν}

/- A slot that is given back was taken. -/
theorem Sound.taken_pos
    (hSound : pool.Sound lane)
    (hLookup : pool.owners.lookup k = some v) :
    0 < pool.taken (lane v) := by
  have hOwned := owned_pos_of_lookup lane hLookup
  have hCovers := hSound.covers (lane v)
  omega

theorem Sound.acquire
    (hSound : pool.Sound lane)
    (hRoom :
      pool.taken (lane v) < pool.capacity (lane v)) :
    (pool.acquire lane k v).Sound lane := by
  constructor
  · intro l
    have hWithin := hSound.within l
    by_cases hLane : l = lane v
    · subst hLane
      simp only [Pool.acquire, Function.update_self]
      omega
    · simpa [Pool.acquire, hLane] using hWithin
  · intro l
    have hOwned :
        (pool.acquire lane k v).owned lane l ≤
          pool.owned lane l + if lane v = l then 1 else 0 :=
      owned_acquire_le l
    have hCovers := hSound.covers l
    by_cases hLane : l = lane v
    · subst hLane
      simp only [if_true] at hOwned
      have hTaken :
          (pool.acquire lane k v).taken (lane v) =
            pool.taken (lane v) + 1 := by
        simp [Pool.acquire]
      omega
    · have hNe : lane v ≠ l := Ne.symm hLane
      have hTaken :
          (pool.acquire lane k v).taken l =
            pool.taken l := by
        simp [Pool.acquire, hLane]
      simp only [hNe, if_false] at hOwned
      omega

theorem Sound.release
    (hSound : pool.Sound lane)
    (k : κ) :
    (pool.release lane k).Sound lane := by
  cases hLookup : pool.owners.lookup k with
  | none =>
      rw [release_of_notMem hLookup]
      exact hSound
  | some v =>
      rw [release_of_lookup hLookup]
      constructor
      · intro l
        have hWithin := hSound.within l
        by_cases hLane : l = lane v
        · subst hLane
          simp only [Function.update_self]
          omega
        · simpa [hLane] using hWithin
      · intro l
        have hOwned :=
          owned_erase lane hLookup l
        have hCovers := hSound.covers l
        by_cases hLane : l = lane v
        · subst hLane
          simp only [if_true] at hOwned
          simp only [Pool.owned, Function.update_self]
          omega
        · have hNe : lane v ≠ l := Ne.symm hLane
          simp only [hNe, if_false] at hOwned
          simp only [Pool.owned, ne_eq, hLane,
            not_false_eq_true, Function.update_of_ne]
          omega

end Pool

------------------------------------------------------------
-- Exactness
------------------------------------------------------------

namespace Pool

variable {κ ν L : Type*}
variable [DecidableEq κ] [DecidableEq L]
variable {lane : ν → L} {pool : Pool κ ν L}
variable {k : κ} {v : ν}

/-
  Acquiring keeps the counts exact exactly when the key was
  free: under a key in use the slot is taken with no entry.
-/
theorem exact_acquire_iff
    (hExact : pool.Exact lane) :
    (pool.acquire lane k v).Exact lane ↔
      k ∉ pool.owners := by
  constructor
  · intro hAfter hMem
    have hSame :
        (pool.acquire lane k v).owned lane (lane v) =
          pool.owned lane (lane v) := by
      simp [owned, acquire, Table.emplace_of_mem hMem]
    have hTaken :
        (pool.acquire lane k v).taken (lane v) =
          pool.taken (lane v) + 1 := by
      simp [acquire]
    have hLeft := hAfter (lane v)
    have hRight := hExact (lane v)
    omega
  · intro hNotMem l
    rw [owned_acquire_of_notMem hNotMem l, ← hExact l]
    by_cases hLane : l = lane v
    · subst hLane
      simp [acquire]
    · simp [acquire, hLane, Ne.symm hLane]

theorem Exact.release
    (hExact : pool.Exact lane)
    (k : κ) :
    (pool.release lane k).Exact lane := by
  cases hLookup : pool.owners.lookup k with
  | none =>
      rw [release_of_notMem hLookup]
      exact hExact
  | some v =>
      rw [release_of_lookup hLookup]
      intro l
      have hOwned := owned_erase lane hLookup l
      have hBefore := hExact l
      by_cases hLane : l = lane v
      · subst hLane
        simp only [if_true] at hOwned
        simp only [Pool.owned, Function.update_self]
        omega
      · have hNe : lane v ≠ l := Ne.symm hLane
        simp only [hNe, if_false] at hOwned
        simp only [Pool.owned, ne_eq, hLane,
          not_false_eq_true, Function.update_of_ne]
        omega

end Pool
