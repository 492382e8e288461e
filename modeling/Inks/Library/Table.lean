import Mathlib.Data.List.AList
import Mathlib.Data.Multiset.AddSub

/-
  Tables: finite maps with one entry per key, as association
  lists, with the insertion that keeps an entry that is
  already there and the counting of entries.

  Key definitions include:
    * `Table`
    * `Table.emplace`
    * `Table.count`
    * `Table.All`

  Key theorems include:
    * `Table.lookup_emplace_of_notMem`
    * `Table.count_emplace_of_notMem`
    * `Table.count_erase`
    * `Table.All.emplace`
    * `Table.All.erase`
-/

------------------------------------------------------------
-- Tables
------------------------------------------------------------

/- A finite map from keys to values. -/
abbrev Table
    (κ ν : Type*) :=
  AList fun _ : κ => ν

namespace Table

variable {κ ν : Type*} [DecidableEq κ]

/-
  Insert a value under a key that has none. Under a key that
  has a value the table stays as it is.
-/
def emplace
    (t : Table κ ν)
    (k : κ)
    (v : ν) : Table κ ν :=
  if k ∈ t then t else t.insert k v

/- The number of entries whose value satisfies `p`. -/
def count
    (t : Table κ ν)
    (p : ν → Bool) : Nat :=
  t.entries.countP fun entry => p entry.2

/- Every entry satisfies `P`. -/
def All
    (P : κ → ν → Prop)
    (t : Table κ ν) : Prop :=
  ∀ k v, t.lookup k = some v → P k v

end Table

------------------------------------------------------------
-- Lookup
------------------------------------------------------------

namespace Table

variable {κ ν : Type*} [DecidableEq κ]
variable {t : Table κ ν} {k : κ} {v : ν}

theorem mem_of_lookup
    (hLookup : t.lookup k = some v) :
    k ∈ t := by
  rw [← AList.lookup_isSome, hLookup]
  rfl

theorem exists_lookup_of_mem
    (hMem : k ∈ t) :
    ∃ v, t.lookup k = some v :=
  Option.isSome_iff_exists.mp
    (AList.lookup_isSome.mpr hMem)

theorem emplace_of_mem
    (hMem : k ∈ t) :
    t.emplace k v = t := by
  simp [emplace, hMem]

theorem emplace_of_notMem
    (hNotMem : k ∉ t) :
    t.emplace k v = t.insert k v := by
  simp [emplace, hNotMem]

@[simp] theorem lookup_emplace_of_notMem
    (hNotMem : k ∉ t) :
    (t.emplace k v).lookup k = some v := by
  rw [emplace_of_notMem hNotMem, AList.lookup_insert]

@[simp] theorem lookup_emplace_ne
    {other : κ}
    (hNe : other ≠ k) :
    (t.emplace k v).lookup other = t.lookup other := by
  unfold emplace
  split
  · rfl
  · exact AList.lookup_insert_ne hNe

/- An entry of the larger table is old or the new one. -/
theorem lookup_emplace_cases
    {other : κ}
    {w : ν}
    (hLookup : (t.emplace k v).lookup other = some w) :
    t.lookup other = some w ∨
      (k ∉ t ∧ other = k ∧ w = v) := by
  by_cases hMem : k ∈ t
  · rw [emplace_of_mem hMem] at hLookup
    exact Or.inl hLookup
  · by_cases hEq : other = k
    · subst hEq
      rw [lookup_emplace_of_notMem hMem] at hLookup
      exact Or.inr
        ⟨hMem, rfl, (Option.some.inj hLookup).symm⟩
    · rw [lookup_emplace_ne hEq] at hLookup
      exact Or.inl hLookup

/- Inserting never changes an entry that is there. -/
theorem lookup_emplace_of_lookup
    {other : κ}
    {w : ν}
    (hLookup : t.lookup other = some w) :
    (t.emplace k v).lookup other = some w := by
  by_cases hMem : k ∈ t
  · rw [emplace_of_mem hMem]
    exact hLookup
  · have hNe : other ≠ k := by
      rintro rfl
      exact hMem (mem_of_lookup hLookup)
    rw [lookup_emplace_ne hNe]
    exact hLookup

/- Erasing a new entry takes it back. -/
theorem erase_emplace_of_notMem
    (hNotMem : k ∉ t) :
    (t.emplace k v).erase k = t := by
  rw [emplace_of_notMem hNotMem]
  apply AList.ext
  change (t.insert k v).entries.kerase k = t.entries
  rw [AList.entries_insert_of_notMem hNotMem]
  exact List.kerase_cons_eq rfl

/- An entry that survives an erasure has another key. -/
theorem lookup_erase_cases
    {other : κ}
    {w : ν}
    (hLookup : (t.erase k).lookup other = some w) :
    other ≠ k ∧ t.lookup other = some w := by
  by_cases hEq : other = k
  · subst hEq
    rw [AList.lookup_erase] at hLookup
    cases hLookup
  · rw [AList.lookup_erase_ne hEq] at hLookup
    exact ⟨hEq, hLookup⟩

end Table

------------------------------------------------------------
-- Properties of All Entries
------------------------------------------------------------

namespace Table

variable {κ ν : Type*} [DecidableEq κ]
variable {P Q : κ → ν → Prop}
variable {t : Table κ ν} {k : κ} {v : ν}

@[simp] theorem all_empty :
    All P (∅ : Table κ ν) := by
  intro k v hLookup
  simp at hLookup

theorem All.emplace
    (hAll : All P t)
    (hNew : k ∉ t → P k v) :
    All P (t.emplace k v) := by
  intro other w hLookup
  rcases lookup_emplace_cases hLookup with
    hOld | ⟨hNotMem, rfl, rfl⟩
  · exact hAll other w hOld
  · exact hNew hNotMem

theorem All.erase
    (hAll : All P t) :
    All P (t.erase k) := by
  intro other w hLookup
  exact hAll other w (lookup_erase_cases hLookup).2

theorem All.mono
    (hAll : All P t)
    (hMono : ∀ k v, P k v → Q k v) :
    All Q t := by
  intro k v hLookup
  exact hMono k v (hAll k v hLookup)

end Table

------------------------------------------------------------
-- Counting
------------------------------------------------------------

namespace Table

variable {κ ν : Type*} [DecidableEq κ]
variable {t : Table κ ν} {k : κ} {v : ν}

omit [DecidableEq κ] in
@[simp] theorem count_empty
    (p : ν → Bool) :
    count (∅ : Table κ ν) p = 0 := rfl

/- A new entry is counted when its value is. -/
theorem count_emplace_of_notMem
    (p : ν → Bool)
    (hNotMem : k ∉ t) :
    (t.emplace k v).count p =
      t.count p + if p v then 1 else 0 := by
  rw [emplace_of_notMem hNotMem, count, count,
    AList.entries_insert_of_notMem hNotMem,
    List.countP_cons]

theorem count_emplace_le
    (p : ν → Bool) :
    (t.emplace k v).count p ≤
      t.count p + if p v then 1 else 0 := by
  by_cases hMem : k ∈ t
  · rw [emplace_of_mem hMem]
    omega
  · rw [count_emplace_of_notMem p hMem]

/- An erased entry is no longer counted. -/
theorem count_erase
    (p : ν → Bool)
    (hLookup : t.lookup k = some v) :
    t.count p =
      count (t.erase k) p + if p v then 1 else 0 := by
  have hKey : k ∈ t.entries.keys :=
    AList.mem_keys.mp (mem_of_lookup hLookup)
  have hEntry : Sigma.mk k v ∈ t.entries :=
    AList.mem_lookup_iff.mp hLookup
  rcases List.exists_of_kerase hKey with
    ⟨w, before, after, _, hEntries, hErased⟩
  have hValue : w = v := by
    have hOther : Sigma.mk k w ∈ t.entries := by
      rw [hEntries]
      simp
    exact t.nodupKeys.eq_of_mk_mem hOther hEntry
  subst hValue
  have hErase : (t.erase k).entries = before ++ after :=
    hErased
  rw [count, count, hErase, hEntries]
  simp only [List.countP_append, List.countP_cons]
  omega

/- Counting only looks at the values that occur. -/
theorem count_congr
    {p q : ν → Bool}
    (hSame : All (fun _ v => p v = q v) t) :
    t.count p = t.count q := by
  apply List.countP_congr
  intro entry hEntry
  have hLookup : t.lookup entry.1 = some entry.2 :=
    AList.mem_lookup_iff.mpr hEntry
  rw [hSame entry.1 entry.2 hLookup]

/- Counting a weaker property counts at least as much. -/
omit [DecidableEq κ] in
theorem count_mono
    {p q : ν → Bool}
    (hMono : ∀ v, p v = true → q v = true) :
    t.count p ≤ t.count q := by
  apply List.countP_mono_left
  intro entry _
  exact hMono entry.2

/- An entry with the property makes the count positive. -/
theorem count_pos_of_lookup
    {p : ν → Bool}
    (hLookup : t.lookup k = some v)
    (hValue : p v = true) :
    0 < t.count p := by
  have hCount := count_erase p hLookup
  simp only [hValue, if_true] at hCount
  omega

end Table

------------------------------------------------------------
-- Keys
------------------------------------------------------------

namespace Table

variable {κ ν : Type*} [DecidableEq κ]
variable {t : Table κ ν} {k : κ} {v : ν}

/- The keys after a new entry, as a multiset. -/
theorem keys_emplace_of_notMem
    (hNotMem : k ∉ t) :
    ((t.emplace k v).keys : Multiset κ) =
      k ::ₘ (t.keys : Multiset κ) := by
  have hKey : k ∉ t.keys := by
    rwa [← AList.mem_keys]
  rw [emplace_of_notMem hNotMem, AList.keys_insert,
    List.erase_of_not_mem hKey]
  rfl

/- The keys before an erasure, as a multiset. -/
theorem keys_erase_of_mem
    (hMem : k ∈ t) :
    (t.keys : Multiset κ) =
      k ::ₘ ((t.erase k).keys : Multiset κ) := by
  have hKey : k ∈ (t.keys : Multiset κ) := by
    simpa using AList.mem_keys.mp hMem
  rw [AList.keys_erase, ← Multiset.coe_erase,
    Multiset.cons_erase hKey]

end Table
