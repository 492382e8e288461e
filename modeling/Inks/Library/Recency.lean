import Inks.Library.Run
import Mathlib.Data.List.Nodup
import Mathlib.Data.List.Pairwise

/-
  A bounded map as a list of its pairs, the most recently
  used first, and the history that puts them in this order.

  Key definitions include:
    * `Recency.Call`
    * `Recency.step`
    * `Recency.lastUse`
    * `Recency.lastPut`
    * `Recency.Ordered`

  Key theorems include:
    * `Recency.run_ordered`
    * `Recency.put_evicts`
-/

------------------------------------------------------------
-- The Reference Map
------------------------------------------------------------

namespace Recency

variable {κ ν : Type*} [DecidableEq κ]

inductive Call
    (κ ν : Type*) where
| get (k : κ)
| put (k : κ) (v : ν)
| erase (k : κ)
deriving DecidableEq, Repr

def remove
    (k : κ)
    (pairs : List (κ × ν)) : List (κ × ν) :=
  pairs.filter (fun p => p.1 ≠ k)

def get
    (k : κ)
    (pairs : List (κ × ν)) : Option ν × List (κ × ν) :=
  match pairs.lookup k with
  | none => (none, pairs)
  | some v => (some v, (k, v) :: remove k pairs)

/-
  An insertion into a full map drops the last pair, which is
  the least recently used one.
-/
def put
    (capacity : Nat)
    (k : κ)
    (v : ν)
    (pairs : List (κ × ν)) : List (κ × ν) :=
  if k ∈ pairs.map Prod.fst then
    (k, v) :: remove k pairs
  else if pairs.length = capacity then
    (k, v) :: pairs.dropLast
  else
    (k, v) :: pairs

/- The result of a call, of which only `get` has one. -/
def step
    (capacity : Nat)
    (pairs : List (κ × ν)) :
    Call κ ν → Option ν × List (κ × ν)
| .get k => get k pairs
| .put k v => (none, put capacity k v pairs)
| .erase k => (none, remove k pairs)

/- The results of a list of calls and the last state. -/
def run
    (capacity : Nat)
    (pairs : List (κ × ν)) :
    List (Call κ ν) → List (Option ν) × List (κ × ν)
| [] => ([], pairs)
| call :: calls =>
    let (result, pairs) := step capacity pairs call
    let (results, pairs) := run capacity pairs calls
    (result :: results, pairs)

theorem run_concat
    (capacity : Nat)
    (pairs : List (κ × ν))
    (calls : List (Call κ ν))
    (call : Call κ ν) :
    (run capacity pairs (calls ++ [call])).2 =
      (step capacity (run capacity pairs calls).2 call).2 := by
  induction calls generalizing pairs with
  | nil => rfl
  | cons first calls ih =>
      exact ih (step capacity pairs first).2

end Recency

------------------------------------------------------------
-- Pairs
------------------------------------------------------------

namespace Recency

variable {κ ν : Type*} [DecidableEq κ]

/- At most `capacity` pairs, with distinct keys. -/
structure Bounded
    (capacity : Nat)
    (pairs : List (κ × ν)) : Prop where
  nodup : (pairs.map Prod.fst).Nodup
  size : pairs.length ≤ capacity

theorem remove_sublist
    (k : κ)
    (pairs : List (κ × ν)) :
    (remove k pairs).Sublist pairs :=
  List.filter_sublist

theorem notMem_keys_remove
    (k : κ)
    (pairs : List (κ × ν)) :
    k ∉ (remove k pairs).map Prod.fst := by
  simp [remove]

theorem length_remove_lt
    {k : κ}
    {pairs : List (κ × ν)}
    (hMem : k ∈ pairs.map Prod.fst) :
    (remove k pairs).length < pairs.length := by
  rcases List.mem_map.mp hMem with ⟨p, hPair, rfl⟩
  unfold remove
  rw [List.length_filter_lt_length_iff_exists]
  exact ⟨p, hPair, by simp⟩

/- A pair moves to the front, or in there with a new value. -/
theorem Bounded.cons_remove
    {capacity : Nat}
    {k : κ}
    {pairs : List (κ × ν)}
    (hBounded : Bounded capacity pairs)
    (hMem : k ∈ pairs.map Prod.fst)
    (v : ν) :
    Bounded capacity ((k, v) :: remove k pairs) where
  nodup := by
    rw [List.map_cons, List.nodup_cons]
    refine ⟨notMem_keys_remove k pairs, ?_⟩
    exact ((remove_sublist k pairs).map _).nodup
      hBounded.nodup
  size := by
    have hLt := length_remove_lt hMem
    have hLe := hBounded.size
    rw [List.length_cons]
    omega

omit [DecidableEq κ] in
theorem Bounded.sublist
    {capacity : Nat}
    {pairs smaller : List (κ × ν)}
    (hBounded : Bounded capacity pairs)
    (hSublist : smaller.Sublist pairs) :
    Bounded capacity smaller where
  nodup := (hSublist.map _).nodup hBounded.nodup
  size := hSublist.length_le.trans hBounded.size

omit [DecidableEq κ] in
theorem Bounded.cons
    {capacity : Nat}
    {k : κ}
    {pairs : List (κ × ν)}
    (hBounded : Bounded capacity pairs)
    (hNotMem : k ∉ pairs.map Prod.fst)
    (hRoom : pairs.length < capacity)
    (v : ν) :
    Bounded capacity ((k, v) :: pairs) where
  nodup := by
    rw [List.map_cons, List.nodup_cons]
    exact ⟨hNotMem, hBounded.nodup⟩
  size := hRoom

theorem mem_keys_of_lookup
    {k : κ}
    {v : ν}
    {pairs : List (κ × ν)}
    (hLookup : pairs.lookup k = some v) :
    k ∈ pairs.map Prod.fst := by
  rcases List.lookup_eq_some_iff.mp hLookup with
    ⟨before, after, rfl, _⟩
  simp

theorem mem_of_lookup
    {k : κ}
    {v : ν}
    {pairs : List (κ × ν)}
    (hLookup : pairs.lookup k = some v) :
    (k, v) ∈ pairs := by
  rcases List.lookup_eq_some_iff.mp hLookup with
    ⟨before, after, rfl, _⟩
  simp

theorem Bounded.put
    {capacity : Nat}
    {pairs : List (κ × ν)}
    (hPos : 1 ≤ capacity)
    (hBounded : Bounded capacity pairs)
    (k : κ)
    (v : ν) :
    Bounded capacity (put capacity k v pairs) := by
  unfold Recency.put
  split
  · next hMem => exact hBounded.cons_remove hMem v
  · next hNotMem =>
      split
      · next hFull =>
          have hSublist := List.dropLast_sublist pairs
          apply (hBounded.sublist hSublist).cons
          · intro hMem
            exact hNotMem ((hSublist.map _).subset hMem)
          · rw [List.length_dropLast]
            omega
      · next hRoom =>
          have hLe := hBounded.size
          exact hBounded.cons hNotMem (by omega) v

theorem Bounded.step
    {capacity : Nat}
    {pairs : List (κ × ν)}
    (hPos : 1 ≤ capacity)
    (hBounded : Bounded capacity pairs)
    (call : Call κ ν) :
    Bounded capacity (step capacity pairs call).2 := by
  cases call with
  | get k =>
      simp only [Recency.step, get]
      split
      · exact hBounded
      · next v hLookup =>
          exact hBounded.cons_remove
            (mem_keys_of_lookup hLookup) v
  | put k v => exact hBounded.put hPos k v
  | erase k => exact hBounded.sublist (remove_sublist k pairs)

end Recency

------------------------------------------------------------
-- History
------------------------------------------------------------

namespace Recency

variable {κ ν : Type*} [DecidableEq κ]

def Call.uses
    (k : κ) : Call κ ν → Bool
| .get other => other = k
| .put other _ => other = k
| .erase _ => false

/- What a call sets a key to, if it sets it at all. -/
def Call.sets
    (k : κ) : Call κ ν → Option (Option ν)
| .get _ => none
| .put other v => if other = k then some (some v) else none
| .erase other => if other = k then some none else none

/- The number of the last call that used a key, from 1 on. -/
def lastUse
    (calls : List (Call κ ν))
    (k : κ) : Nat :=
  (calls.reverse.dropWhile (fun c => !c.uses k)).length

/- The value of the last put of a key not erased since. -/
def lastPut
    (calls : List (Call κ ν))
    (k : κ) : Option ν :=
  (calls.reverse.findSome? (Call.sets k)).join

theorem lastUse_concat
    (calls : List (Call κ ν))
    (call : Call κ ν)
    (k : κ) :
    lastUse (calls ++ [call]) k =
      if call.uses k then
        calls.length + 1
      else
        lastUse calls k := by
  cases hUses : call.uses k <;>
    simp [lastUse, hUses]

theorem lastUse_le
    (calls : List (Call κ ν))
    (k : κ) :
    lastUse calls k ≤ calls.length := by
  have hSuffix :=
    List.dropWhile_suffix
      (l := calls.reverse) (fun c => !c.uses k)
  simpa [lastUse] using hSuffix.length_le

theorem lastPut_concat
    (calls : List (Call κ ν))
    (call : Call κ ν)
    (k : κ) :
    lastPut (calls ++ [call]) k =
      (call.sets k).getD (lastPut calls k) := by
  cases hSets : call.sets k <;>
    simp [lastPut, hSets]

/-
  The pairs of a map after some calls: each key has the
  value of its last put, later uses stand before earlier
  ones.
-/
structure Ordered
    (calls : List (Call κ ν))
    (pairs : List (κ × ν)) : Prop where
  recent :
    pairs.Pairwise fun p q =>
      lastUse calls q.1 < lastUse calls p.1
  latest : ∀ p ∈ pairs, lastPut calls p.1 = some p.2

theorem Ordered.sublist
    {calls : List (Call κ ν)}
    {pairs smaller : List (κ × ν)}
    (hOrdered : Ordered calls pairs)
    (hSublist : smaller.Sublist pairs) :
    Ordered calls smaller where
  recent := hOrdered.recent.sublist hSublist
  latest := fun p hMem =>
    hOrdered.latest p (hSublist.subset hMem)

/- A call keeps the order of the keys that it does not use. -/
theorem Ordered.concat
    {calls : List (Call κ ν)}
    {pairs : List (κ × ν)}
    {call : Call κ ν}
    (hOrdered : Ordered calls pairs)
    (hUnused : ∀ p ∈ pairs, call.uses p.1 = false)
    (hUnset : ∀ p ∈ pairs, call.sets p.1 = none) :
    Ordered (calls ++ [call]) pairs where
  recent := by
    apply hOrdered.recent.imp_of_mem
    intro p q hP hQ hLt
    rw [lastUse_concat, lastUse_concat, hUnused p hP,
      hUnused q hQ]
    simpa using hLt
  latest := by
    intro p hMem
    rw [lastPut_concat, hUnset p hMem]
    simpa using hOrdered.latest p hMem

/- A call that sets a key to a value uses it. -/
theorem Call.sets_of_not_uses
    {call : Call κ ν}
    {k other : κ}
    (hUses : ∀ other, call.uses other = decide (k = other))
    (hNe : other ≠ k) :
    call.sets other = none := by
  cases call with
  | get _ => rfl
  | put first v =>
      have hSelf := hUses first
      simp only [Call.uses, decide_true] at hSelf
      rw [← of_decide_eq_true hSelf.symm]
      simp [Call.sets, hNe.symm]
  | erase first =>
      have hSelf := hUses k
      simp [Call.uses] at hSelf

/- The key that a call uses comes to the front. -/
theorem Ordered.cons_concat
    {calls : List (Call κ ν)}
    {pairs : List (κ × ν)}
    {call : Call κ ν}
    {k : κ}
    {v : ν}
    (hOrdered : Ordered calls pairs)
    (hUses : ∀ other, call.uses other = decide (k = other))
    (hNotMem : k ∉ pairs.map Prod.fst)
    (hValue :
      (call.sets k).getD (lastPut calls k) = some v) :
    Ordered (calls ++ [call]) ((k, v) :: pairs) := by
  have hNe : ∀ p ∈ pairs, p.1 ≠ k := by
    intro p hMem hEq
    exact hNotMem (hEq ▸ List.mem_map_of_mem hMem)
  have hUnused : ∀ p ∈ pairs, call.uses p.1 = false := by
    intro p hMem
    rw [hUses, decide_eq_false_iff_not]
    exact (hNe p hMem).symm
  have hRest :=
    hOrdered.concat hUnused
      (fun p hMem => Call.sets_of_not_uses hUses (hNe p hMem))
  constructor
  · rw [List.pairwise_cons]
    refine ⟨?_, hRest.recent⟩
    intro p hMem
    have hLe := lastUse_le calls p.1
    rw [lastUse_concat, lastUse_concat, hUnused p hMem,
      hUses]
    simp
    omega
  · intro p hMem
    rcases List.mem_cons.mp hMem with rfl | hMem
    · rw [lastPut_concat, hValue]
    · exact hRest.latest p hMem

theorem Ordered.step
    {capacity : Nat}
    {calls : List (Call κ ν)}
    {pairs : List (κ × ν)}
    (hOrdered : Ordered calls pairs)
    (call : Call κ ν) :
    Ordered (calls ++ [call])
      (step capacity pairs call).2 := by
  cases call with
  | get k =>
      simp only [Recency.step, get]
      split
      · next hLookup =>
          -- A miss uses no key of the map.
          have hUnused :
              ∀ p ∈ pairs,
                (Call.get k : Call κ ν).uses p.1 =
                  false := by
            intro p hMem
            have hNe :=
              List.lookup_eq_none_iff.mp hLookup p hMem
            simpa [Call.uses] using hNe
          apply hOrdered.concat hUnused
          simp [Call.sets]
      · next v hLookup =>
          have hLatest :=
            hOrdered.latest (k, v) (mem_of_lookup hLookup)
          apply
            (hOrdered.sublist
              (remove_sublist k pairs)).cons_concat
          · intro other
            rfl
          · exact notMem_keys_remove k pairs
          · simpa [Call.sets] using hLatest
  | put k v =>
      simp only [Recency.step, Recency.put]
      have hUses :
          ∀ other,
            (Call.put k v).uses other =
              decide (k = other) :=
        fun _ => rfl
      have hValue :
          ((Call.put k v).sets k).getD (lastPut calls k) =
            some v := by
        simp [Call.sets]
      split
      · exact
          (hOrdered.sublist
            (remove_sublist k pairs)).cons_concat hUses
            (notMem_keys_remove k pairs) hValue
      · next hNotMem =>
          split
          · have hSublist := List.dropLast_sublist pairs
            apply
              (hOrdered.sublist hSublist).cons_concat
                hUses _ hValue
            intro hMem
            exact hNotMem ((hSublist.map _).subset hMem)
          · exact hOrdered.cons_concat hUses hNotMem hValue
  | erase k =>
      apply
        (hOrdered.sublist (remove_sublist k pairs)).concat
      · simp [Call.uses]
      · intro p hMem
        have hNe : p.1 ≠ k := by
          simpa using (List.mem_filter.mp hMem).2
        simp [Call.sets, hNe.symm]

/- Every run from the empty map. -/
theorem run_ordered
    {capacity : Nat}
    (hPos : 1 ≤ capacity)
    (calls : List (Call κ ν)) :
    Bounded capacity (run capacity [] calls).2 ∧
      Ordered calls (run capacity [] calls).2 := by
  induction calls using List.reverseRecOn with
  | nil =>
      refine ⟨⟨?_, ?_⟩, ⟨?_, ?_⟩⟩ <;> simp [run]
  | append_singleton calls call ih =>
      rw [run_concat]
      exact ⟨ih.1.step hPos call, ih.2.step call⟩

/-
  An insertion into a full map drops one pair: the one whose
  key was used before the keys of all others.
-/
theorem put_evicts
    {capacity : Nat}
    {calls : List (Call κ ν)}
    {pairs : List (κ × ν)}
    {k : κ}
    (hPos : 1 ≤ capacity)
    (hOrdered : Ordered calls pairs)
    (hNotMem : k ∉ pairs.map Prod.fst)
    (hFull : pairs.length = capacity)
    (v : ν) :
    ∃ rest victim,
      pairs = rest ++ [victim] ∧
      put capacity k v pairs = (k, v) :: rest ∧
      ∀ p ∈ rest,
        lastUse calls victim.1 < lastUse calls p.1 := by
  rcases List.eq_nil_or_concat' pairs with
    rfl | ⟨rest, victim, rfl⟩
  · simp only [List.length_nil] at hFull
    omega
  · refine ⟨rest, victim, rfl, ?_, ?_⟩
    · rw [put, if_neg hNotMem, if_pos hFull,
        List.dropLast_concat]
    · intro p hMem
      have hRecent :=
        List.pairwise_append.mp hOrdered.recent
      exact hRecent.2.2 p hMem victim (by simp)

/- A key without repetition is looked up where it stands. -/
theorem lookup_of_mem
    {k : κ}
    {v : ν}
    {pairs : List (κ × ν)}
    (hNodup : (pairs.map Prod.fst).Nodup)
    (hMem : (k, v) ∈ pairs) :
    pairs.lookup k = some v := by
  induction pairs with
  | nil => simp at hMem
  | cons p pairs ih =>
      rw [List.map_cons, List.nodup_cons] at hNodup
      rcases List.mem_cons.mp hMem with rfl | hMem
      · simp
      · have hNe : k ≠ p.1 := by
          intro hEq
          rw [← hEq] at hNodup
          exact hNodup.1 (List.mem_map_of_mem hMem)
        rw [List.lookup_cons, beq_eq_false_iff_ne.mpr hNe]
        exact ih hNodup.2 hMem

end Recency
