import Inks.Foundation.Lru
import Mathlib.Algebra.Order.BigOperators.Group.List
import Mathlib.Algebra.Order.Ring.Nat

/-
  The map of nodes and iterators against the list of pairs
  in the order of their last use.

  Key definitions include:
    * `Lru.Linked`
    * `Lru.pairs`
    * `Lru.Consistent`

  Key theorems include:
    * `Lru.step_refines`
    * `Lru.run_refines`
-/

------------------------------------------------------------
-- Links
------------------------------------------------------------

namespace Inks

def Node.pair
    {κ ν : Type*}
    (node : Node κ ν) : κ × ν :=
  (node.first, node.second)

namespace Lru

variable {κ ν : Type*} [DecidableEq κ]

/-
  No address and no key comes twice in the list, and the
  table has the address of each node under its key.
-/
structure Linked
    (list : List (Node κ ν))
    (cache : Table κ Nat) : Prop where
  addresses : (list.map Node.address).Nodup
  keys : (list.map Node.first).Nodup
  entries :
    ∀ k it,
      cache.lookup k = some it ↔
        ∃ node ∈ list, node.first = k ∧ node.address = it

/- What the list says about the keys, in its order. -/
def pairs
    (list : List (Node κ ν)) : List (κ × ν) :=
  list.map Node.pair

theorem linked_empty :
    Linked ([] : List (Node κ ν)) ∅ where
  addresses := List.nodup_nil
  keys := List.nodup_nil
  entries := by
    simp

omit [DecidableEq κ] in
@[simp] theorem keys_pairs
    (list : List (Node κ ν)) :
    (pairs list).map Prod.fst = list.map Node.first := by
  simp [pairs, Node.pair]

variable {list : List (Node κ ν)} {cache : Table κ Nat}

/- An iterator of the table points to its own node. -/
theorem Linked.deref_of_lookup
    (hLinked : Linked list cache)
    {k : κ}
    {it : Nat}
    (hLookup : cache.lookup k = some it) :
    ∃ node ∈ list,
      deref list it = some node ∧
        node.first = k ∧ node.address = it := by
  rcases (hLinked.entries k it).mp hLookup with
    ⟨node, hMem, hKey, hAddress⟩
  refine ⟨node, hMem, ?_, hKey, hAddress⟩
  cases hFind : deref list it with
  | none =>
      have hNone := List.find?_eq_none.mp hFind node hMem
      simp [hAddress] at hNone
  | some other =>
      have hOther := List.find?_some hFind
      have hSame :=
        List.inj_on_of_nodup_map hLinked.addresses
          (List.mem_of_find?_eq_some hFind) hMem
          (by simpa [hAddress] using hOther)
      rw [hSame]

theorem Linked.notMem_of_lookup
    (hLinked : Linked list cache)
    {k : κ}
    (hLookup : cache.lookup k = none) :
    k ∉ list.map Node.first := by
  intro hMem
  rcases List.mem_map.mp hMem with ⟨node, hNode, hKey⟩
  have hSome :=
    (hLinked.entries k node.address).mpr
      ⟨node, hNode, hKey, rfl⟩
  rw [hLookup] at hSome
  cases hSome

theorem Linked.pair_ne_of_lookup
    (hLinked : Linked list cache)
    {k : κ}
    (hLookup : cache.lookup k = none)
    {p : κ × ν}
    (hMem : p ∈ pairs list) :
    p.1 ≠ k := by
  intro hEq
  apply hLinked.notMem_of_lookup hLookup
  rw [← keys_pairs, ← hEq]
  exact List.mem_map_of_mem hMem

/- A node is unlinked by its address as by its key. -/
theorem Linked.unlink_eq
    (hLinked : Linked list cache)
    {node : Node κ ν}
    (hMem : node ∈ list) :
    unlink list node.address =
      list.filter (fun other => other.first ≠ node.first) := by
  apply List.filter_congr
  intro other hOther
  rw [decide_eq_decide, not_iff_not]
  constructor
  · intro hAddress
    rw [List.inj_on_of_nodup_map hLinked.addresses hOther
      hMem hAddress]
  · intro hKey
    rw [List.inj_on_of_nodup_map hLinked.keys hOther hMem
      hKey]

theorem Linked.pairs_unlink
    (hLinked : Linked list cache)
    {node : Node κ ν}
    (hMem : node ∈ list) :
    pairs (unlink list node.address) =
      Recency.remove node.first (pairs list) := by
  rw [hLinked.unlink_eq hMem, Recency.remove, pairs, pairs,
    List.filter_map]
  rfl

theorem Linked.lookup_pairs
    (hLinked : Linked list cache)
    {node : Node κ ν}
    (hMem : node ∈ list) :
    (pairs list).lookup node.first = some node.second := by
  apply Recency.lookup_of_mem
  · rw [keys_pairs]
    exact hLinked.keys
  · exact List.mem_map_of_mem hMem

end Lru

end Inks

------------------------------------------------------------
-- Operations on Links
------------------------------------------------------------

namespace Inks

namespace Lru

variable {κ ν : Type*} [DecidableEq κ]
variable {list : List (Node κ ν)} {cache : Table κ Nat}

/- A node leaves the list together with its entry. -/
theorem Linked.unlink
    (hLinked : Linked list cache)
    {node : Node κ ν}
    (hMem : node ∈ list) :
    Linked (unlink list node.address)
      (cache.erase node.first) where
  addresses :=
    (List.filter_sublist.map _).nodup hLinked.addresses
  keys := (List.filter_sublist.map _).nodup hLinked.keys
  entries := by
    intro k it
    rw [hLinked.unlink_eq hMem]
    by_cases hKey : k = node.first
    · rw [hKey, AList.lookup_erase]
      apply iff_of_false (by simp)
      intro hSome
      rcases hSome with ⟨other, hOther, hFirst, _⟩
      simp [hFirst] at hOther
    · rw [AList.lookup_erase_ne hKey, hLinked.entries]
      constructor
      · intro hSome
        rcases hSome with ⟨other, hOther, hFirst, hIt⟩
        refine ⟨other, ?_, hFirst, hIt⟩
        simpa [hOther, hFirst] using hKey
      · intro hSome
        rcases hSome with ⟨other, hOther, hFirst, hIt⟩
        exact ⟨other, (List.mem_filter.mp hOther).1,
          hFirst, hIt⟩

/- A node comes to the front, perhaps with a new value. -/
theorem Linked.front
    (hLinked : Linked list cache)
    {node : Node κ ν}
    (hMem : node ∈ list)
    (v : ν) :
    Linked
      ({ node with second := v } ::
        Lru.unlink list node.address)
      cache where
  addresses := by
    rw [List.map_cons, List.nodup_cons]
    refine ⟨?_, ?_⟩
    · simp [Lru.unlink]
    · exact (List.filter_sublist.map _).nodup
        hLinked.addresses
  keys := by
    rw [List.map_cons, List.nodup_cons,
      hLinked.unlink_eq hMem]
    refine ⟨?_, ?_⟩
    · simp
    · exact (List.filter_sublist.map _).nodup hLinked.keys
  entries := by
    intro k it
    rw [hLinked.entries]
    constructor
    · intro hSome
      rcases hSome with ⟨other, hOther, hFirst, hIt⟩
      by_cases hSame : other.address = node.address
      · have hEq :=
          List.inj_on_of_nodup_map hLinked.addresses hOther
            hMem hSame
        rw [hEq] at hFirst hIt
        exact ⟨_, List.mem_cons_self, hFirst, hIt⟩
      · refine ⟨other, ?_, hFirst, hIt⟩
        simp [Lru.unlink, hOther, hSame]
    · intro hSome
      rcases hSome with ⟨other, hOther, hFirst, hIt⟩
      rcases List.mem_cons.mp hOther with rfl | hOther
      · exact ⟨node, hMem, hFirst, hIt⟩
      · exact ⟨other, (List.mem_filter.mp hOther).1,
          hFirst, hIt⟩

/- A new node under a key that has none. -/
theorem Linked.cons
    (hLinked : Linked list cache)
    {k : κ}
    (hKey : k ∉ list.map Node.first)
    {it : Nat}
    (hFresh : it ∉ list.map Node.address)
    (v : ν) :
    Linked
      ({ address := it, first := k, second := v } :: list)
      (cache.insert k it) where
  addresses := by
    rw [List.map_cons, List.nodup_cons]
    exact ⟨hFresh, hLinked.addresses⟩
  keys := by
    rw [List.map_cons, List.nodup_cons]
    exact ⟨hKey, hLinked.keys⟩
  entries := by
    intro other place
    by_cases hSame : other = k
    · rw [hSame, AList.lookup_insert]
      constructor
      · intro hPlace
        rw [← Option.some.inj hPlace]
        exact ⟨_, List.mem_cons_self, rfl, rfl⟩
      · intro hSome
        rcases hSome with ⟨node, hNode, hFirst, hAddress⟩
        rcases List.mem_cons.mp hNode with rfl | hNode
        · rw [← hAddress]
        · exact absurd
            (hFirst ▸ List.mem_map_of_mem hNode) hKey
    · rw [AList.lookup_insert_ne hSame, hLinked.entries]
      constructor
      · intro hSome
        rcases hSome with ⟨node, hNode, hFirst, hAddress⟩
        exact ⟨node, List.mem_cons_of_mem _ hNode, hFirst,
          hAddress⟩
      · intro hSome
        rcases hSome with ⟨node, hNode, hFirst, hAddress⟩
        rcases List.mem_cons.mp hNode with rfl | hNode
        · exact absurd hFirst.symm hSame
        · exact ⟨node, hNode, hFirst, hAddress⟩

/- The last node is unlinked by taking it off the list. -/
theorem Linked.dropLast_eq
    {rest : List (Node κ ν)}
    {victim : Node κ ν}
    (hLinked : Linked (rest ++ [victim]) cache) :
    Lru.unlink (rest ++ [victim]) victim.address = rest := by
  have hNodup := hLinked.addresses
  rw [List.map_append, List.map_singleton,
    List.nodup_append] at hNodup
  have hRest : Lru.unlink rest victim.address = rest := by
    apply List.filter_eq_self.mpr
    intro node hMem
    have hNe :=
      hNodup.2.2 node.address (List.mem_map_of_mem hMem)
        victim.address (by simp)
    simpa using hNe
  unfold Lru.unlink at hRest ⊢
  rw [List.filter_append, hRest]
  simp

end Lru

end Inks

------------------------------------------------------------
-- Steps
------------------------------------------------------------

namespace Inks

namespace Lru

variable {κ ν : Type*} [DecidableEq κ]

omit [DecidableEq κ] in
theorem splice_eq
    {list : List (Node κ ν)}
    {it : Nat}
    {node : Node κ ν}
    (hDeref : deref list it = some node) :
    splice list it = some (node :: unlink list it) := by
  simp [splice, hDeref]

omit [DecidableEq κ] in
theorem deref_cons
    (node : Node κ ν)
    (list : List (Node κ ν)) :
    deref (node :: list) node.address = some node := by
  simp [deref]

/- The list with a new value in the node at an iterator. -/
def assigned
    (list : List (Node κ ν))
    (it : Nat)
    (v : ν) : List (Node κ ν) :=
  list.map fun node =>
    if node.address = it then
      { node with second := v }
    else
      node

omit [DecidableEq κ] in
theorem assign_eq
    {list : List (Node κ ν)}
    {it : Nat}
    {node : Node κ ν}
    (hDeref : deref list it = some node)
    (v : ν) :
    assign list it v = some (assigned list it v) := by
  simp [assign, hDeref, assigned]

omit [DecidableEq κ] in
theorem unlink_assigned
    (list : List (Node κ ν))
    (it : Nat)
    (v : ν) :
    unlink (assigned list it v) it = unlink list it := by
  induction list with
  | nil => rfl
  | cons first list ih =>
      by_cases hHere : first.address = it
      · simpa [unlink, assigned, hHere] using ih
      · simpa [unlink, assigned, hHere] using ih

omit [DecidableEq κ] in
theorem deref_assigned
    {list : List (Node κ ν)}
    {it : Nat}
    {node : Node κ ν}
    (hDeref : deref list it = some node)
    (v : ν) :
    deref (assigned list it v) it =
      some { node with second := v } := by
  have hAddress : node.address = it := by
    simpa using List.find?_some hDeref
  have hSame :
      ((fun other : Node κ ν =>
          decide (other.address = it)) ∘
        fun other =>
          if other.address = it then
            { other with second := v }
          else
            other) =
        fun other => decide (other.address = it) := by
    funext other
    by_cases hHere : other.address = it <;> simp [hHere]
  rw [deref, assigned, List.find?_map, hSame, ← deref,
    hDeref]
  simp [hAddress]

/- An assignment and a splice change one node and move it. -/
omit [DecidableEq κ] in
theorem splice_assigned
    {list : List (Node κ ν)}
    {it : Nat}
    {node : Node κ ν}
    (hDeref : deref list it = some node)
    (v : ν) :
    splice (assigned list it v) it =
      some ({ node with second := v } ::
        unlink list it) := by
  rw [splice_eq (deref_assigned hDeref v), unlink_assigned]

variable {s : Lru κ ν}

theorem get_refines
    (hLinked : Linked s.list s.cache)
    (k : κ) :
    ∃ t,
      s.get k = some ((Recency.get k (pairs s.list)).1, t) ∧
      t.capacity = s.capacity ∧
      pairs t.list = (Recency.get k (pairs s.list)).2 ∧
      Linked t.list t.cache := by
  cases hLookup : s.cache.lookup k with
  | none =>
      have hNone : (pairs s.list).lookup k = none := by
        rw [List.lookup_eq_none_iff]
        intro p hMem
        rw [bne_iff_ne]
        exact (hLinked.pair_ne_of_lookup hLookup hMem).symm
      refine ⟨s, ?_, rfl, ?_, hLinked⟩
      · simp [get, hLookup, Recency.get, hNone]
      · simp [Recency.get, hNone]
  | some it =>
      rcases hLinked.deref_of_lookup hLookup with
        ⟨node, hMem, hDeref, rfl, rfl⟩
      have hValue := hLinked.lookup_pairs hMem
      refine
        ⟨{ s with
            list := node :: unlink s.list node.address },
          ?_, rfl, ?_, hLinked.front hMem node.second⟩
      · simp [get, hLookup, splice_eq hDeref, deref_cons,
          Recency.get, hValue]
      · simp only [Recency.get, hValue]
        rw [← hLinked.pairs_unlink hMem]
        rfl

/- Room for a new node, under a key that is not in use. -/
theorem evict_refines
    (hPos : 1 ≤ s.capacity)
    (hLinked : Linked s.list s.cache)
    {k : κ}
    (hNotMem : k ∉ s.list.map Node.first)
    (v : ν) :
    ∃ t,
      s.evict = some t ∧
      t.capacity = s.capacity ∧
      Recency.put s.capacity k v (pairs s.list) =
        (k, v) :: pairs t.list ∧
      k ∉ t.list.map Node.first ∧
      Linked t.list t.cache := by
  have hKeys : k ∉ (pairs s.list).map Prod.fst := by
    rw [keys_pairs]
    exact hNotMem
  have hLength :
      (pairs s.list).length = s.list.length := by
    simp [pairs]
  by_cases hFull : s.list.length = s.capacity
  · rcases List.eq_nil_or_concat' s.list with
      hNil | ⟨rest, victim, hLast⟩
    · rw [hNil, List.length_nil] at hFull
      omega
    · have hVictim : victim ∈ s.list := by
        simp [hLast]
      have hUnlink := hLinked.unlink hVictim
      rw [hLast] at hLinked hUnlink hNotMem
      rw [hLinked.dropLast_eq] at hUnlink
      refine
        ⟨{ s with
            cache := s.cache.erase victim.first
            list := rest },
          ?_, rfl, ?_, ?_, hUnlink⟩
      · rw [evict, if_pos hFull]
        simp [hLast]
      · rw [Recency.put, if_neg hKeys, hLength,
          if_pos hFull, hLast]
        simp [pairs]
      · intro hMem
        apply hNotMem
        rw [List.map_append]
        exact List.mem_append_left _ hMem
  · refine ⟨s, ?_, rfl, ?_, hNotMem, hLinked⟩
    · rw [evict, if_neg hFull]
    · rw [Recency.put, if_neg hKeys, hLength, if_neg hFull]

theorem put_refines
    (hPos : 1 ≤ s.capacity)
    (hLinked : Linked s.list s.cache)
    (alloc : Allocator)
    (k : κ)
    (v : ν) :
    ∃ t,
      s.put alloc k v = some t ∧
      t.capacity = s.capacity ∧
      pairs t.list =
        Recency.put s.capacity k v (pairs s.list) ∧
      Linked t.list t.cache := by
  cases hLookup : s.cache.lookup k with
  | none =>
      have hNotMem := hLinked.notMem_of_lookup hLookup
      rcases evict_refines hPos hLinked hNotMem v with
        ⟨t, hEvict, hCapacity, hPut, hKey, hRest⟩
      have hFresh :=
        alloc.fresh (t.list.map Node.address)
      refine
        ⟨{ t with
            list :=
              { address :=
                  alloc.address (t.list.map Node.address)
                first := k
                second := v } :: t.list
            cache :=
              t.cache.insert k
                (alloc.address
                  (t.list.map Node.address)) },
          ?_, hCapacity, ?_, hRest.cons hKey hFresh v⟩
      · simp [put, hLookup, hEvict]
      · rw [hPut]
        rfl
  | some it =>
      rcases hLinked.deref_of_lookup hLookup with
        ⟨node, hMem, hDeref, rfl, rfl⟩
      have hKey :
          node.first ∈ (pairs s.list).map Prod.fst := by
        rw [keys_pairs]
        exact List.mem_map_of_mem hMem
      refine
        ⟨{ s with
            list :=
              { node with second := v } ::
                unlink s.list node.address },
          ?_, rfl, ?_, hLinked.front hMem v⟩
      · simp [put, hLookup, assign_eq hDeref,
          splice_assigned hDeref]
      · rw [Recency.put, if_pos hKey,
          ← hLinked.pairs_unlink hMem]
        rfl

theorem erase_refines
    (hLinked : Linked s.list s.cache)
    (k : κ) :
    ∃ t,
      s.erase k = some t ∧
      t.capacity = s.capacity ∧
      pairs t.list = Recency.remove k (pairs s.list) ∧
      Linked t.list t.cache := by
  cases hLookup : s.cache.lookup k with
  | none =>
      refine ⟨s, ?_, rfl, ?_, hLinked⟩
      · simp [erase, hLookup]
      · symm
        apply List.filter_eq_self.mpr
        intro p hMem
        rw [decide_eq_true_eq]
        exact hLinked.pair_ne_of_lookup hLookup hMem
  | some it =>
      rcases hLinked.deref_of_lookup hLookup with
        ⟨node, hMem, hDeref, rfl, rfl⟩
      refine
        ⟨{ s with
            list := unlink s.list node.address
            cache := s.cache.erase node.first },
          ?_, rfl, hLinked.pairs_unlink hMem,
          hLinked.unlink hMem⟩
      simp [erase, hLookup, hDeref]

/- One call of the map is one call of the reference. -/
theorem step_refines
    (hPos : 1 ≤ s.capacity)
    (hLinked : Linked s.list s.cache)
    (alloc : Allocator)
    (call : Recency.Call κ ν) :
    ∃ t,
      s.step alloc call =
        some
          ((Recency.step s.capacity (pairs s.list)
            call).1, t) ∧
      t.capacity = s.capacity ∧
      pairs t.list =
        (Recency.step s.capacity (pairs s.list) call).2 ∧
      Linked t.list t.cache := by
  cases call with
  | get k => exact get_refines hLinked k
  | put k v =>
      rcases put_refines hPos hLinked alloc k v with
        ⟨t, hPut, hRest⟩
      exact ⟨t, by simp [step, hPut, Recency.step], hRest⟩
  | erase k =>
      rcases erase_refines hLinked k with
        ⟨t, hErase, hRest⟩
      exact ⟨t, by simp [step, hErase, Recency.step], hRest⟩

end Lru

end Inks

------------------------------------------------------------
-- Runs
------------------------------------------------------------

namespace Inks

namespace Lru

variable {κ ν : Type*} [DecidableEq κ]

theorem run_refines_from
    {s : Lru κ ν}
    (hPos : 1 ≤ s.capacity)
    (hLinked : Linked s.list s.cache)
    (alloc : Allocator)
    (calls : List (Recency.Call κ ν)) :
    ∃ t,
      s.run alloc calls =
        some
          ((Recency.run s.capacity (pairs s.list)
            calls).1, t) ∧
      pairs t.list =
        (Recency.run s.capacity (pairs s.list) calls).2 ∧
      Linked t.list t.cache := by
  induction calls generalizing s with
  | nil => exact ⟨s, rfl, rfl, hLinked⟩
  | cons call calls ih =>
      rcases step_refines hPos hLinked alloc call with
        ⟨t, hStep, hCapacity, hPairs, hNext⟩
      rw [← hCapacity] at hPos
      rcases ih hPos hNext with ⟨u, hRun, hLast, hEnd⟩
      rw [hCapacity, hPairs] at hRun hLast
      refine ⟨u, ?_, hLast, hEnd⟩
      simp [run, hStep, hRun, Recency.run]

/-
  What a reader may rely on between two calls: both parts of
  the map hold the same keys, once each, and an entry leads
  to the node of its own key.
-/
structure Consistent
    (capacity : Nat)
    (s : Lru κ ν) : Prop where
  keys : (s.list.map Node.first).Nodup
  same_keys : ∀ k, k ∈ s.cache ↔ k ∈ s.list.map Node.first
  own_node :
    ∀ k it, s.cache.lookup k = some it →
      ∃ node, deref s.list it = some node ∧ node.first = k
  size : s.list.length ≤ capacity
  cache_size : s.cache.keys.length ≤ capacity

theorem Linked.consistent
    {capacity : Nat}
    {s : Lru κ ν}
    (hLinked : Linked s.list s.cache)
    (hSize : s.list.length ≤ capacity) :
    Consistent capacity s := by
  have hSame :
      ∀ k, k ∈ s.cache ↔ k ∈ s.list.map Node.first := by
    intro k
    constructor
    · intro hMem
      rcases Table.exists_lookup_of_mem hMem with
        ⟨it, hLookup⟩
      rcases (hLinked.entries k it).mp hLookup with
        ⟨node, hNode, hKey, _⟩
      exact List.mem_map.mpr ⟨node, hNode, hKey⟩
    · intro hMem
      rcases List.mem_map.mp hMem with ⟨node, hNode, hKey⟩
      exact Table.mem_of_lookup
        ((hLinked.entries k node.address).mpr
          ⟨node, hNode, hKey, rfl⟩)
  refine ⟨hLinked.keys, hSame, ?_, hSize, ?_⟩
  · intro k it hLookup
    rcases hLinked.deref_of_lookup hLookup with
      ⟨node, _, hDeref, hKey, _⟩
    exact ⟨node, hDeref, hKey⟩
  · have hSubset :
        s.cache.keys ⊆ s.list.map Node.first := by
      intro k hMem
      exact (hSame k).mp (AList.mem_keys.mpr hMem)
    have hLength :=
      (List.subperm_of_subset s.cache.nodupKeys
        hSubset).length_le
    rw [List.length_map] at hLength
    exact hLength.trans hSize

/-
  Every run of the map is the run of the reference list: the
  same results, the same pairs in the order of last use, and
  an insertion into a full map drops the pair used least
  recently.
-/
theorem run_refines
    {capacity : Nat}
    (hPos : 1 ≤ capacity)
    (alloc : Allocator)
    (calls : List (Recency.Call κ ν)) :
    ∃ s,
      (new capacity : Lru κ ν).run alloc calls =
        some ((Recency.run capacity [] calls).1, s) ∧
      pairs s.list = (Recency.run capacity [] calls).2 ∧
      Consistent capacity s ∧
      Recency.Bounded capacity (pairs s.list) ∧
      Recency.Ordered calls (pairs s.list) ∧
      ∀ k v,
        k ∉ s.list.map Node.first →
          s.list.length = capacity →
            ∃ rest victim,
              pairs s.list = rest ++ [victim] ∧
              Recency.put capacity k v (pairs s.list) =
                (k, v) :: rest ∧
              ∀ p ∈ rest,
                Recency.lastUse calls victim.1 <
                  Recency.lastUse calls p.1 := by
  rcases run_refines_from (s := (new capacity : Lru κ ν))
      hPos linked_empty alloc calls with
    ⟨s, hRun, hPairs, hLinked⟩
  have hReference :
      Recency.Bounded capacity
          (Recency.run capacity [] calls).2 ∧
        Recency.Ordered calls
          (Recency.run capacity [] calls).2 :=
    Recency.run_ordered hPos calls
  have hState :
      pairs s.list =
        (Recency.run capacity [] calls).2 :=
    hPairs
  rw [← hState] at hReference
  have hSize : s.list.length ≤ capacity := by
    simpa [pairs] using hReference.1.size
  refine ⟨s, hRun, hState, hLinked.consistent hSize,
    hReference.1, hReference.2, ?_⟩
  intro k v hNotMem hFull
  apply Recency.put_evicts hPos hReference.2
  · rw [keys_pairs]
    exact hNotMem
  · simpa [pairs] using hFull

/- A place in memory above all that are in use. -/
def nextAllocator : Allocator where
  address := fun used => used.sum + 1
  fresh := by
    intro used hMem
    have hLe := List.le_sum_of_mem hMem
    omega

theorem run_of_three_calls :
    ∃ s,
      (new 1 : Lru Nat Nat).run nextAllocator
          [.put 1 5, .put 2 6, .get 1] =
        some ([none, none, none], s) ∧
      Consistent 1 s := by
  have hOne : 1 ≤ 1 := le_rfl
  rcases run_refines hOne nextAllocator
      [Recency.Call.put 1 5, .put 2 6, .get 1] with
    ⟨s, hRun, _, hConsistent, _⟩
  exact ⟨s, hRun, hConsistent⟩

end Lru

end Inks
