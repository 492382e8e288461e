import Inks.Library.Recency
import Inks.Library.Table

/-
  A map of bounded size: a list of nodes, the most recently
  used first, and a table from keys to the nodes.

  An iterator is the address of a node. An operation that
  follows an iterator to no node, or takes the last node of
  an empty list, has no result: its behaviour is undefined.

  Key definitions include:
    * `Lru.get`
    * `Lru.put`
    * `Lru.erase`
    * `Lru.run`
-/

------------------------------------------------------------
-- The Map
------------------------------------------------------------

namespace Inks

/- An element of the list, at its place in memory. -/
structure Node
    (κ ν : Type*) where
  address : Nat
  first : κ
  second : ν
deriving DecidableEq, Repr

/- A new node is put where no node of the list is. -/
structure Allocator where
  address : List Nat → Nat
  fresh : ∀ used, address used ∉ used

structure Lru
    (κ ν : Type*) where
  capacity : Nat
  list : List (Node κ ν) := []
  cache : Table κ Nat := ∅

namespace Lru

variable {κ ν : Type*} [DecidableEq κ]

def new
    (cap : Nat) : Lru κ ν where
  capacity := cap

/- The node at an iterator. -/
def deref
    (list : List (Node κ ν))
    (it : Nat) : Option (Node κ ν) :=
  list.find? (fun node => node.address = it)

/- The list without the node at an iterator. -/
def unlink
    (list : List (Node κ ν))
    (it : Nat) : List (Node κ ν) :=
  list.filter (fun node => node.address ≠ it)

/- `splice` of one node of the list to its front. -/
def splice
    (list : List (Node κ ν))
    (it : Nat) : Option (List (Node κ ν)) :=
  (deref list it).map fun node => node :: unlink list it

/- `it->second = v` -/
def assign
    (list : List (Node κ ν))
    (it : Nat)
    (v : ν) : Option (List (Node κ ν)) :=
  (deref list it).map fun _ =>
    list.map fun node =>
      if node.address = it then
        { node with second := v }
      else
        node

def get
    (s : Lru κ ν)
    (k : κ) : Option (Option ν × Lru κ ν) :=
  match s.cache.lookup k with
  | none => some (none, s)
  | some it => do
      let list ← splice s.list it
      let node ← deref list it
      some (some node.second, { s with list := list })

/- Make room for one more node. -/
def evict
    (s : Lru κ ν) : Option (Lru κ ν) :=
  if s.list.length = s.capacity then do
    let victim ← s.list.getLast?
    some
      { s with
        cache := s.cache.erase victim.first
        list := s.list.dropLast }
  else
    some s

def put
    (alloc : Allocator)
    (s : Lru κ ν)
    (k : κ)
    (v : ν) : Option (Lru κ ν) :=
  match s.cache.lookup k with
  | some it => do
      let list ← assign s.list it v
      let list ← splice list it
      some { s with list := list }
  | none => do
      let s ← s.evict
      let it := alloc.address (s.list.map Node.address)
      some
        { s with
          list := { address := it, first := k, second := v } ::
            s.list
          cache := s.cache.insert k it }

def erase
    (s : Lru κ ν)
    (k : κ) : Option (Lru κ ν) :=
  match s.cache.lookup k with
  | none => some s
  | some it => do
      let _ ← deref s.list it
      some
        { s with
          list := unlink s.list it
          cache := s.cache.erase k }

def step
    (alloc : Allocator)
    (s : Lru κ ν) :
    Recency.Call κ ν → Option (Option ν × Lru κ ν)
| .get k => s.get k
| .put k v => (s.put alloc k v).map fun s => (none, s)
| .erase k => (s.erase k).map fun s => (none, s)

/- The results of a list of calls and the last state. -/
def run
    (alloc : Allocator)
    (s : Lru κ ν) :
    List (Recency.Call κ ν) →
      Option (List (Option ν) × Lru κ ν)
| [] => some ([], s)
| call :: calls => do
    let (result, s) ← s.step alloc call
    let (results, s) ← run alloc s calls
    some (result :: results, s)

end Lru

end Inks
