import RadixMap.Event
import RadixMap.Trie.Basic

/-!
# Maps

Maps from signed 32-bit keys to values. A map is a trie and, beside it, the leaf of the block that
was written last. Writes to that block change the staged leaf only, and the trie keeps the leaf as it
was when the block came to be staged, its target, until a write elsewhere brings the staged leaf into
the trie. Reading takes the staged leaf in the place of the target.
-/
namespace RadixMap

/-- The block that was written last: its leaf in the trie, and its current leaf, which is another one
once there were writes that the trie does not have yet. -/
structure Staging (V : Type) where
  block : Address
  target : Leaf V
  leaf : Leaf V

namespace Staging

variable {V : Type}

/-- The staging of a leaf that the trie has as it is. -/
def settled (address : Address) (leaf : Leaf V) : Staging V :=
  ⟨address.block, leaf, leaf⟩

/-- Whether the trie lacks writes to the block. -/
def isDiverged (staging : Staging V) : Bool :=
  !staging.leaf.same staging.target

/-- The current leaf of the block in the place of the one that the trie has. -/
def overlay (staging : Staging V) : Overlay V :=
  ⟨staging.target, staging.leaf⟩

end Staging

structure IntMap (V : Type) where
  size : Nat
  /-- The level of the root; at level 0 the root is a leaf. -/
  rootLevel : Nat
  /-- There is no root if the map is empty. -/
  root : Option (Trie V)
  staging : Option (Staging V)
  /-- The number for the next leaf. Leaves of different maps are never compared, so the numbers have
  to tell the leaves of one map apart only. -/
  fresh : Nat

/-- A version of a map and the events of the write that made it. -/
structure Revision (V : Type) where
  map : IntMap V
  journal : List Event

/-- The revision after one more write, with the events of both. -/
def Revision.andThen {V : Type} (revision : Revision V)
    (write : IntMap V → Checked (Revision V)) : Checked (Revision V) := do
  let next ← write revision.map
  return ⟨next.map, revision.journal ++ next.journal⟩

namespace IntMap

variable {V : Type}

def empty : IntMap V :=
  ⟨0, 0, none, none, 0⟩

def isEmpty (map : IntMap V) : Bool :=
  map.size == 0

/-- The staging of the map if it is for the block of an address. -/
def stagingFor? (map : IntMap V) (address : Address) : Option (Staging V) :=
  map.staging.filter fun staging => staging.block = address.block

/-- The staging of the map if the trie lacks writes to its block. -/
def diverged? (map : IntMap V) : Option (Staging V) :=
  map.staging.filter Staging.isDiverged

/-- The staged leaf as far as the trie lacks it. -/
def overlay? (map : IntMap V) : Option (Overlay V) :=
  map.diverged?.map Staging.overlay

def get? (map : IntMap V) (key : Int32) : Checked (Option V) := do
  let address := Address.ofKey key
  match map.stagingFor? address, map.root with
  | some staging, _ => staging.leaf.node.get? (← address.slotAt 0)
  | none, some root =>
    if address.minLevel ≤ map.rootLevel then
      root.get? address map.rootLevel
    else
      return none
  | none, none => return none

def contains (map : IntMap V) (key : Int32) : Checked Bool :=
  (·.isSome) <$> map.get? key

/-- The keys with their values, in ascending order of the keys' addresses: negative keys come
last. -/
def entries (map : IntMap V) : Checked (List (Int32 × V)) := do
  match map.root with
  | some root =>
    let entries ← root.entries map.overlay? map.rootLevel 0
    return entries.map fun (address, value) => (address.toKey, value)
  | none => return []

/-- The keys with their values, sorted by the keys. -/
def sortedEntries (map : IntMap V) : Checked (List (Int32 × V)) := do
  return (← map.entries).mergeSort fun left right => left.1 ≤ right.1

/-- Whether two maps have the same keys with equal values: as many, and each entry of the one has its
equal in the other. -/
def equals [BEq V] (left right : IntMap V) : Checked Bool := do
  if left.size ≠ right.size then
    return false
  (← left.entries).allM fun (key, value) => do
    return (← right.get? key) == some value

end IntMap

end RadixMap
