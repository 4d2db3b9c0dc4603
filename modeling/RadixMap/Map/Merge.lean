import RadixMap.Map.Basic
import RadixMap.Trie.Graft

/-!
# Merges

The staged leaf of a map is brought into a trie, with a record of it.
-/
namespace RadixMap

namespace IntMap

variable {V : Type}

/-- The root with the staged leaf in the place of its target. -/
def mergedRoot (map : IntMap V) : Checked (Option (Trie V) × List Event) := do
  match map.root, map.diverged? with
  | some root, some staging =>
    let merged ← root.graft staging.block staging.overlay map.rootLevel
    return (some merged, [.mergedIntoRoot staging.block map.rootLevel])
  | root, _ => return (root, [])

/-- Brings the staged leaf of the map into `root`, the map's trie after a write at `address`, which
lies in another block. The two paths part at the level of the highest digit in which they differ;
the branch there was rebuilt by that write, and its child takes the graft. -/
def mergeBeside (map : IntMap V) (address : Address) (root : Trie V) :
    Checked (Trie V × List Event) := do
  let some staging := map.diverged? | return (root, [])
  let parting := Address.minLevel (address ^^^ staging.block)
  if 1 ≤ parting ∧ parting ≤ map.rootLevel then
    let merged? ← root.graftBelow? staging.block staging.overlay parting map.rootLevel
    return (merged?.getD root, [.mergedBeside staging.block parting address])
  else
    throw (.noParting address staging.block parting)

end IntMap

/-- The trie without the branches at its top that hold nothing but slot 0, its level, and a record
of the fall. -/
def Trie.lower {V : Type} (trie : Trie V) (level : Nat) : Nat × Trie V × List Event :=
  let (lowered, rest) := trie.collapse level
  (lowered, rest, if lowered = level then [] else [.collapsed level lowered])

end RadixMap
