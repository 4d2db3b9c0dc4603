import RadixMap.Map.Merge
import RadixMap.Trie.Write

/-!
# Writes to a map

A key is given a value, or taken out. Each write returns a new version beside the events that it
caused. The leaf that a write makes gets the number `fresh` of the map.
-/
namespace RadixMap.IntMap

variable {V : Type}

/-- Raises the root to `level`, from which it reaches `address`, and puts the value there. -/
def insertGrowing (map : IntMap V) (address : Address) (value : V) (level : Nat) :
    Checked (Revision V) := do
  let leaf : Leaf V := ⟨map.fresh, .one (← address.slotAt 0) value⟩
  let (oldRoot?, merges) ← map.mergedRoot
  let root ← Trie.grow address leaf map.rootLevel level oldRoot?
  return {
    map := ⟨map.size + 1, level, some root, some (.settled address leaf), map.fresh + 1⟩
    journal := .grew map.rootLevel level address :: merges }

/-- Puts the value at an address that the root reaches. -/
def insertWithin (map : IntMap V) (address : Address) (value : V) : Checked (Revision V) := do
  match map.root with
  | some root =>
    let written ← root.write map.fresh address value map.rootLevel
    let (merged, merges) ← map.mergeBeside address written.trie
    return {
      map := ⟨map.size + written.added.toNat, map.rootLevel, some merged,
        some (.settled address written.leaf), map.fresh + 1⟩
      journal := merges }
  | none =>
    let leaf : Leaf V := ⟨map.fresh, .one (← address.slotAt 0) value⟩
    return {
      map := ⟨1, 0, some (.leaf leaf), some (.settled address leaf), map.fresh + 1⟩
      journal := [] }

/-- A new leaf takes the place of the staged one; the trie keeps the target. -/
def withStaged (map : IntMap V) (size : Nat) (staging : Staging V) (node : Node V) : IntMap V :=
  { map with size, staging := some { staging with leaf := ⟨map.fresh, node⟩ }, fresh := map.fresh + 1 }

/-- Gives a key a value, whether or not it had one. -/
def insert (map : IntMap V) (key : Int32) (value : V) : Checked (Revision V) := do
  let address := Address.ofKey key
  match map.stagingFor? address with
  | some staging =>
    let (node, added) ← staging.leaf.node.put (← address.slotAt 0) value
    return { map := map.withStaged (map.size + added.toNat) staging node, journal := [] }
  | none =>
    let level := address.minLevel
    if map.rootLevel < level then
      map.insertGrowing address value level
    else
      map.insertWithin address value

/-- The number of values of a map after one of them is taken. -/
def sizeLess (map : IntMap V) : Checked Nat :=
  if map.size = 0 then .error .sizeUnderflow else .ok (map.size - 1)

/-- Takes an address out of the trie, or, when `whole` holds, its block, which is how the staged
block goes when its last key is taken. -/
def removeFromTrie (map : IntMap V) (address : Address) (whole : Bool) :
    Checked (Revision V) := do
  if map.rootLevel < address.minLevel then
    return ⟨map, []⟩
  let some root := map.root | return ⟨map, []⟩
  let some erased ← root.erase? map.fresh address whole map.rootLevel | return ⟨map, []⟩
  let some rest := erased.trie? | return ⟨empty, []⟩
  let (merged, merges) ← (if whole then .ok (rest, []) else map.mergeBeside address rest)
  let (level, root, collapses) := merged.lower map.rootLevel
  return {
    map := ⟨← map.sizeLess, level, some root, erased.leaf?.map (.settled address), map.fresh + 1⟩
    journal := merges ++ collapses }

/-- Takes a key out; a map without the key stays as it is. -/
def remove (map : IntMap V) (key : Int32) : Checked (Revision V) := do
  let address := Address.ofKey key
  match map.stagingFor? address with
  | some staging =>
    let slot ← address.slotAt 0
    let some _ ← staging.leaf.node.get? slot | return ⟨map, []⟩
    match ← staging.leaf.node.remove slot with
    | some node => return { map := map.withStaged (← map.sizeLess) staging node, journal := [] }
    | none => map.removeFromTrie address true
  | none => map.removeFromTrie address false

/-- Gives a key a value, or takes the key out when there is none. -/
def set (map : IntMap V) (key : Int32) : Option V → Checked (Revision V)
  | some value => map.insert key value
  | none => map.remove key

/-- Inserts entries one after another. -/
def insertAll (map : IntMap V) (entries : List (Int32 × V)) : Checked (Revision V) :=
  entries.foldlM
    (fun revision (key, value) => revision.andThen fun map => map.insert key value) ⟨map, []⟩

def ofList (entries : List (Int32 × V)) : Checked (Revision V) :=
  empty.insertAll entries

def singleton (key : Int32) (value : V) : Checked (Revision V) :=
  empty.insert key value

end RadixMap.IntMap
