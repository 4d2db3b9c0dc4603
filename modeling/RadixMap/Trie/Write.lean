import RadixMap.Trie.Basic

/-!
# Writes to a trie

One value is put at an address, or taken from it. Only the nodes on the path of the address change,
and the leaf at its end becomes a new leaf, with the number that the write is given.
-/
namespace RadixMap

/-- What a write leaves: the trie, the leaf that was written, and whether a value came to be where
none was. -/
structure Written (V : Type) where
  trie : Trie V
  leaf : Leaf V
  added : Bool

/-- What an erasure leaves of a trie and of the leaf it touched. -/
structure Erased (V : Type) where
  trie? : Option (Trie V)
  leaf? : Option (Leaf V)

namespace Trie

variable {V : Type}

/-- The trie that holds one leaf only, on the path of an address. -/
def chain (address : Address) (bottom : Leaf V) : Nat → Checked (Trie V)
  | 0 => .ok (leaf bottom)
  | level + 1 => do
    return branch (.one (← address.slotAt (level + 1)) (← chain address bottom level))

/-- A trie at `level` with the leaf `bottom` on the path of an address and, at slot 0, the trie that
stood at `oldLevel` below. -/
def grow (address : Address) (bottom : Leaf V) (oldLevel level : Nat) :
    Option (Trie V) → Checked (Trie V)
  | some old => do
    let side ← chain address bottom (level - 1)
    let raised := old.lift (level - 1 - oldLevel)
    return branch (← (Node.one .origin raised).add (← address.slotAt level) side)
  | none => chain address bottom level

/-- Puts a value at an address, in a leaf numbered `fresh`. -/
def write (fresh : Nat) (address : Address) (value : V) : Nat → Trie V → Checked (Written V)
  | _, leaf held => do
    let (node, added) ← held.node.put (← address.slotAt 0) value
    return ⟨leaf ⟨fresh, node⟩, ⟨fresh, node⟩, added⟩
  | 0, branch _ => .error .sunkenBranch
  | level + 1, branch node => do
    let slot ← address.slotAt (level + 1)
    match ← node.get? slot with
    | some child =>
      let written ← write fresh address value level child
      return { written with trie := branch (← node.replace slot written.trie) }
    | none =>
      let bottom : Leaf V := ⟨fresh, .one (← address.slotAt 0) value⟩
      return ⟨branch (← node.add slot (← chain address bottom level)), bottom, true⟩

/-- Takes the value at an address away, or, when `whole` holds, all values of its block. What is left
of the leaf is a leaf numbered `fresh`; a branch that would be left empty goes too. There is no result
when there is nothing to take. -/
def erase? (fresh : Nat) (address : Address) (whole : Bool) :
    Nat → Trie V → Checked (Option (Erased V))
  | _, leaf held => do
    if whole then
      return some ⟨none, none⟩
    let slot ← address.slotAt 0
    let some _ ← held.node.get? slot | return none
    let rest? := (← held.node.remove slot).map fun rest => (⟨fresh, rest⟩ : Leaf V)
    return some ⟨rest?.map leaf, rest?⟩
  | 0, branch _ => .error .sunkenBranch
  | level + 1, branch node => do
    let slot ← address.slotAt (level + 1)
    let some child ← node.get? slot | return none
    let some erased ← erase? fresh address whole level child | return none
    let rest? ← node.update slot erased.trie?
    return some { erased with trie? := rest?.map branch }

end Trie

end RadixMap
