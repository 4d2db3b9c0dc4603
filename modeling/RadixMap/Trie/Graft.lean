import RadixMap.Trie.Basic

/-!
# Grafts

The leaf of an overlay is put in the place of its target, to which the path of a block leads. `graft`
rebuilds the whole path; `graftBelow?` fills the place of the child at one branch of the path, and
gives up when the path does not lead there.
-/
namespace RadixMap.Trie

variable {V : Type}

/-- Puts the leaf of the overlay at the end of the path of a block, where its target must be. -/
def graft (block : Address) (overlay : Overlay V) : Nat → Trie V → Checked (Trie V)
  | _, leaf held =>
    if overlay.target.same held then .ok (leaf overlay.leaf) else .error .stagingUnlinked
  | 0, branch _ => .error .sunkenBranch
  | level + 1, branch node => do
    let slot ← block.slotAt (level + 1)
    match ← node.get? slot with
    | some child => return branch (← node.replace slot (← graft block overlay level child))
    | none => throw .stagingUnlinked

/-- Puts the leaf of the overlay in the place of its target, by way of the branch at level `parting`
on the path of the block. There is no result when the path has no branch at that level, or when that
branch has nothing for the block. -/
def graftBelow? (block : Address) (overlay : Overlay V) (parting : Nat) :
    Nat → Trie V → Checked (Option (Trie V))
  | _, leaf _ => .ok none
  | 0, branch _ => .ok none
  | level + 1, branch node => do
    let slot ← block.slotAt (level + 1)
    if level + 1 = parting then
      let some child ← node.get? slot | return none
      let grafted ← graft block overlay level child
      return some (branch (← node.set slot grafted))
    else
      let some (child, fill) ← node.focus? slot | return none
      let some grafted ← graftBelow? block overlay parting level child | return none
      return some (branch (fill grafted))

end RadixMap.Trie
