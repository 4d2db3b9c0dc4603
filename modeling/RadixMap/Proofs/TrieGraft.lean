import Mathlib
import RadixMap.Proofs.TrieWrite

/-!
# Grafting a leaf

A graft puts the leaf of an overlay in the place of its target, to which the path of the block has to
lead. The graft by way of a branch on the path gives the same trie as the graft that rebuilds the
whole path, at whatever level the branch stands.
-/

namespace RadixMap.Trie

open Address

variable {V : Type} {level : Nat} {trie : Trie V} {block : Address} {overlay : Overlay V}

theorem graft_ok (hwf : trie.WellFormed level) (hlevel : level ≤ maxLevel)
    (hleaf : overlay.leaf.node.WellFormed) (htarget : trie.leafOn block level = some overlay.target) :
    ∃ grafted, trie.graft block overlay level = .ok grafted ∧ grafted.WellFormed level ∧
      ∀ other : Address, grafted.leafOn other level =
        if other.SamePath block level then some overlay.leaf else trie.leafOn other level := by
  induction level generalizing trie with
  | zero =>
      obtain ⟨held, rfl, -⟩ := hwf.eq_leaf
      cases htarget
      refine ⟨leaf overlay.leaf, ?_, hleaf, fun other => rfl⟩
      rw [graft, if_pos overlay.target.same_self]
  | succ level ih =>
      obtain ⟨node, rfl, hnode, hfits⟩ := hwf.eq_branch
      have hstores := hnode.stores
      cases hfind : node.find (block.digit (level + 1)) with
      | none =>
          rw [leafOn_branch_of_free hfind] at htarget
          cases htarget
      | some child =>
          rw [leafOn_branch_of_find hfind] at htarget
          obtain ⟨grafted, hgraft, hchild, hpaths⟩ := ih (hfits.2 _ child hfind) (by omega) htarget
          obtain ⟨replaced, hreplace, hreplaced⟩ := hstores.replace_ok hfind grafted
          refine ⟨branch replaced, ?_,
            branch_update hstores hfits hchild hreplaced (by rw [hfind]; exact hpaths)⟩
          simp only [graft, slotAt_eq block hlevel, hstores.get?_eq, hfind, hgraft, hreplace,
            Checked.ok_bind, Checked.pure_eq]

/-- At the branch of the parting and above it the child is changed in place, below it by copies, and
both are the replacement of a child. -/
theorem graftBelow?_eq_graft {parting : Nat} (hwf : trie.WellFormed level) (hlevel : level ≤ maxLevel)
    (htarget : trie.leafOn block level = some overlay.target) (hpos : 1 ≤ parting) (hle : parting ≤ level) :
    trie.graftBelow? block overlay parting level = some <$> trie.graft block overlay level := by
  induction level generalizing trie with
  | zero => omega
  | succ level ih =>
      obtain ⟨node, rfl, hnode, hfits⟩ := hwf.eq_branch
      have hstores := hnode.stores
      cases hfind : node.find (block.digit (level + 1)) with
      | none =>
          rw [leafOn_branch_of_free hfind] at htarget
          cases htarget
      | some child =>
          rw [leafOn_branch_of_find hfind] at htarget
          by_cases hhere : level + 1 = parting
          · simp only [graftBelow?, graft, slotAt_eq block hlevel, if_pos hhere, hstores.get?_eq,
              hfind, hstores.set_eq_replace hfind, Checked.ok_bind, Checked.pure_eq]
            cases child.graft block overlay level with
            | error fault => rfl
            | ok grafted =>
                simp only [Checked.ok_bind]
                cases node.replace (block.digit (level + 1)) grafted <;> rfl
          · obtain ⟨fill, hfocus, hreplace⟩ := hstores.focus?_replace hfind
            have hchild := ih (hfits.2 _ child hfind) (by omega) htarget (by omega)
            simp only [graftBelow?, graft, slotAt_eq block hlevel, if_neg hhere, hfocus,
              hstores.get?_eq, hfind, hchild, Checked.ok_bind, Checked.pure_eq]
            cases child.graft block overlay level with
            | error fault => rfl
            | ok grafted => simp only [Checked.map_ok, Checked.ok_bind, hreplace]

theorem graftBelow?_ok {parting : Nat} (hwf : trie.WellFormed level) (hlevel : level ≤ maxLevel)
    (hleaf : overlay.leaf.node.WellFormed) (htarget : trie.leafOn block level = some overlay.target)
    (hpos : 1 ≤ parting) (hle : parting ≤ level) :
    ∃ grafted, trie.graftBelow? block overlay parting level = .ok (some grafted) ∧
      grafted.WellFormed level ∧
      ∀ other : Address, grafted.leafOn other level =
        if other.SamePath block level then some overlay.leaf else trie.leafOn other level := by
  obtain ⟨grafted, hgraft, hgrafted⟩ := graft_ok hwf hlevel hleaf htarget
  refine ⟨grafted, ?_, hgrafted⟩
  rw [graftBelow?_eq_graft hwf hlevel htarget hpos hle, hgraft, Checked.map_ok]

/-- The two tries differ in the leaf of a block alone: every branch on the path of the block has the
same form, the same slots and the same other children in both. -/
def Relinked (block : Address) (old new : Leaf V) : Nat → Trie V → Trie V → Prop
  | 0, leaf before, leaf after => before = old ∧ after = new
  | level + 1, branch before, branch after =>
    after.kind = before.kind ∧ after.occupancy = before.occupancy ∧
      ∃ slot, block.slotAt (level + 1) = .ok slot ∧
        (∀ other, other ≠ slot → after.get? other = before.get? other) ∧
        ∃ child changed, before.get? slot = .ok (some child) ∧ after.get? slot = .ok (some changed) ∧
          Relinked block old new level child changed
  | _, _, _ => False

theorem relinked_branch {old new : Leaf V} {node : Node (Trie V)} {table : Table (Trie V)} {child changed : Trie V}
    (hlevel : level + 1 ≤ maxLevel) (hnode : node.Stores table)
    (hslot : table (block.digit (level + 1)) = some child)
    (hchild : Relinked block old new level child changed) :
    Relinked block old new (level + 1) (branch node)
      (branch (node.withElements
        (table.update (block.digit (level + 1)) (some changed)).elements)) := by
  have hreplaced := hnode.withElements (hnode.marks.replaced hslot changed)
  refine ⟨Node.kind_withElements node _, Node.occupancy_withElements node _,
    block.digit (level + 1), slotAt_eq block hlevel, ?others, child, changed, ?before, ?after, hchild⟩
  case others =>
    intro other hne
    rw [hreplaced.get?_eq, hnode.get?_eq, Table.update_of_ne hne]
  case before => rw [hnode.get?_eq, hslot]
  case after => rw [hreplaced.get?_eq, Table.update_self]

theorem graft_relinked (hwf : trie.WellFormed level) (hlevel : level ≤ maxLevel)
    (htarget : trie.leafOn block level = some overlay.target) :
    ∃ grafted, trie.graft block overlay level = .ok grafted ∧
      Relinked block overlay.target overlay.leaf level trie grafted := by
  induction level generalizing trie with
  | zero =>
      obtain ⟨held, rfl, -⟩ := hwf.eq_leaf
      cases htarget
      refine ⟨leaf overlay.leaf, ?_, rfl, rfl⟩
      rw [graft, if_pos overlay.target.same_self]
  | succ level ih =>
      obtain ⟨node, rfl, hnode, hfits⟩ := hwf.eq_branch
      have hstores := hnode.stores
      cases hfind : node.find (block.digit (level + 1)) with
      | none =>
          rw [leafOn_branch_of_free hfind] at htarget
          cases htarget
      | some child =>
          rw [leafOn_branch_of_find hfind] at htarget
          obtain ⟨grafted, hgraft, hchild⟩ := ih (hfits.2 _ child hfind) (by omega) htarget
          refine ⟨branch _, ?_, relinked_branch hlevel hstores hfind hchild⟩
          simp only [graft, slotAt_eq block hlevel, hstores.get?_eq, hfind, hgraft,
            hstores.replace_eq hfind, Checked.ok_bind, Checked.pure_eq]

end RadixMap.Trie
