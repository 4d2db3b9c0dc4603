import Mathlib
import RadixMap.Trie.Basic
import RadixMap.Proofs.Digits
import RadixMap.Proofs.NodeTable

/-!
# The leaves of a trie

What a trie holds is told by the leaf on the path of each address. Lookups read that leaf, and two
well-formed tries with the same leaves are the same trie, so but for the numbers of its leaves a trie
keeps no trace of the order in which it was built.
-/

namespace RadixMap

@[simp]
theorem Leaf.same_self {V : Type} (leaf : Leaf V) : leaf.same leaf = true :=
  beq_self_eq_true leaf.serial

theorem Leaf.same_iff {V : Type} {left right : Leaf V} :
    left.same right = true ↔ left.serial = right.serial :=
  beq_iff_eq

/-- The values of a leaf, or of no leaf, by their slots. -/
def Leaf.tableOf {V : Type} (leaf? : Option (Leaf V)) : Table V :=
  Node.tableOf (leaf?.map Leaf.node)

/-- A leaf, or none, for each address; addresses of one block have the same. -/
abbrev Leaves (V : Type) := Address → Option (Leaf V)

namespace Leaves

variable {V : Type}

/-- The leaves with another leaf, or none, for the block of an address. -/
def update (leaves : Leaves V) (address : Address) (leaf? : Option (Leaf V)) : Leaves V :=
  fun other => if other.block = address.block then leaf? else leaves other

def find (leaves : Leaves V) (address : Address) : Option V :=
  (leaves address).bind fun leaf => leaf.node.find (address.digit 0)

/-- Some address has a leaf and needs a root of the level, unless the level is 0. -/
def Low (leaves : Leaves V) (level : Nat) : Prop :=
  level = 0 ∨ ∃ address leaf, address.minLevel = level ∧ leaves address = some leaf

theorem update_of_block_eq {leaves : Leaves V} {address other : Address}
    (hblock : other.block = address.block) (leaf? : Option (Leaf V)) :
    leaves.update address leaf? other = leaf? :=
  if_pos hblock

theorem update_of_block_ne {leaves : Leaves V} {address other : Address}
    (hblock : other.block ≠ address.block) (leaf? : Option (Leaf V)) :
    leaves.update address leaf? other = leaves other :=
  if_neg hblock

theorem update_update (leaves : Leaves V) (address : Address) (first? second? : Option (Leaf V)) :
    (leaves.update address first?).update address second? = leaves.update address second? := by
  funext other
  by_cases hblock : other.block = address.block
  · rw [update_of_block_eq hblock, update_of_block_eq hblock]
  · rw [update_of_block_ne hblock, update_of_block_ne hblock, update_of_block_ne hblock]

theorem update_comm (leaves : Leaves V) {left right : Address} (hne : left.block ≠ right.block)
    (first? second? : Option (Leaf V)) :
    (leaves.update left first?).update right second? =
      (leaves.update right second?).update left first? := by
  funext other
  by_cases hleft : other.block = left.block
  · rw [update_of_block_ne (hleft ▸ hne), update_of_block_eq hleft, update_of_block_eq hleft]
  · rw [update_of_block_ne hleft]
    by_cases hright : other.block = right.block
    · rw [update_of_block_eq hright, update_of_block_eq hright]
    · rw [update_of_block_ne hright, update_of_block_ne hright, update_of_block_ne hleft]

theorem update_block (leaves : Leaves V) (address : Address) (leaf? : Option (Leaf V)) :
    leaves.update address.block leaf? = leaves.update address leaf? := by
  funext other
  rw [update, update, Address.block_block]

end Leaves

namespace Trie

variable {V : Type}

/-- Leaves stand at level 0 and branches above it, and every node is well formed. The digit of the
highest level has two bits, so a branch there uses four slots at most. -/
def WellFormed : Nat → Trie V → Prop
  | 0, leaf held => held.node.WellFormed
  | level + 1, branch node =>
    node.WellFormed ∧
      (level + 1 = Address.maxLevel → ∀ slot child, node.find slot = some child → slot.val ≤ 3) ∧
      ∀ slot child, node.find slot = some child → child.WellFormed level
  | 0, branch _ => False
  | _ + 1, leaf _ => False

def leafOn (address : Address) : Nat → Trie V → Option (Leaf V)
  | _, leaf held => some held
  | 0, branch _ => none
  | level + 1, branch node =>
    (node.find (address.digit (level + 1))).bind fun child => child.leafOn address level

/-- The leaves of a trie, for the addresses that its level reaches. -/
def leaves (level : Nat) (root? : Option (Trie V)) : Leaves V :=
  fun address =>
    if address.minLevel ≤ level then root?.bind fun root => root.leafOn address level else none

theorem WellFormed.eq_leaf {trie : Trie V} (hwf : trie.WellFormed 0) :
    ∃ held, trie = leaf held ∧ held.node.WellFormed := by
  cases trie with
  | leaf held => exact ⟨held, rfl, hwf⟩
  | branch node => cases hwf

theorem WellFormed.eq_branch {level : Nat} {trie : Trie V} (hwf : trie.WellFormed (level + 1)) :
    ∃ node, trie = branch node ∧ node.WellFormed ∧
      (level + 1 = Address.maxLevel → ∀ slot child, node.find slot = some child → slot.val ≤ 3) ∧
      ∀ slot child, node.find slot = some child → child.WellFormed level := by
  cases trie with
  | leaf node => cases hwf
  | branch node => exact ⟨node, rfl, hwf⟩

theorem leafOn_branch_of_find {node : Node (Trie V)} {address : Address} {level : Nat}
    {child : Trie V} (hfind : node.find (address.digit (level + 1)) = some child) :
    (branch node).leafOn address (level + 1) = child.leafOn address level := by
  rw [leafOn, hfind, Option.bind_some]

theorem leafOn_branch_of_free {node : Node (Trie V)} {address : Address} {level : Nat}
    (hfind : node.find (address.digit (level + 1)) = none) :
    (branch node).leafOn address (level + 1) = none := by
  rw [leafOn, hfind, Option.bind_none]

theorem leafAt?_eq {level : Nat} {trie : Trie V} (address : Address) (hwf : trie.WellFormed level)
    (hlevel : level ≤ Address.maxLevel) :
    trie.leafAt? address level = .ok (trie.leafOn address level) := by
  induction level generalizing trie with
  | zero =>
      obtain ⟨held, rfl, -⟩ := hwf.eq_leaf
      rfl
  | succ level ih =>
      obtain ⟨node, rfl, hnode, -, hchildren⟩ := hwf.eq_branch
      rw [leafAt?, Address.slotAt_eq address hlevel, leafOn]
      change (node.get? (address.digit (level + 1)) >>= _) = _
      rw [hnode.stores.get?_eq]
      cases hfind : node.find (address.digit (level + 1)) with
      | none => rfl
      | some child => exact ih (hchildren _ child hfind) (by omega)

theorem WellFormed.leafOn {level : Nat} {trie : Trie V} {address : Address} {leaf : Leaf V}
    (hwf : trie.WellFormed level) (hleaf : trie.leafOn address level = some leaf) :
    leaf.node.WellFormed := by
  induction level generalizing trie with
  | zero =>
      obtain ⟨held, rfl, hheld⟩ := hwf.eq_leaf
      cases hleaf
      exact hheld
  | succ level ih =>
      obtain ⟨branch, rfl, -, -, hchildren⟩ := hwf.eq_branch
      cases hfind : branch.find (address.digit (level + 1)) with
      | none =>
          rw [leafOn_branch_of_free hfind] at hleaf
          cases hleaf
      | some child =>
          rw [leafOn_branch_of_find hfind] at hleaf
          exact ih (hchildren _ child hfind) hleaf

theorem get?_eq {level : Nat} {trie : Trie V} (address : Address) (hwf : trie.WellFormed level)
    (hlevel : level ≤ Address.maxLevel) :
    trie.get? address level =
      .ok ((trie.leafOn address level).bind fun leaf => leaf.node.find (address.digit 0)) := by
  rw [get?, leafAt?_eq address hwf hlevel]
  cases hleaf : trie.leafOn address level with
  | none => rfl
  | some leaf =>
      change (address.slotAt 0 >>= fun slot => leaf.node.get? slot) = _
      rw [Address.slotAt_zero]
      exact (hwf.leafOn hleaf).stores.get?_eq _

theorem leafOn_congr {left right : Address} {level : Nat} {trie : Trie V}
    (hpath : left.SamePath right level) : trie.leafOn left level = trie.leafOn right level := by
  induction level generalizing trie with
  | zero => cases trie <;> rfl
  | succ level ih =>
      cases trie with
      | leaf held => rfl
      | branch node =>
          obtain ⟨hdigit, hbelow⟩ := hpath
          rw [leafOn, leafOn, hdigit]
          cases node.find (right.digit (level + 1)) with
          | none => rfl
          | some child => exact ih hbelow

theorem WellFormed.exists_address {level : Nat} {node : Node (Trie V)} {slot : Slot}
    {child : Trie V} {address : Address} (hwf : (branch node).WellFormed (level + 1))
    (hlevel : level + 1 ≤ Address.maxLevel) (hfind : node.find slot = some child)
    (hmin : address.minLevel ≤ level) :
    ∃ longer : Address, longer.minLevel ≤ level + 1 ∧ longer.digit (level + 1) = slot ∧
      longer.SamePath address level ∧
      (branch node).leafOn longer (level + 1) = child.leafOn address level := by
  obtain ⟨longer, hreach, hdigit, hpath⟩ :=
    Address.exists_digit hlevel hmin fun htop => hwf.2.1 htop slot child hfind
  refine ⟨longer, hreach, hdigit, hpath, ?_⟩
  rw [leafOn_branch_of_find (hdigit ▸ hfind), leafOn_congr hpath]

theorem WellFormed.exists_leaf {level : Nat} {trie : Trie V} (hwf : trie.WellFormed level)
    (hlevel : level ≤ Address.maxLevel) :
    ∃ address leaf, address.minLevel ≤ level ∧ trie.leafOn address level = some leaf := by
  induction level generalizing trie with
  | zero =>
      obtain ⟨held, rfl, -⟩ := hwf.eq_leaf
      exact ⟨0, held, by decide, rfl⟩
  | succ level ih =>
      obtain ⟨node, rfl, hnode, -, hchildren⟩ := hwf.eq_branch
      obtain ⟨slot, child, hfind⟩ := hnode.stores.exists_slot
      obtain ⟨address, held, hmin, hleaf⟩ := ih (hchildren slot child hfind) (by omega)
      obtain ⟨longer, hreach, -, -, hsame⟩ := hwf.exists_address hlevel hfind hmin
      exact ⟨longer, held, hreach, hsame.trans hleaf⟩

private theorem find_eq_of_leafOn_eq {level : Nat} {left right : Node (Trie V)}
    (hleft : (branch left).WellFormed (level + 1)) (hright : (branch right).WellFormed (level + 1))
    (hlevel : level + 1 ≤ Address.maxLevel)
    (hleaves : ∀ address : Address, address.minLevel ≤ level + 1 →
      (branch left).leafOn address (level + 1) = (branch right).leafOn address (level + 1))
    (hext : ∀ trie other : Trie V, trie.WellFormed level → other.WellFormed level →
      (∀ address : Address, address.minLevel ≤ level →
        trie.leafOn address level = other.leafOn address level) → trie = other)
    {slot : Slot} {child : Trie V} (hfind : left.find slot = some child) :
    right.find slot = some child := by
  have hchild := hleft.2.2 slot child hfind
  cases hother : right.find slot with
  | none =>
      obtain ⟨address, leaf, hmin, hleaf⟩ := hchild.exists_leaf (by omega)
      obtain ⟨longer, hreach, hdigit, -, hsame⟩ := hleft.exists_address hlevel hfind hmin
      have hboth := hleaves longer hreach
      rw [hsame, leafOn_branch_of_free (hdigit ▸ hother), hleaf] at hboth
      cases hboth
  | some other =>
      rw [hext other child (hright.2.2 slot other hother) hchild]
      intro address hmin
      obtain ⟨longer, hreach, hdigit, hpath, hsame⟩ := hleft.exists_address hlevel hfind hmin
      have hboth := hleaves longer hreach
      rw [hsame, leafOn_branch_of_find (hdigit ▸ hother), leafOn_congr hpath] at hboth
      exact hboth.symm

/-- **Leaves determine the trie.** Two well-formed tries of one level that have the same leaf on every
path are the same trie. -/
theorem WellFormed.ext {level : Nat} {trie other : Trie V} (hwf : trie.WellFormed level)
    (hother : other.WellFormed level) (hlevel : level ≤ Address.maxLevel)
    (hleaves : ∀ address : Address, address.minLevel ≤ level →
      trie.leafOn address level = other.leafOn address level) : trie = other := by
  induction level generalizing trie other with
  | zero =>
      obtain ⟨leaf, rfl, -⟩ := hwf.eq_leaf
      obtain ⟨held, rfl, -⟩ := hother.eq_leaf
      rw [Option.some.inj (hleaves 0 (by decide))]
  | succ level ih =>
      obtain ⟨left, rfl, hleft, -, -⟩ := hwf.eq_branch
      obtain ⟨right, rfl, hright, -, -⟩ := hother.eq_branch
      have hext : ∀ trie other : Trie V, trie.WellFormed level → other.WellFormed level →
          (∀ address : Address, address.minLevel ≤ level →
            trie.leafOn address level = other.leafOn address level) → trie = other :=
        fun trie other htrie hother hsame => ih htrie hother (by omega) hsame
      congr 1
      apply hleft.ext hright
      funext slot
      cases hfind : left.find slot with
      | some child => exact (find_eq_of_leafOn_eq hwf hother hlevel hleaves hext hfind).symm
      | none =>
          cases hheld : right.find slot with
          | none => rfl
          | some child =>
              have hsymm := find_eq_of_leafOn_eq hother hwf hlevel
                (fun address hmin => (hleaves address hmin).symm) hext hheld
              rw [hfind] at hsymm
              exact hsymm

/-! ### Leaves within reach -/

theorem leaves_of_reach {level : Nat} {root? : Option (Trie V)} {address : Address}
    (hmin : address.minLevel ≤ level) :
    leaves level root? address = root?.bind fun root => root.leafOn address level :=
  if_pos hmin

theorem leaves_of_not_reach {level : Nat} {root? : Option (Trie V)} {address : Address}
    (hmin : level < address.minLevel) : leaves level root? address = none :=
  if_neg (Nat.not_le.mpr hmin)

/-- A change of one path within reach changes the leaf of one block. -/
theorem leaves_eq_update {level : Nat} {before after : Option (Trie V)} {address : Address}
    {leaf? : Option (Leaf V)} (hmin : address.minLevel ≤ level)
    (hchange : ∀ other : Address, (after.bind fun root => root.leafOn other level) =
      if other.SamePath address level then leaf?
      else before.bind fun root => root.leafOn other level) :
    leaves level after = (leaves level before).update address leaf? := by
  funext other
  by_cases hother : other.minLevel ≤ level
  · rw [leaves_of_reach hother, hchange, Leaves.update, leaves_of_reach hother]
    by_cases hblock : other.block = address.block
    · rw [if_pos hblock, if_pos ((Address.samePath_iff_block hother hmin).mpr hblock)]
    · rw [if_neg hblock, if_neg fun hpath =>
        hblock ((Address.samePath_iff_block hother hmin).mp hpath)]
  · have hblock : other.block ≠ address.block := by
      intro hblock
      rw [← Address.minLevel_congr hblock] at hmin
      exact hother hmin
    rw [Leaves.update_of_block_ne hblock, leaves_of_not_reach (Nat.not_le.mp hother),
      leaves_of_not_reach (Nat.not_le.mp hother)]

theorem leaves_congr {level : Nat} {root? : Option (Trie V)} {left right : Address}
    (hblock : left.block = right.block) : leaves level root? left = leaves level root? right := by
  have hmin := Address.minLevel_congr hblock
  by_cases hleft : left.minLevel ≤ level
  · have hright : right.minLevel ≤ level := hmin ▸ hleft
    rw [leaves_of_reach hleft, leaves_of_reach hright]
    cases root? with
    | none => rfl
    | some root => exact leafOn_congr ((Address.samePath_iff_block hleft hright).mpr hblock)
  · rw [leaves_of_not_reach (Nat.not_le.mp hleft),
      leaves_of_not_reach (Nat.not_le.mp (hmin ▸ hleft))]

end Trie

end RadixMap
