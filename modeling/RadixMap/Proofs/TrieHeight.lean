import Mathlib
import RadixMap.Proofs.TrieWrite

/-!
# The height of a trie

A branch that holds nothing but slot 0 raises a trie by a level without a change to the leaves within
reach, so such branches are put on top when the root has to rise and taken off when it can sink. A
trie that has none on top reaches no further than its highest address needs.
-/

namespace RadixMap.Trie

open Address

variable {V : Type} {level : Nat} {trie : Trie V}

theorem wellFormed_raised (hwf : trie.WellFormed level) :
    (branch (.one .origin trie)).WellFormed (level + 1) := by
  apply wellFormed_branch (Node.stores_one .origin trie)
  constructor
  · intro _ slot child hslot
    by_cases heq : slot = Slot.origin
    · rw [heq]
      exact Nat.zero_le 3
    · rw [Table.single_of_ne heq] at hslot
      cases hslot
  · intro slot child hslot
    by_cases heq : slot = Slot.origin
    · rw [heq, Table.single, Table.update_self] at hslot
      cases hslot
      exact hwf
    · rw [Table.single_of_ne heq] at hslot
      cases hslot

/-- A branch with nothing but slot 0 adds no leaf and hides none. -/
theorem leaves_raised {node : Node (Trie V)} (hstores : node.Stores (Table.single .origin trie)) :
    leaves (level + 1) (some (branch node)) = leaves level (some trie) := by
  funext address
  by_cases hreach : address.minLevel ≤ level
  · rw [leaves_of_reach hreach, leaves_of_reach (by omega), Option.bind_some, Option.bind_some,
      leafOn_branch hstores, leafThrough, digit_eq_zero_of_minLevel_lt (by omega), Table.single,
      Table.update_self, Option.bind_some]
  · rw [leaves_of_not_reach (Nat.not_le.mp hreach)]
    by_cases hnext : address.minLevel ≤ level + 1
    · have hdigit : address.digit (level + 1) ≠ Slot.origin := by
        rw [show level + 1 = address.minLevel by omega]
        exact digit_minLevel_ne_zero (by omega)
      rw [leaves_of_reach hnext, Option.bind_some, leafOn_branch hstores, leafThrough,
        Table.single_of_ne hdigit, Option.bind_none]
    · rw [leaves_of_not_reach (Nat.not_le.mp hnext)]

theorem lift_spec (hwf : trie.WellFormed level) (levels : Nat) :
    (trie.lift levels).WellFormed (level + levels) ∧
      leaves (level + levels) (some (trie.lift levels)) = leaves level (some trie) := by
  induction levels with
  | zero => exact ⟨hwf, rfl⟩
  | succ levels ih =>
      refine ⟨wellFormed_raised ih.1, ?_⟩
      rw [lift, ← add_assoc, leaves_raised (Node.stores_one _ _), ih.2]

/-- The root rises to reach an address, with the new leaf on its path and the old trie at slot 0. -/
theorem grow_ok {address : Address} {bottom : Leaf V} {oldLevel : Nat} {old? : Option (Trie V)}
    (hbottom : bottom.node.WellFormed) (hlt : oldLevel < address.minLevel)
    (hold : ∀ old, old? = some old → old.WellFormed oldLevel) :
    ∃ root, grow address bottom oldLevel address.minLevel old? = .ok root ∧
      root.WellFormed address.minLevel ∧
      leaves address.minLevel (some root) =
        (leaves oldLevel old?).update address (some bottom) := by
  have hmax := address.minLevel_le_maxLevel
  obtain ⟨below, hbelow⟩ : ∃ below, address.minLevel = below + 1 := ⟨address.minLevel - 1, by omega⟩
  rw [hbelow] at hlt hmax
  cases old? with
  | none =>
      obtain ⟨root, hchain, hroot, hpaths⟩ := chain_ok address hbottom hmax
      rw [hbelow]
      have hnone : leaves oldLevel (none : Option (Trie V)) = leaves (below + 1) none := by
        funext other
        simp [leaves]
      refine ⟨root, hchain, hroot, ?_⟩
      rw [hnone]
      exact leaves_eq_update hbelow.le hpaths
  | some old =>
      obtain ⟨hlift, hleaves⟩ := lift_spec (hold old rfl) (below - oldLevel)
      rw [Nat.add_sub_cancel' (Nat.lt_succ_iff.mp hlt)] at hlift hleaves
      obtain ⟨side, hchain, hside, hpaths⟩ := chain_ok address hbottom (show below ≤ _ by omega)
      have hraised := Node.stores_one Slot.origin (old.lift (below - oldLevel))
      have hdigit : address.digit (below + 1) ≠ Slot.origin := by
        rw [← hbelow]
        exact digit_minLevel_ne_zero (by omega)
      have hfree := Table.single_of_ne hdigit (old.lift (below - oldLevel))
      obtain ⟨top, hadd, htop⟩ := hraised.add_ok hfree side
      have hfits : Fits below (Table.single .origin (old.lift (below - oldLevel))) := by
        rw [← hraised.find_eq]
        exact (wellFormed_raised hlift).2
      obtain ⟨hwf, hpaths⟩ := branch_update hraised hfits hside htop (by rw [hfree]; exact hpaths)
      rw [hbelow]
      refine ⟨branch top, ?_, hwf, ?_⟩
      · simp only [grow, Nat.add_sub_cancel, hchain, slotAt_eq address hmax, hadd, Checked.ok_bind,
          Checked.pure_eq]
      · rw [← hleaves, ← leaves_raised hraised]
        exact leaves_eq_update hbelow.le hpaths

/-! ### Sinking the root -/

theorem low_of_origin?_eq_none (hwf : trie.WellFormed level) (hlevel : level ≤ maxLevel)
    (horigin : trie.origin? = none) : (leaves level (some trie)).Low level := by
  cases level with
  | zero => exact Or.inl rfl
  | succ level =>
      right
      obtain ⟨node, rfl, hnode, hfits⟩ := hwf.eq_branch
      obtain ⟨slot, child, hne, hfind⟩ := hnode.stores.origin?_eq_none horigin
      obtain ⟨address, held, hmin, hleaf⟩ := (hfits.2 slot child hfind).exists_leaf (by omega)
      obtain ⟨longer, hreach, hdigit, -, hsame⟩ := hwf.exists_address hlevel hfind hmin
      refine ⟨longer, held, ?_, ?_⟩
      · apply le_antisymm hreach
        by_contra hlow
        rw [digit_eq_zero_of_minLevel_lt (by omega)] at hdigit
        exact hne hdigit.symm
      · rw [leaves_of_reach hreach, Option.bind_some, hsame, hleaf]

theorem collapse_le (level : Nat) (trie : Trie V) : (trie.collapse level).1 ≤ level := by
  induction level generalizing trie with
  | zero => exact le_rfl
  | succ level ih =>
      unfold collapse
      cases trie.origin? with
      | none => exact le_rfl
      | some child => exact (ih child).trans (Nat.le_succ level)

theorem collapse_spec (hwf : trie.WellFormed level) (hlevel : level ≤ maxLevel) :
    (trie.collapse level).2.WellFormed (trie.collapse level).1 ∧
      leaves (trie.collapse level).1 (some (trie.collapse level).2) = leaves level (some trie) ∧
      (leaves level (some trie)).Low (trie.collapse level).1 := by
  induction level generalizing trie with
  | zero => exact ⟨hwf, rfl, Or.inl rfl⟩
  | succ level ih =>
      cases horigin : trie.origin? with
      | none =>
          rw [collapse, horigin]
          exact ⟨hwf, rfl, low_of_origin?_eq_none hwf hlevel horigin⟩
      | some child =>
          obtain ⟨node, rfl, hnode, hfits⟩ := hwf.eq_branch
          have htable := hnode.stores.origin?_eq_some horigin
          have hstores : node.Stores (Table.single .origin child) := htable ▸ hnode.stores
          have hchild : child.WellFormed level := by
            apply hfits.2 Slot.origin
            rw [htable, Table.single, Table.update_self]
          have hcollapse : (branch node).collapse (level + 1) = child.collapse level := by
            rw [collapse, horigin]
          rw [hcollapse, leaves_raised hstores]
          exact ih hchild (by omega)

theorem collapse_of_low (hwf : trie.WellFormed level)
    (hlow : (leaves level (some trie)).Low level) : trie.collapse level = (level, trie) := by
  cases level with
  | zero => rfl
  | succ level =>
      cases horigin : trie.origin? with
      | none => rw [collapse, horigin]
      | some child =>
          obtain ⟨node, rfl, hnode, -⟩ := hwf.eq_branch
          have htable := hnode.stores.origin?_eq_some horigin
          rw [leaves_raised (htable ▸ hnode.stores)] at hlow
          obtain hzero | ⟨address, leaf, hmin, hleaf⟩ := hlow
          · omega
          · rw [leaves_of_not_reach (by omega)] at hleaf
            cases hleaf

end RadixMap.Trie
