import Mathlib
import RadixMap.Proofs.Checked
import RadixMap.Proofs.TrieLeaves

/-!
# Listing a trie

A traversal rebuilds the addresses from the slots that it passes through. It lists every address that
holds a value once, with that value, in ascending order of the addresses; the leaf of an overlay is
read where the trie has its target. A list in ascending order is known by its members, so traversals
of tries that hold the same values give the same list.
-/

namespace RadixMap

namespace Address

/-- The digits of `base` above a level, with the digit `slot` at that level. -/
def child (base : Address) (level : Nat) (slot : Slot) : Address :=
  base ||| UInt32.ofNat (slot.val <<< (level * 5))

/-- No digit of the address stands below the level. -/
def Aligned (base : Address) (level : Nat) : Prop :=
  base.toNat = base.stem level * 32 ^ level

theorem extend_eq (base : Address) {level : Nat} (slot : Slot) (hlevel : level ≤ maxLevel) :
    base.extend level slot = .ok (base.child level slot) := by
  have hshift : level * 5 < 32 := by
    have : level ≤ 6 := hlevel
    omega
  simp only [extend, shiftAt_eq hlevel, Checked.ok_bind, if_pos hshift, child]

theorem toNat_child {base : Address} {level : Nat} {slot : Slot} (hbase : base.Aligned (level + 1))
    (hlevel : level ≤ maxLevel) (hslot : level = maxLevel → slot.val ≤ 3) :
    (base.child level slot).toNat = (32 * base.stem (level + 1) + slot.val) * 32 ^ level := by
  have hpow : 32 ^ level = 2 ^ (level * 5) := by
    rw [mul_comm, pow_mul]
    norm_num
  have hbits : base.toNat = 2 ^ ((level + 1) * 5) * base.stem (level + 1) := by
    rw [hbase, mul_comm, pow_succ, hpow]
    ring
  have hdigit : slot.val * 2 ^ (level * 5) < 2 ^ ((level + 1) * 5) := by
    rw [add_mul, pow_add, mul_comm]
    exact Nat.mul_lt_mul_of_pos_left slot.isLt (by positivity)
  have hfits : slot.val * 2 ^ (level * 5) < 2 ^ 32 := by
    rcases Nat.lt_or_ge level maxLevel with hlt | hge
    · have hlt : level < 6 := hlt
      exact hdigit.trans_le (Nat.pow_le_pow_right (by decide) (by omega))
    · obtain rfl : level = maxLevel := le_antisymm hlevel hge
      have hthree := hslot rfl
      calc slot.val * 2 ^ (maxLevel * 5) ≤ 3 * 2 ^ (maxLevel * 5) := Nat.mul_le_mul_right _ hthree
        _ < 2 ^ 32 := by decide
  rw [child, UInt32.toNat_or, UInt32.toNat_ofNat', Nat.shiftLeft_eq, Nat.mod_eq_of_lt hfits, hbits,
    ← Nat.two_pow_add_eq_or_of_lt hdigit, hpow, add_mul, pow_add]
  ring

theorem stem_child {base : Address} {level : Nat} {slot : Slot} (hbase : base.Aligned (level + 1))
    (hlevel : level ≤ maxLevel) (hslot : level = maxLevel → slot.val ≤ 3) :
    (base.child level slot).stem level = 32 * base.stem (level + 1) + slot.val := by
  rw [stem, toNat_child hbase hlevel hslot, Nat.mul_div_cancel _ (by positivity)]

theorem aligned_child {base : Address} {level : Nat} {slot : Slot} (hbase : base.Aligned (level + 1))
    (hlevel : level ≤ maxLevel) (hslot : level = maxLevel → slot.val ≤ 3) :
    (base.child level slot).Aligned level := by
  rw [Aligned, stem_child hbase hlevel hslot, toNat_child hbase hlevel hslot]

theorem aligned_zero (level : Nat) : (0 : Address).Aligned level := by
  simp [Aligned, stem]

theorem stem_eq_child_iff {base address : Address} {level : Nat} {slot : Slot}
    (hbase : base.Aligned (level + 1)) (hlevel : level ≤ maxLevel)
    (hslot : level = maxLevel → slot.val ≤ 3) :
    address.stem level = (base.child level slot).stem level ↔
      address.stem (level + 1) = base.stem (level + 1) ∧ address.digit level = slot := by
  have hval := slot.isLt
  have hdigit := (address.digit level).isLt
  rw [stem_child hbase hlevel hslot, stem_eq address, Fin.ext_iff]
  omega

theorem stem_child_above {base : Address} {level : Nat} {slot : Slot}
    (hbase : base.Aligned (level + 1)) (hlevel : level ≤ maxLevel)
    (hslot : level = maxLevel → slot.val ≤ 3) :
    (base.child level slot).stem (level + 1) = base.stem (level + 1) ∧
      (base.child level slot).digit level = slot :=
  (stem_eq_child_iff hbase hlevel hslot).mp rfl

theorem val_le_of_zero_eq (slot : Slot) : 0 = maxLevel → slot.val ≤ 3 :=
  fun htop => absurd htop (by decide)

theorem toNat_lt_of_stem_lt {left right : Address} (level : Nat)
    (hstem : left.stem level < right.stem level) : left.toNat < right.toNat := by
  by_contra hge
  exact absurd (Nat.div_le_div_right (Nat.not_lt.mp hge)) (Nat.not_le.mpr hstem)

theorem eq_of_stem_zero {left right : Address} (hstem : left.stem 0 = right.stem 0) :
    left = right := by
  rwa [stem_zero, stem_zero, UInt32.toNat_inj] at hstem

end Address

open Address

variable {V : Type}

def Overlay.WellFormed (overlay? : Option (Overlay V)) : Prop :=
  ∀ overlay, overlay? = some overlay → overlay.leaf.node.WellFormed

theorem Overlay.wellFormed_none : WellFormed (none : Option (Overlay V)) :=
  fun _ hnone => nomatch hnone

theorem Overlay.WellFormed.resolve {overlay? : Option (Overlay V)} {leaf : Leaf V}
    (hoverlay : Overlay.WellFormed overlay?) (hleaf : leaf.node.WellFormed) :
    (Overlay.resolve overlay? leaf).node.WellFormed := by
  cases overlay? with
  | none => exact hleaf
  | some overlay =>
      rw [Overlay.resolve]
      split
      · exact hoverlay overlay rfl
      · exact hleaf

namespace Trie

/-- The entries of a trie, as a list without checks. -/
def listing (overlay? : Option (Overlay V)) : Nat → Address → Trie V → List (Address × V)
  | _, base, leaf held =>
    (Overlay.resolve overlay? held).node.entries.map fun entry => (base.child 0 entry.1, entry.2)
  | 0, _, branch _ => []
  | level + 1, base, branch node =>
    node.entries.flatMap fun entry =>
      listing overlay? level (base.child (level + 1) entry.1) entry.2

/-- The leaf that a traversal reads for an address. -/
def shownOn (overlay? : Option (Overlay V)) (address : Address) (level : Nat) (trie : Trie V) :
    Option (Leaf V) :=
  (trie.leafOn address level).map (Overlay.resolve overlay?)

variable {overlay? : Option (Overlay V)} {level : Nat} {trie : Trie V}

theorem entries_eq (base : Address) (hwf : trie.WellFormed level) (hlevel : level ≤ maxLevel) :
    trie.entries overlay? level base = .ok (trie.listing overlay? level base) := by
  induction level generalizing trie base with
  | zero =>
      obtain ⟨held, rfl, -⟩ := hwf.eq_leaf
      rfl
  | succ level ih =>
      obtain ⟨node, rfl, hnode, hfits⟩ := hwf.eq_branch
      have hparts : ∀ entry ∈ node.entries,
          (do entries overlay? level (← base.extend (level + 1) entry.1) entry.2) =
            .ok (entry.2.listing overlay? level (base.child (level + 1) entry.1)) := by
        intro entry hmem
        rw [extend_eq base entry.1 hlevel]
        exact ih _ (hfits.2 _ _ (hnode.mem_entries.mp hmem)) (by omega)
      rw [entries, listing]
      change (node.entries.mapM _ >>= _) = _
      rw [Checked.mapM_eq_ok hparts, Checked.ok_bind, Checked.pure_eq, List.flatMap]

theorem stem_of_mem_listing {base address : Address} {value : V} (hwf : trie.WellFormed level)
    (hlevel : level ≤ maxLevel) (hbase : base.Aligned (level + 1))
    (hmem : (address, value) ∈ trie.listing overlay? level base) :
    address.stem (level + 1) = base.stem (level + 1) := by
  induction level generalizing trie base with
  | zero =>
      obtain ⟨held, rfl, -⟩ := hwf.eq_leaf
      obtain ⟨entry, -, hentry⟩ := List.mem_map.mp hmem
      cases hentry
      exact (stem_child_above hbase hlevel (val_le_of_zero_eq _)).1
  | succ level ih =>
      obtain ⟨node, rfl, hnode, hfits⟩ := hwf.eq_branch
      obtain ⟨⟨slot, child⟩, hentry, hchild⟩ := List.mem_flatMap.mp hmem
      have hfind := hnode.mem_entries.mp hentry
      have hslot := fun htop => hfits.1 htop slot child hfind
      have hstem := ih (hfits.2 _ _ hfind) (by omega) (aligned_child hbase hlevel hslot) hchild
      exact ((stem_eq_child_iff hbase hlevel hslot).mp hstem).1

/-- A traversal shows what the leaves hold, and nothing else. -/
theorem mem_listing {base address : Address} {value : V} (hwf : trie.WellFormed level)
    (hlevel : level ≤ maxLevel) (hoverlay : Overlay.WellFormed overlay?)
    (hbase : base.Aligned (level + 1)) :
    (address, value) ∈ trie.listing overlay? level base ↔
      address.stem (level + 1) = base.stem (level + 1) ∧
        Leaf.tableOf (shownOn overlay? address level trie) (address.digit 0) = some value := by
  induction level generalizing trie base with
  | zero =>
      obtain ⟨held, rfl, hnode⟩ := hwf.eq_leaf
      have hshown := (hoverlay.resolve hnode).stores
      rw [listing, hshown.entries_eq, List.mem_map]
      constructor
      · rintro ⟨⟨slot, shown⟩, hentry, heq⟩
        cases heq
        obtain ⟨hstem, hdigit⟩ := stem_child_above hbase hlevel (val_le_of_zero_eq slot)
        refine ⟨hstem, ?_⟩
        rw [hdigit, shownOn, leafOn, Option.map_some]
        exact Table.mem_entries.mp hentry
      · rintro ⟨hstem, hvalue⟩
        rw [shownOn, leafOn, Option.map_some] at hvalue
        refine ⟨(address.digit 0, value), Table.mem_entries.mpr hvalue, ?_⟩
        have heq := (stem_eq_child_iff hbase hlevel (val_le_of_zero_eq _)).mpr ⟨hstem, rfl⟩
        exact Prod.ext (eq_of_stem_zero heq.symm) rfl
  | succ level ih =>
      obtain ⟨node, rfl, hnode, hfits⟩ := hwf.eq_branch
      rw [listing, List.mem_flatMap]
      constructor
      · rintro ⟨⟨slot, child⟩, hentry, hchild⟩
        have hfind := hnode.mem_entries.mp hentry
        have hslot := fun htop => hfits.1 htop slot child hfind
        obtain ⟨hstem, hvalue⟩ := (ih (hfits.2 _ _ hfind) (by omega)
          (aligned_child hbase hlevel hslot)).mp hchild
        obtain ⟨habove, hdigit⟩ := (stem_eq_child_iff hbase hlevel hslot).mp hstem
        refine ⟨habove, ?_⟩
        rwa [shownOn, leafOn_branch_of_find (hdigit ▸ hfind)]
      · rintro ⟨hstem, hvalue⟩
        cases hfind : node.find (address.digit (level + 1)) with
        | none =>
            rw [shownOn, leafOn_branch_of_free hfind] at hvalue
            cases hvalue
        | some child =>
            rw [shownOn, leafOn_branch_of_find hfind] at hvalue
            have hslot := fun htop => hfits.1 htop _ child hfind
            refine ⟨(address.digit (level + 1), child), ?_, ?_⟩
            · exact hnode.mem_entries.mpr hfind
            · refine (ih (hfits.2 _ _ hfind) (by omega) (aligned_child hbase hlevel hslot)).mpr
                ⟨?_, hvalue⟩
              exact (stem_eq_child_iff hbase hlevel hslot).mpr ⟨hstem, rfl⟩

theorem pairwise_listing {base : Address} (hwf : trie.WellFormed level) (hlevel : level ≤ maxLevel)
    (hoverlay : Overlay.WellFormed overlay?) (hbase : base.Aligned (level + 1)) :
    (trie.listing overlay? level base).Pairwise fun left right =>
      left.1.toNat < right.1.toNat := by
  induction level generalizing trie base with
  | zero =>
      obtain ⟨held, rfl, hnode⟩ := hwf.eq_leaf
      have hshown := (hoverlay.resolve hnode).stores
      rw [listing, List.pairwise_map]
      refine hshown.pairwise_entries.imp ?_
      intro left right hlt
      apply toNat_lt_of_stem_lt 0
      rw [stem_child hbase hlevel (val_le_of_zero_eq _), stem_child hbase hlevel (val_le_of_zero_eq _)]
      exact Nat.add_lt_add_left hlt _
  | succ level ih =>
      obtain ⟨node, rfl, hnode, hfits⟩ := hwf.eq_branch
      have hslots : ∀ entry ∈ node.entries, level + 1 = maxLevel → entry.1.val ≤ 3 :=
        fun entry hmem htop => hfits.1 htop _ _ (hnode.mem_entries.mp hmem)
      have hchildren : ∀ entry ∈ node.entries, entry.2.WellFormed level :=
        fun entry hmem => hfits.2 _ _ (hnode.mem_entries.mp hmem)
      rw [listing, List.pairwise_flatMap]
      constructor
      · intro entry hmem
        exact ih (hchildren entry hmem) (by omega) (aligned_child hbase hlevel (hslots entry hmem))
      · refine hnode.stores.pairwise_entries.imp_of_mem ?_
        rintro ⟨left, leftChild⟩ ⟨right, rightChild⟩ hleft hright hlt ⟨first, _⟩ hfirst ⟨second, _⟩
          hsecond
        have hfirstStem := stem_of_mem_listing (hchildren _ hleft) (by omega)
          (aligned_child hbase hlevel (hslots _ hleft)) hfirst
        have hsecondStem := stem_of_mem_listing (hchildren _ hright) (by omega)
          (aligned_child hbase hlevel (hslots _ hright)) hsecond
        apply toNat_lt_of_stem_lt (level + 1)
        rw [hfirstStem, hsecondStem, stem_child hbase hlevel (hslots _ hleft),
          stem_child hbase hlevel (hslots _ hright)]
        exact Nat.add_lt_add_left hlt _

theorem count_eq (base : Address) (hwf : trie.WellFormed level) :
    trie.count level = .ok (trie.listing none level base).length := by
  induction level generalizing trie base with
  | zero =>
      obtain ⟨held, rfl, hnode⟩ := hwf.eq_leaf
      have hlength : held.node.size = held.node.entries.length := by
        rw [hnode.stores.size_eq, hnode.stores.entries_eq, ← Table.map_snd_entries, List.length_map]
      rw [count, listing, List.length_map, hlength]
      rfl
  | succ level ih =>
      obtain ⟨node, rfl, hnode, hfits⟩ := hwf.eq_branch
      have helements : node.elements = node.entries.map (·.2) := by
        rw [hnode.stores.elements, hnode.stores.entries_eq, Table.map_snd_entries]
      have hcounts : ∀ entry ∈ node.entries, count level entry.2 =
          .ok (entry.2.listing none level (base.child (level + 1) entry.1)).length :=
        fun entry hmem => ih _ (hfits.2 _ _ (hnode.mem_entries.mp hmem))
      rw [count, helements, List.mapM_map, listing, List.length_flatMap]
      change (node.entries.mapM (fun entry => count level entry.2) >>= _) = _
      rw [Checked.mapM_eq_ok hcounts, Checked.ok_bind, Checked.pure_eq, ← List.sum_eq_foldr]

end Trie

end RadixMap
