import Mathlib
import RadixMap.Map.Write
import RadixMap.Proofs.Contents
import RadixMap.Proofs.TrieGraft
import RadixMap.Proofs.TrieHeight

/-!
# Sound maps

A map stands for the leaves of its trie with the staged leaf in the place of its target. What its
fields have to do with one another, so that reads and writes by either way agree, is its soundness;
merging the staged leaf into the trie brings out the trie that the leaves determine.

The target is told from the other leaves of the trie by its number, and the staged block by its
address. Both ways find the same leaf: the numbers of a sound map are used up in order, a write that
stages a block gives its leaf the next one, and so the trie has the target on one path only.
-/

namespace RadixMap.IntMap

open Address

variable {V : Type} {map : IntMap V} {address : Address} {staging : Staging V}

/-- The leaves as the trie has them. -/
def trieLeaves (map : IntMap V) : Leaves V :=
  Trie.leaves map.rootLevel map.root

/-- The leaves with the staged leaf in the place of its target. -/
def leaves (map : IntMap V) : Leaves V :=
  match map.staging with
  | some staging => map.trieLeaves.update staging.block (some staging.leaf)
  | none => map.trieLeaves

def contents (map : IntMap V) : Contents V :=
  map.leaves.find

/-- The trie is well formed and no higher than the leaves need, the path of the staged block, and no
other, ends at the target, every leaf has a number below the next one, and the size is the number of
values. -/
structure Sound (map : IntMap V) : Prop where
  empty_of_root : map.root = none → map = empty
  level_le : map.rootLevel ≤ maxLevel
  root : ∀ root, map.root = some root → root.WellFormed map.rootLevel
  block : ∀ staging, map.staging = some staging → staging.block.block = staging.block
  target : ∀ staging, map.staging = some staging →
    map.trieLeaves staging.block = some staging.target
  once : ∀ staging address leaf, map.staging = some staging →
    map.trieLeaves address = some leaf → leaf.serial = staging.target.serial →
      address.block = staging.block
  node : ∀ staging, map.staging = some staging → staging.leaf.node.WellFormed
  settled : ∀ staging, map.staging = some staging → staging.isDiverged = false →
    staging.leaf = staging.target
  numbered : map.trieLeaves.Numbered map.fresh
  staged_numbered : ∀ staging, map.staging = some staging → staging.leaf.serial < map.fresh
  low : map.leaves.Low map.rootLevel
  size : map.size = map.contents.size

theorem numbered_none {level : Nat} (fresh : Nat) :
    (Trie.leaves level (none : Option (Trie V))).Numbered fresh := by
  intro address leaf hleaf
  simp [Trie.leaves] at hleaf

theorem leaves_empty : (empty : IntMap V).leaves = fun _ => none := by
  funext address
  change (if address.minLevel ≤ 0 then none else none) = none
  exact ite_self none

theorem contents_empty : (empty : IntMap V).contents = Contents.empty := by
  funext address
  rw [contents, leaves_empty]
  rfl

theorem sound_empty : (empty : IntMap V).Sound where
  empty_of_root _ := rfl
  level_le := Nat.zero_le _
  root _ hroot := nomatch hroot
  block _ hstaging := nomatch hstaging
  target _ hstaging := nomatch hstaging
  once _ _ _ hstaging := nomatch hstaging
  node _ hstaging := nomatch hstaging
  settled _ hstaging := nomatch hstaging
  numbered := numbered_none _
  staged_numbered _ hstaging := nomatch hstaging
  low := Or.inl rfl
  size := by
    rw [contents_empty, Contents.size_empty]
    rfl

/-! ### Leaves of a sound map -/

theorem leaves_of_staged (hstaging : map.staging = some staging) :
    map.leaves = map.trieLeaves.update staging.block (some staging.leaf) := by
  rw [leaves, hstaging]

theorem leaves_staged (hstaging : map.staging = some staging) :
    map.leaves staging.block = some staging.leaf := by
  rw [leaves_of_staged hstaging, Leaves.update_of_block_eq rfl]

theorem leaves_of_unstaged (hstaging : map.staging = none) : map.leaves = map.trieLeaves := by
  rw [leaves, hstaging]

theorem trieLeaves_eq_some_iff {leaf : Leaf V} :
    map.trieLeaves address = some leaf ↔
      address.minLevel ≤ map.rootLevel ∧
        ∃ root, map.root = some root ∧ root.leafOn address map.rootLevel = some leaf := by
  rw [trieLeaves]
  by_cases hreach : address.minLevel ≤ map.rootLevel
  · rw [Trie.leaves_of_reach hreach, Option.bind_eq_some_iff, and_iff_right hreach]
  · rw [Trie.leaves_of_not_reach (Nat.not_le.mp hreach)]
    simp [hreach]

theorem stagingFor?_eq_some (hstaged : map.stagingFor? address = some staging) :
    map.staging = some staging ∧ staging.block = address.block := by
  rw [stagingFor?, Option.filter_eq_some_iff, decide_eq_true_iff] at hstaged
  exact hstaged

theorem stagingFor?_of_block_eq (hstaging : map.staging = some staging)
    (hblock : address.block = staging.block) : map.stagingFor? address = some staging := by
  rw [stagingFor?, hstaging, Option.filter_some, if_pos (decide_eq_true hblock.symm)]

theorem stagingFor?_of_block_ne (hstaging : map.staging = some staging)
    (hblock : address.block ≠ staging.block) : map.stagingFor? address = none := by
  rw [stagingFor?, hstaging, Option.filter_some, if_neg]
  simpa using hblock.symm

theorem block_ne_of_stagingFor? (hstaged : map.stagingFor? address = none)
    (hstaging : map.staging = some staging) : staging.block ≠ address.block := by
  rw [stagingFor?, Option.filter_eq_none_iff] at hstaged
  simpa using hstaged staging hstaging

@[simp]
theorem Staging.isDiverged_settled (address : Address) (leaf : Leaf V) :
    (Staging.settled address leaf).isDiverged = false := by
  rw [Staging.isDiverged, Staging.settled, Leaf.same_self, Bool.not_true]

theorem diverged?_eq_some (hdiverged : map.diverged? = some staging) :
    map.staging = some staging ∧ staging.isDiverged = true := by
  rwa [diverged?, Option.filter_eq_some_iff] at hdiverged

theorem diverged?_of_settled
    (hsettled : ∀ staging, map.staging = some staging → staging.isDiverged = false) :
    map.diverged? = none := by
  rw [diverged?, Option.filter_eq_none_iff]
  intro staging hstaging
  rw [hsettled staging hstaging]
  exact Bool.false_ne_true

theorem isDiverged_of_diverged?_eq_none (hdiverged : map.diverged? = none)
    (hstaging : map.staging = some staging) : staging.isDiverged = false := by
  rw [diverged?, Option.filter_eq_none_iff] at hdiverged
  exact Bool.eq_false_iff.mpr (hdiverged staging hstaging)

theorem overlay?_eq_some {overlay : Overlay V} (hoverlay : map.overlay? = some overlay) :
    ∃ staging, map.staging = some staging ∧ staging.isDiverged = true ∧
      overlay = staging.overlay := by
  obtain ⟨staging, hdiverged, rfl⟩ := Option.map_eq_some_iff.mp hoverlay
  exact ⟨staging, (diverged?_eq_some hdiverged).1, (diverged?_eq_some hdiverged).2, rfl⟩

theorem root_of_mergedRoot {merges : List Event} (hmerge : map.mergedRoot = .ok (none, merges)) :
    map.root = none := by
  unfold mergedRoot at hmerge
  cases hroot : map.root with
  | none => rfl
  | some root =>
      cases hdiverged : map.diverged? with
      | none =>
          rw [hroot, hdiverged] at hmerge
          cases hmerge
      | some staging =>
          rw [hroot, hdiverged] at hmerge
          obtain ⟨merged, -, hmerge⟩ := Checked.bind_eq_ok hmerge
          cases hmerge

namespace Sound

variable (hsound : map.Sound)

include hsound

theorem trieLeaves_wellFormed : map.trieLeaves.WellFormed :=
  Trie.WellFormed.leaves hsound.root

theorem leaves_numbered : map.leaves.Numbered map.fresh := by
  cases hstaging : map.staging with
  | none =>
      rw [leaves_of_unstaged hstaging]
      exact hsound.numbered
  | some staging =>
      rw [leaves_of_staged hstaging]
      refine hsound.numbered.update _ ?_
      rintro leaf ⟨⟩
      exact hsound.staged_numbered staging hstaging

theorem target_numbered (hstaging : map.staging = some staging) :
    staging.target.serial < map.fresh :=
  hsound.numbered _ _ (hsound.target staging hstaging)

theorem leaves_wellFormed : map.leaves.WellFormed := by
  cases hstaging : map.staging with
  | none =>
      rw [leaves_of_unstaged hstaging]
      exact hsound.trieLeaves_wellFormed
  | some staging =>
      rw [leaves_of_staged hstaging]
      refine hsound.trieLeaves_wellFormed.update _ ?_
      rintro leaf ⟨⟩
      exact hsound.node staging hstaging

theorem leaves_of_stagingFor? (hstaged : map.stagingFor? address = some staging) :
    map.leaves address = some staging.leaf := by
  obtain ⟨hstaging, hblock⟩ := stagingFor?_eq_some hstaged
  rw [leaves_of_staged hstaging]
  apply Leaves.update_of_block_eq
  rw [hsound.block staging hstaging, hblock]

theorem leaves_of_not_stagingFor? (hstaged : map.stagingFor? address = none) :
    map.leaves address = map.trieLeaves address := by
  cases hstaging : map.staging with
  | none => rw [leaves_of_unstaged hstaging]
  | some staging =>
      rw [leaves_of_staged hstaging]
      apply Leaves.update_of_block_ne
      rw [hsound.block staging hstaging]
      exact (block_ne_of_stagingFor? hstaged hstaging).symm

/-- The staged block is one that the root reaches, by a path that ends at the target. -/
theorem staged_path (hstaging : map.staging = some staging) :
    staging.block.minLevel ≤ map.rootLevel ∧
      ∃ root, map.root = some root ∧
        root.leafOn staging.block map.rootLevel = some staging.target :=
  trieLeaves_eq_some_iff.mp (hsound.target staging hstaging)

theorem reach_of_stagingFor? (hstaged : map.stagingFor? address = some staging) :
    address.minLevel ≤ map.rootLevel := by
  obtain ⟨hstaging, hblock⟩ := stagingFor?_eq_some hstaged
  rw [← minLevel_block, ← hblock]
  exact (hsound.staged_path hstaging).1

theorem leaves_of_not_reach (hreach : map.rootLevel < address.minLevel) :
    map.leaves address = none := by
  cases hstaged : map.stagingFor? address with
  | none =>
      rw [hsound.leaves_of_not_stagingFor? hstaged]
      exact Trie.leaves_of_not_reach hreach
  | some staging => exact absurd (hsound.reach_of_stagingFor? hstaged) (Nat.not_le.mpr hreach)

theorem leaves_of_settled (hdiverged : map.diverged? = none) : map.leaves = map.trieLeaves := by
  cases hstaging : map.staging with
  | none => exact leaves_of_unstaged hstaging
  | some staging =>
      have hsettled := isDiverged_of_diverged?_eq_none hdiverged hstaging
      rw [leaves_of_staged hstaging, hsound.settled staging hstaging hsettled]
      exact hsound.trieLeaves_wellFormed.update_self (hsound.target staging hstaging)

/-! ### Lookup -/

theorem get?_eq (key : Int32) : map.get? key = .ok (map.contents (ofKey key)) := by
  rw [get?, contents, Leaves.find_eq]
  cases hstaged : map.stagingFor? (ofKey key) with
  | some staging =>
      have hnode := hsound.node staging (stagingFor?_eq_some hstaged).1
      rw [hsound.leaves_of_stagingFor? hstaged]
      simp only [slotAt_zero, Checked.ok_bind, hnode.stores.get?_eq, Leaf.tableOf, Node.tableOf, Option.map_some]
  | none =>
      rw [hsound.leaves_of_not_stagingFor? hstaged, trieLeaves]
      by_cases hreach : (ofKey key).minLevel ≤ map.rootLevel
      · rw [Trie.leaves_of_reach hreach]
        cases hroot : map.root with
        | none => rfl
        | some root =>
            have hwf := hsound.root root hroot
            simp only [if_pos hreach, Trie.get?_eq _ hwf hsound.level_le, Option.bind_some]
            cases root.leafOn (ofKey key) map.rootLevel with
            | none => rfl
            | some leaf => rfl
      · rw [Trie.leaves_of_not_reach (Nat.not_le.mp hreach)]
        cases map.root with
        | none => rfl
        | some root => simp only [if_neg hreach, Checked.pure_eq, Leaf.tableOf, Node.tableOf, Table.empty, Option.map_none]

/-! ### Merging the staged leaf -/

theorem mergedRoot_ok :
    ∃ root? merges, map.mergedRoot = .ok (root?, merges) ∧
      (∀ root, root? = some root → root.WellFormed map.rootLevel) ∧
      Trie.leaves map.rootLevel root? = map.leaves := by
  cases hdiverged : map.diverged? with
  | none =>
      refine ⟨map.root, [], ?_, hsound.root, (hsound.leaves_of_settled hdiverged).symm⟩
      rw [mergedRoot, hdiverged]
      cases map.root <;> rfl
  | some staging =>
      obtain ⟨hstaging, -⟩ := diverged?_eq_some hdiverged
      have hnode : staging.overlay.leaf.node.WellFormed := hsound.node staging hstaging
      obtain ⟨hreach, root, hroot, htarget⟩ := hsound.staged_path hstaging
      obtain ⟨merged, hgraft, hmerged, hpaths⟩ :=
        Trie.graft_ok (hsound.root root hroot) hsound.level_le hnode htarget
      refine ⟨some merged, [.mergedIntoRoot staging.block map.rootLevel], ?_, ?_, ?_⟩
      · simp only [mergedRoot, hroot, hdiverged, hgraft, Checked.ok_bind, Checked.pure_eq]
      · rintro root ⟨⟩
        exact hmerged
      · rw [leaves_of_staged hstaging, trieLeaves, hroot]
        exact Trie.leaves_eq_update hreach hpaths

/-- The paths of the staged block and of an address of another block part inside the trie. -/
theorem parting_bounds (hstaged : map.stagingFor? address = none)
    (hstaging : map.staging = some staging) (hreach : address.minLevel ≤ map.rootLevel) :
    1 ≤ (address ^^^ staging.block).minLevel ∧
      (address ^^^ staging.block).minLevel ≤ map.rootLevel := by
  have hne := block_ne_of_stagingFor? hstaged hstaging
  refine ⟨?_, parting_le hreach (hsound.staged_path hstaging).1⟩
  rw [← hsound.block staging hstaging] at hne ⊢
  exact one_le_parting_iff.mpr hne.symm

/-- A change at an address of another block leaves the target where it is. -/
theorem leafOn_block {root : Trie V} {leaf? : Option (Leaf V)}
    (hstaged : map.stagingFor? address = none) (hstaging : map.staging = some staging)
    (hleaves : Trie.leaves map.rootLevel (some root) = map.trieLeaves.update address leaf?) :
    root.leafOn staging.block map.rootLevel = some staging.target := by
  have hne := block_ne_of_stagingFor? hstaged hstaging
  rw [← hsound.block staging hstaging] at hne
  have hkept := congrFun hleaves staging.block
  rw [Leaves.update_of_block_ne hne, hsound.target staging hstaging,
    Trie.leaves_of_reach (hsound.staged_path hstaging).1] at hkept
  exact hkept

/-- A trie that was just changed at an address of another block takes the staged leaf in. -/
theorem mergeBeside_ok {root : Trie V} {leaf? : Option (Leaf V)}
    (hstaged : map.stagingFor? address = none) (hroot : root.WellFormed map.rootLevel)
    (hreach : address.minLevel ≤ map.rootLevel)
    (hleaves : Trie.leaves map.rootLevel (some root) = map.trieLeaves.update address leaf?) :
    ∃ merged merges, map.mergeBeside address root = .ok (merged, merges) ∧
      merged.WellFormed map.rootLevel ∧
      Trie.leaves map.rootLevel (some merged) = map.leaves.update address leaf? := by
  cases hdiverged : map.diverged? with
  | none =>
      refine ⟨root, [], ?_, hroot, by rw [hleaves, hsound.leaves_of_settled hdiverged]⟩
      simp only [mergeBeside, hdiverged, Checked.pure_eq]
  | some staging =>
      obtain ⟨hstaging, -⟩ := diverged?_eq_some hdiverged
      have hnode : staging.overlay.leaf.node.WellFormed := hsound.node staging hstaging
      have hne := block_ne_of_stagingFor? hstaged hstaging
      rw [← hsound.block staging hstaging] at hne
      have hold := hsound.leafOn_block hstaged hstaging hleaves
      have hparting := hsound.parting_bounds hstaged hstaging hreach
      obtain ⟨merged, hgraft, hmerged, hpaths⟩ :=
        Trie.graftBelow?_ok hroot hsound.level_le hnode hold hparting.1 hparting.2
      refine ⟨merged, [.mergedBeside staging.block (address ^^^ staging.block).minLevel address], ?_,
        hmerged, ?_⟩
      · simp only [mergeBeside, hdiverged, if_pos hparting, hgraft, Checked.ok_bind,
          Checked.pure_eq, Option.getD_some]
      · rw [leaves_of_staged hstaging, Leaves.update_comm _ hne, ← hleaves]
        exact Trie.leaves_eq_update (hsound.staged_path hstaging).1 hpaths

end Sound

end RadixMap.IntMap
