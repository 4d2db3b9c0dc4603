import Mathlib
import RadixMap.Proofs.History

/-!
# The invariant of maps

What holds of the fields of every map that steps make: the forms of the nodes, the levels of leaves
and branches, the height for the largest key, where the target of the staged block is linked, and the
size.
-/

namespace RadixMap.IntMap

open Address

variable {V : Type} {map : IntMap V}

structure WellFormed (map : IntMap V) : Prop where
  root_eq_none_iff : map.root = none ↔ map.size = 0
  of_root_eq_none : map.root = none → map.rootLevel = 0 ∧ map.staging = none
  level_le : map.rootLevel ≤ maxLevel
  /-- Every node has the form for its number of elements, leaves stand at level 0 and branches at the
  levels above it, and a branch at the highest level uses four slots at most. -/
  root : ∀ root, map.root = some root → root.WellFormed map.rootLevel
  /-- The root stands at the least level from which it reaches the largest key, read as unsigned. -/
  largest : ∀ key value, map.get? key = .ok (some value) →
    (∀ other held, map.get? other = .ok (some held) → (ofKey other).toNat ≤ (ofKey key).toNat) →
      map.rootLevel = (ofKey key).minLevel
  block : ∀ staging, map.staging = some staging → staging.block.toNat % 32 = 31
  target : ∀ staging, map.staging = some staging → staging.block.minLevel ≤ map.rootLevel ∧
    ∃ root, map.root = some root ∧
      root.leafAt? staging.block map.rootLevel = .ok (some staging.target)
  /-- The target is linked once: no path but that of the staged block ends at it. -/
  once : ∀ staging root address leaf, map.staging = some staging → map.root = some root →
    address.minLevel ≤ map.rootLevel → root.leafAt? address map.rootLevel = .ok (some leaf) →
      leaf.same staging.target = true → address.block = staging.block
  node : ∀ staging, map.staging = some staging → staging.leaf.node.WellFormed
  settled : ∀ staging, map.staging = some staging → staging.isDiverged = false →
    staging.leaf = staging.target
  /-- The size is the number of values in the trie with the staged leaf in the place of its target. -/
  counted : map.root ≠ none → ∃ root merges, map.mergedRoot = .ok (some root, merges) ∧
    root.count map.rootLevel = .ok map.size

namespace Sound

variable (hsound : map.Sound)

include hsound

theorem contents_ne_empty {root : Trie V} (hroot : map.root = some root) :
    map.contents ≠ Contents.empty := by
  obtain ⟨address, leaf, hreach, hleaf⟩ := (hsound.root root hroot).exists_leaf hsound.level_le
  have htrie : map.trieLeaves address = some leaf :=
    trieLeaves_eq_some_iff.mpr ⟨hreach, root, hroot, hleaf⟩
  have hshown := hsound.resolve_eq address
  rw [htrie, Option.map_some] at hshown
  obtain ⟨member, value, -, hvalue⟩ := hsound.leaves_wellFormed.exists_value hshown.symm
  intro hempty
  rw [contents] at hempty
  rw [hempty] at hvalue
  cases hvalue

theorem root_eq_none_iff : map.root = none ↔ map.size = 0 := by
  rw [hsound.size, Contents.size_eq_zero_iff]
  constructor
  · intro hroot
    rw [hsound.empty_of_root hroot, contents_empty]
  · intro hempty
    cases hroot : map.root with
    | none => rfl
    | some root => exact absurd hempty (hsound.contents_ne_empty hroot)

theorem rootLevel_eq_largest {address : Address} {value : V}
    (hvalue : map.contents address = some value)
    (hlargest : ∀ other held, map.contents other = some held → other.toNat ≤ address.toNat) :
    map.rootLevel = address.minLevel := by
  apply le_antisymm
  · rcases hsound.low with hzero | ⟨highest, leaf, hmin, hleaf⟩
    · omega
    · obtain ⟨member, held, hblock, hheld⟩ := hsound.leaves_wellFormed.exists_value hleaf
      rw [← hmin, ← minLevel_congr hblock]
      exact minLevel_mono (hlargest member held hheld)
  · by_contra hlow
    rw [contents, Leaves.find_eq, hsound.leaves_of_not_reach (Nat.not_le.mp hlow)] at hvalue
    cases hvalue

theorem block_mod {staging : Staging V} (hstaging : map.staging = some staging) :
    staging.block.toNat % 32 = 31 := by
  rw [← hsound.block staging hstaging, toNat_block]
  omega

theorem leafAt?_block {staging : Staging V} (hstaging : map.staging = some staging) :
    ∃ root, map.root = some root ∧
      root.leafAt? staging.block map.rootLevel = .ok (some staging.target) := by
  obtain ⟨-, root, hroot, htarget⟩ := hsound.staged_path hstaging
  refine ⟨root, hroot, ?_⟩
  rw [Trie.leafAt?_eq _ (hsound.root root hroot) hsound.level_le, htarget]

theorem linked_once {staging : Staging V} {root : Trie V} {address : Address} {leaf : Leaf V}
    (hstaging : map.staging = some staging) (hroot : map.root = some root)
    (hreach : address.minLevel ≤ map.rootLevel)
    (hleaf : root.leafAt? address map.rootLevel = .ok (some leaf))
    (hsame : leaf.same staging.target = true) : address.block = staging.block := by
  rw [Trie.leafAt?_eq _ (hsound.root root hroot) hsound.level_le] at hleaf
  have htrie : map.trieLeaves address = some leaf :=
    trieLeaves_eq_some_iff.mpr ⟨hreach, root, hroot, Except.ok.inj hleaf⟩
  exact hsound.once staging address leaf hstaging htrie (Leaf.same_iff.mp hsame)

theorem counted (hroot : map.root ≠ none) :
    ∃ root merges, map.mergedRoot = .ok (some root, merges) ∧
      root.count map.rootLevel = .ok map.size := by
  obtain ⟨root?, merges, hmerge, hroots, hleaves⟩ := hsound.mergedRoot_ok
  cases root? with
  | none => exact absurd (root_of_mergedRoot hmerge) hroot
  | some root =>
      refine ⟨root, merges, hmerge, ?_⟩
      rw [Trie.count_eq_size (hroots root rfl) hsound.level_le, hleaves, hsound.size, contents]

end Sound

/-- **The invariant.** Every map that steps make is well formed. -/
theorem reachable_wellFormed (hmap : map.Reachable) : map.WellFormed where
  root_eq_none_iff := hmap.sound.root_eq_none_iff
  of_root_eq_none hroot := by
    rw [hmap.sound.empty_of_root hroot]
    exact ⟨rfl, rfl⟩
  level_le := hmap.sound.level_le
  root := hmap.sound.root
  largest key value hvalue hlargest := by
    rw [hmap.sound.get?_eq] at hvalue
    apply hmap.sound.rootLevel_eq_largest (Except.ok.inj hvalue)
    intro other held hheld
    apply hlargest other.toKey held
    rw [hmap.sound.get?_eq]
    exact congrArg Except.ok hheld
  block _ hstaging := hmap.sound.block_mod hstaging
  target _ hstaging := ⟨(hmap.sound.staged_path hstaging).1, hmap.sound.leafAt?_block hstaging⟩
  once _ _ _ _ := hmap.sound.linked_once
  node := hmap.sound.node
  settled := hmap.sound.settled
  counted := hmap.sound.counted

theorem wellFormed_of_diverged :
    let target : Leaf Nat := ⟨1, .one 6 1⟩
    let root : Trie Nat := .branch (.bitmap 5 [.leaf ⟨0, .one 3 0⟩, .leaf target])
    let map : IntMap Nat := ⟨3, 1, some root, some ⟨95, target, ⟨2, .bitmap 192 [1, 2]⟩⟩, 3⟩
    map.Reachable ∧ map.WellFormed := by
  intro target root map
  have hmap : map.Reachable :=
    .step (.insert 71 2) (.step (.ofList [(3, 0), (70, 1)]) .empty rfl) rfl
  exact ⟨hmap, reachable_wellFormed hmap⟩

end RadixMap.IntMap
