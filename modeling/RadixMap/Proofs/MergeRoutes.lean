import Mathlib
import RadixMap.Proofs.History

/-!
# Two routes of a merge

After a write in another block the staged leaf goes into the trie by way of the branch where the two
paths part. The trie is the one that a graft along the whole path of the staged block gives, and differs
from the trie before the merge in the leaf of that block alone.
-/

namespace RadixMap.IntMap

open Address

variable {V : Type} {staging : Staging V} {root : Trie V}

theorem diverged?_of_isDiverged {map : IntMap V} (hstaging : map.staging = some staging)
    (hdiverged : staging.isDiverged = true) : map.diverged? = some staging := by
  rw [diverged?, hstaging, Option.filter_some, if_pos hdiverged]

/-- **Both routes of a merge lead to the same trie.** That the root has a branch where the two paths
part needs no assumption: both are within its reach, and leaves stand at level 0 only. -/
theorem mergeBeside_eq_graft (map : IntMap V) (address : Address)
    (hstaging : map.staging = some staging) (hdiverged : staging.isDiverged = true)
    (hblock : staging.block.block = staging.block) (hlevel : map.rootLevel ≤ maxLevel)
    (hroot : root.WellFormed map.rootLevel)
    (htarget : root.leafAt? staging.block map.rootLevel = .ok (some staging.target))
    (houtside : address.block ≠ staging.block) (haddress : address.minLevel ≤ map.rootLevel)
    (hstaged : staging.block.minLevel ≤ map.rootLevel) :
    ∃ merged,
      root.graftBelow? staging.block staging.overlay (address ^^^ staging.block).minLevel map.rootLevel =
        .ok (some merged) ∧
      root.graft staging.block staging.overlay map.rootLevel = .ok merged ∧
      map.mergeBeside address root =
        .ok (merged,
          [.mergedBeside staging.block (address ^^^ staging.block).minLevel address]) ∧
      Trie.Relinked staging.block staging.target staging.leaf map.rootLevel root merged := by
  have htarget : root.leafOn staging.block map.rootLevel = some staging.overlay.target := by
    rw [Trie.leafAt?_eq _ hroot hlevel] at htarget
    exact Except.ok.inj htarget
  have hpos : 1 ≤ (address ^^^ staging.block).minLevel := by
    rw [← hblock] at houtside ⊢
    exact one_le_parting_iff.mpr houtside
  have hle : (address ^^^ staging.block).minLevel ≤ map.rootLevel := parting_le haddress hstaged
  obtain ⟨merged, hwhole, hrelinked⟩ := Trie.graft_relinked hroot hlevel htarget
  have hbelow : root.graftBelow? staging.block staging.overlay (address ^^^ staging.block).minLevel
      map.rootLevel = .ok (some merged) := by
    rw [Trie.graftBelow?_eq_graft hroot hlevel htarget hpos hle, hwhole, Checked.map_ok]
  refine ⟨merged, hbelow, hwhole, ?_, hrelinked⟩
  simp only [mergeBeside, diverged?_of_isDiverged hstaging hdiverged, if_pos (And.intro hpos hle),
    hbelow, Checked.ok_bind, Checked.pure_eq, Option.getD_some]

/-- The paths of 3 and of the staged block of 70 part one level below the root. -/
theorem merge_below_root :
    let target : Leaf Nat := ⟨2, .one 6 2⟩
    let leaf : Leaf Nat := ⟨3, .bitmap 192 [2, 3]⟩
    let near : Trie Nat := .branch (.bitmap 5 [.leaf ⟨1, .one 3 1⟩, .leaf target])
    let far : Trie Nat := .branch (.one 0 (.leaf ⟨0, .one 6 0⟩))
    let root : Trie Nat := .branch (.bitmap 3 [near, far])
    let staging : Staging Nat := ⟨95, target, leaf⟩
    let map : IntMap Nat := ⟨4, 2, some root, some staging, 4⟩
    map.Reachable ∧ root.WellFormed 2 ∧ ∃ merged,
      root.graftBelow? 95 staging.overlay 1 2 = .ok (some merged) ∧
      root.graft 95 staging.overlay 2 = .ok merged ∧
      map.mergeBeside 3 root = .ok (merged, [.mergedBeside 95 1 3]) ∧
      Trie.Relinked 95 target leaf 2 root merged := by
  intro target leaf near far root staging map
  have hmap : map.Reachable :=
    .step (.insert 71 3) (.step (.ofList [(1030, 0), (3, 1), (70, 2)]) .empty rfl) rfl
  have hroot : root.WellFormed 2 := hmap.sound.root root rfl
  have hparting : ((3 : Address) ^^^ 95).minLevel = 1 := by decide
  have htarget : root.leafAt? 95 2 = .ok (some target) := rfl
  have hmerge := mergeBeside_eq_graft map 3 rfl rfl (by decide) (by decide) hroot htarget (by decide)
    (by decide) (by decide)
  rw [hparting] at hmerge
  exact ⟨hmap, hroot, hmerge⟩

end RadixMap.IntMap
