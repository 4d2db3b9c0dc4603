import Mathlib
import RadixMap.Map.Prune
import RadixMap.Proofs.Pruning
import RadixMap.Proofs.Updates

/-!
# Traversal and bulk removal

A traversal of a sound map goes through its contents in ascending order of the addresses, and a bulk
removal keeps what the test lets pass in that order.
-/

namespace RadixMap

open Address

variable {V σ : Type}

namespace Trie

variable {overlay? : Option (Overlay V)} {level : Nat} {trie : Trie V}

theorem mem_listing_root {address : Address} {value : V} (hwf : trie.WellFormed level)
    (hlevel : level ≤ maxLevel) (hoverlay : Overlay.WellFormed overlay?) :
    (address, value) ∈ trie.listing overlay? level 0 ↔
      Leaves.find (fun other => (leaves level (some trie) other).map (Overlay.resolve overlay?))
        address = some value := by
  have hzero : (0 : Address).stem (level + 1) = 0 := by simp [stem]
  rw [mem_listing hwf hlevel hoverlay (aligned_zero _), hzero, ← minLevel_le_iff, Leaves.find_eq]
  by_cases hreach : address.minLevel ≤ level
  · rw [leaves_of_reach hreach]
    exact and_iff_right hreach
  · rw [leaves_of_not_reach (Nat.not_le.mp hreach)]
    constructor
    · exact fun hboth => absurd hboth.1 hreach
    · intro hvalue
      cases hvalue

theorem mem_listing_none {address : Address} {value : V} (hwf : trie.WellFormed level)
    (hlevel : level ≤ maxLevel) :
    (address, value) ∈ trie.listing none level 0 ↔
      (leaves level (some trie)).find address = some value := by
  rw [mem_listing_root hwf hlevel Overlay.wellFormed_none]
  have hresolve : ∀ other, (leaves level (some trie) other).map (Overlay.resolve none) =
      leaves level (some trie) other :=
    fun other => Option.map_id_apply
  simp only [hresolve]

theorem count_eq_size (hwf : trie.WellFormed level) (hlevel : level ≤ maxLevel) :
    trie.count level = .ok (Contents.size (leaves level (some trie)).find) := by
  have hsorted := pairwise_listing hwf hlevel Overlay.wellFormed_none (aligned_zero (level + 1))
  rw [count_eq 0 hwf, ← Contents.size_eq_length hsorted]
  exact fun address value => mem_listing_none hwf hlevel

end Trie

namespace IntMap

variable {map : IntMap V}

/-- The entries by address, as a list without checks. -/
def addressed (map : IntMap V) : List (Address × V) :=
  match map.root with
  | some root => root.listing map.overlay? map.rootLevel 0
  | none => []

/-- The entries by key, in the same order. -/
def keyed (map : IntMap V) : List (Int32 × V) :=
  map.addressed.map fun entry => (entry.1.toKey, entry.2)

theorem map_snd_keyed (map : IntMap V) : map.keyed.map (·.2) = map.addressed.map (·.2) := by
  rw [keyed, List.map_map]
  rfl

namespace Sound

variable (hsound : map.Sound)

include hsound

theorem overlay_wellFormed : Overlay.WellFormed map.overlay? := by
  intro overlay hoverlay
  obtain ⟨staging, hstaging, -, rfl⟩ := overlay?_eq_some hoverlay
  exact hsound.node staging hstaging

/-- Read through the staged leaf, the trie has the leaves that lookups read: a leaf is taken for the
target by its number where its path is that of the staged block, and nowhere else. -/
theorem resolve_staged {staging : Staging V} (hstaging : map.staging = some staging)
    (address : Address) :
    (map.trieLeaves address).map (Overlay.resolve (some staging.overlay)) =
      map.leaves address := by
  have hblock := hsound.block staging hstaging
  rw [leaves_of_staged hstaging]
  by_cases heq : address.block = staging.block
  · rw [Leaves.update_of_block_eq (heq.trans hblock.symm),
      hsound.trieLeaves_wellFormed.congr address staging.block (heq.trans hblock.symm),
      hsound.target staging hstaging, Option.map_some, Overlay.resolve, Staging.overlay,
      if_pos staging.target.same_self]
  · rw [Leaves.update_of_block_ne (hblock.symm ▸ heq)]
    cases hleaf : map.trieLeaves address with
    | none => rfl
    | some leaf =>
        refine congrArg some (if_neg fun hsame => heq ?_)
        exact hsound.once staging address leaf hstaging hleaf (Leaf.same_iff.mp hsame).symm

theorem resolve_eq (address : Address) :
    (map.trieLeaves address).map (Overlay.resolve map.overlay?) = map.leaves address := by
  cases hoverlay : map.overlay? with
  | none =>
      rw [hsound.leaves_of_settled (Option.map_eq_none_iff.mp hoverlay)]
      exact Option.map_id_apply
  | some overlay =>
      obtain ⟨staging, hstaging, -, rfl⟩ := overlay?_eq_some hoverlay
      exact hsound.resolve_staged hstaging address

/-- A listing through an overlay that gives the leaves that lookups read has the contents. -/
theorem mem_listing {root : Trie V} (hroot : map.root = some root) {overlay? : Option (Overlay V)}
    (hoverlay : Overlay.WellFormed overlay?)
    (hresolve : ∀ address,
      (map.trieLeaves address).map (Overlay.resolve overlay?) = map.leaves address)
    {address : Address} {value : V} :
    (address, value) ∈ root.listing overlay? map.rootLevel 0 ↔
      map.contents address = some value := by
  refine (Trie.mem_listing_root (hsound.root root hroot) hsound.level_le hoverlay).trans ?_
  rw [← hroot, contents]
  exact iff_of_eq (congrArg (Leaves.find · address = some value) (funext hresolve))

theorem mem_addressed {address : Address} {value : V} :
    (address, value) ∈ map.addressed ↔ map.contents address = some value := by
  cases hroot : map.root with
  | none =>
      rw [hsound.empty_of_root hroot, contents_empty]
      constructor
      · exact fun hmem => nomatch hmem
      · exact fun hvalue => nomatch hvalue
  | some root =>
      rw [addressed, hroot]
      exact hsound.mem_listing hroot hsound.overlay_wellFormed hsound.resolve_eq

theorem pairwise_addressed :
    map.addressed.Pairwise fun left right => left.1.toNat < right.1.toNat := by
  rw [addressed]
  cases hroot : map.root with
  | none => exact List.Pairwise.nil
  | some root =>
      exact Trie.pairwise_listing (hsound.root root hroot) hsound.level_le hsound.overlay_wellFormed
        (aligned_zero _)

theorem mem_keyed {key : Int32} {value : V} :
    (key, value) ∈ map.keyed ↔ map.contents (ofKey key) = some value := by
  rw [keyed, List.mem_map, ← hsound.mem_addressed]
  constructor
  · rintro ⟨entry, hentry, heq⟩
    cases heq
    exact hentry
  · intro hentry
    exact ⟨(ofKey key, value), hentry, by rw [toKey, ofKey, Int32.toInt32_toUInt32]⟩

theorem pairwise_keyed :
    map.keyed.Pairwise fun left right => (ofKey left.1).toNat < (ofKey right.1).toNat := by
  rw [keyed, List.pairwise_map]
  exact hsound.pairwise_addressed

/-- Any list of the contents in ascending order is what a traversal gives. -/
theorem addressed_eq {entries : List (Address × V)}
    (hsorted : entries.Pairwise fun left right => left.1.toNat < right.1.toNat)
    (hmem : ∀ address value, (address, value) ∈ entries ↔ map.contents address = some value) :
    map.addressed = entries :=
  ascending_ext (fun entry => entry.1.toNat) hsound.pairwise_addressed hsorted fun entry =>
    hsound.mem_addressed.trans (hmem entry.1 entry.2).symm

/-- Settled or not, the staged leaf can be read in the place of its target. -/
theorem addressed_eq_listing {root : Trie V} (hroot : map.root = some root) :
    map.addressed = root.listing (map.staging.map Staging.overlay) map.rootLevel 0 := by
  have hoverlay : Overlay.WellFormed (map.staging.map Staging.overlay) := by
    intro overlay hoverlay
    obtain ⟨staging, hstaging, rfl⟩ := Option.map_eq_some_iff.mp hoverlay
    exact hsound.node staging hstaging
  have hresolve : ∀ address, (map.trieLeaves address).map
      (Overlay.resolve (map.staging.map Staging.overlay)) = map.leaves address := by
    intro address
    cases hstaging : map.staging with
    | none =>
        rw [leaves_of_unstaged hstaging]
        exact Option.map_id_apply
    | some staging => exact hsound.resolve_staged hstaging address
  apply hsound.addressed_eq
  · exact Trie.pairwise_listing (hsound.root root hroot) hsound.level_le hoverlay (aligned_zero _)
  · exact fun address value => hsound.mem_listing hroot hoverlay hresolve

theorem size_eq_length : map.size = map.addressed.length :=
  hsound.size.trans
    (Contents.size_eq_length hsound.pairwise_addressed fun _ _ => hsound.mem_addressed)

theorem entries_eq :
    map.entries = .ok (map.addressed.map fun entry => (entry.1.toKey, entry.2)) := by
  rw [entries, addressed]
  cases hroot : map.root with
  | none => rfl
  | some root =>
      simp only [Trie.entries_eq 0 (hsound.root root hroot) hsound.level_le, Checked.ok_bind,
        Checked.pure_eq]

/-! ### Bulk removal -/

theorem removeAll_ok (test : V → σ → Bool × σ) (state : σ) :
    ∃ revision,
      map.removeAll test state = .ok (revision, (sieve test map.addressed state).2) ∧
      revision.map.Sound ∧ revision.map.staging = none ∧
      (∀ address value, revision.map.contents address = some value ↔
        (address, value) ∈ (sieve test map.addressed state).1) ∧
      ((sieve test map.addressed state).1 = map.addressed →
        revision.map.rootLevel = map.rootLevel ∧
          ∃ merges, map.mergedRoot = .ok (revision.map.root, merges)) := by
  obtain ⟨root?, merges, hmerge, hroots, hleaves⟩ := hsound.mergedRoot_ok
  cases root? with
  | none =>
      obtain rfl := hsound.empty_of_root (root_of_mergedRoot hmerge)
      refine ⟨⟨empty, []⟩, ?_, sound_empty, rfl, ?_, fun _ => ⟨rfl, merges, hmerge⟩⟩
      · simp only [removeAll, hmerge, Checked.ok_bind, Checked.pure_eq]
        rfl
      · rw [contents_empty]
        exact Contents.empty_eq_some_iff
  | some root =>
      have hroot := hroots root rfl
      have hlisting : map.addressed = root.listing none map.rootLevel 0 := by
        apply hsound.addressed_eq
          (Trie.pairwise_listing hroot hsound.level_le Overlay.wellFormed_none (aligned_zero _))
        intro address value
        rw [Trie.mem_listing_none hroot hsound.level_le, hleaves, contents]
      have hnumbered : root.Numbered map.fresh map.rootLevel := by
        apply Trie.numbered_of_leaves hroot hsound.level_le
        rw [hleaves]
        exact hsound.leaves_numbered
      obtain ⟨verdict, later, hprune, hlater, hshows, hkept⟩ :=
        Trie.prune_ok ⟨hroot, hnumbered⟩ 0 test state
      rw [← hlisting] at hprune hshows hkept
      cases hrest : verdict.remains? root with
      | none =>
          rw [hrest] at hshows
          refine ⟨⟨empty, merges ++ [.bulkDropped map.size]⟩, ?_, sound_empty, rfl, ?_, fun hself => ?_⟩
          · simp only [removeAll, hmerge, hprune, hrest, Checked.ok_bind, Checked.pure_eq]
          · rw [contents_empty, show (sieve test map.addressed state).1 = [] from hshows]
            exact Contents.empty_eq_some_iff
          · rw [hkept hself] at hrest
            cases hrest
      | some rest =>
          rw [hrest] at hshows
          obtain ⟨⟨hwf, hnumbered⟩, hlisted⟩ := hshows
          have hle := rest.collapse_le map.rootLevel
          obtain ⟨hlowered, hsame, hlow⟩ := Trie.collapse_spec hwf hsound.level_le
          have hcount := Trie.count_eq_size hlowered (hle.trans hsound.level_le)
          generalize hsize : Contents.size _ = size at hcount
          have hnumbers := hnumbered.leaves
          rw [← hsame] at hlow hnumbers
          have hafter :=
            sound_unstaged (hle.trans hsound.level_le) hlowered hlow hsize.symm hnumbers
          refine ⟨⟨⟨size, (rest.lower map.rootLevel).1, some (rest.lower map.rootLevel).2.1, none, later⟩,
            merges ++ (rest.lower map.rootLevel).2.2 ++ [.bulkKept size map.size]⟩, ?run, hafter, rfl,
            ?contents, ?same⟩
          case run =>
            simp only [removeAll, hmerge, hprune, hrest, Trie.lower, hcount, Checked.ok_bind,
              Checked.pure_eq]
          case contents =>
            intro address value
            have hfind := congrFun (congrArg Leaves.find hsame) address
            rw [← hlisted, Trie.mem_listing_none hwf hsound.level_le, ← hfind]
            rfl
          case same =>
            intro hself
            rw [hkept hself] at hrest
            obtain rfl : root = rest := Option.some.inj hrest
            have hsunk := Trie.collapse_of_low hroot (hleaves ▸ hsound.low)
            have htrie : (root.lower map.rootLevel).2.1 = root := congrArg Prod.snd hsunk
            refine ⟨congrArg Prod.fst hsunk, merges, ?_⟩
            rw [htrie]
            exact hmerge

end Sound

end IntMap

end RadixMap
