import Mathlib
import RadixMap.Proofs.Sound

/-!
# Updates of a map

Every write to a sound map gives a sound map, without a fault, and changes the contents at its key and
nowhere else. A write ends in one of two ways: with a new leaf in the place of the staged one, or with
a new trie in which the leaf that was written is the settled target.
-/

namespace RadixMap.IntMap

open Address

variable {V : Type} {map : IntMap V} {address : Address} {staging : Staging V}

/-! ### How a write ends -/

/-- A map with a trie that lacks no write, where the leaf of an address, if there is one, is staged. -/
theorem sound_settled {size level fresh : Nat} {root : Trie V} {leaf? : Option (Leaf V)}
    (hlevel : level ≤ maxLevel) (hroot : root.WellFormed level)
    (hlow : (Trie.leaves level (some root)).Low level)
    (hsize : size = Contents.size (Trie.leaves level (some root)).find)
    (hnumbered : (Trie.leaves level (some root)).Numbered fresh)
    (hleaf : ∀ leaf, leaf? = some leaf → Trie.leaves level (some root) address = some leaf)
    (honce : ∀ leaf, leaf? = some leaf → ∀ other held,
      Trie.leaves level (some root) other = some held → held.serial = leaf.serial →
        other.block = address.block) :
    (⟨size, level, some root, leaf?.map (.settled address), fresh⟩ : IntMap V).Sound ∧
      (⟨size, level, some root, leaf?.map (.settled address), fresh⟩ : IntMap V).leaves =
        Trie.leaves level (some root) := by
  have hroots : ∀ held, some root = some held → held.WellFormed level := by
    rintro held ⟨⟩
    exact hroot
  have hwf := Trie.WellFormed.leaves hroots
  have hleaves : (⟨size, level, some root, leaf?.map (.settled address), fresh⟩ : IntMap V).leaves =
      Trie.leaves level (some root) := by
    cases leaf? with
    | none => rfl
    | some leaf =>
        change (Trie.leaves level (some root)).update address.block (some leaf) = _
        rw [Leaves.update_block, hwf.update_self (hleaf leaf rfl)]
  refine ⟨?_, hleaves⟩
  have hstaging : ∀ staging, leaf?.map (Staging.settled address) = some staging →
      ∃ leaf, leaf? = some leaf ∧ staging = .settled address leaf ∧
        Trie.leaves level (some root) address = some leaf := by
    intro staging hmap
    obtain ⟨leaf, rfl, rfl⟩ := Option.map_eq_some_iff.mp hmap
    exact ⟨leaf, rfl, rfl, hleaf leaf rfl⟩
  exact {
    empty_of_root := fun hnone => nomatch hnone
    level_le := hlevel
    root := hroots
    block := by
      rintro staging hmap
      obtain ⟨leaf, -, rfl, -⟩ := hstaging staging hmap
      exact address.block_block
    target := by
      intro staging hmap
      obtain ⟨leaf, -, rfl, hheld⟩ := hstaging staging hmap
      exact (hwf.congr _ _ address.block_block).trans hheld
    once := by
      intro staging other held hmap hheld hserial
      obtain ⟨leaf, hsome, rfl, -⟩ := hstaging staging hmap
      exact honce leaf hsome other held hheld hserial
    node := by
      intro staging hmap
      obtain ⟨leaf, -, rfl, hheld⟩ := hstaging staging hmap
      exact hwf.leaf address leaf hheld
    settled := by
      intro staging hmap _
      obtain ⟨leaf, -, rfl, -⟩ := hstaging staging hmap
      rfl
    numbered := hnumbered
    staged_numbered := by
      intro staging hmap
      obtain ⟨leaf, -, rfl, hheld⟩ := hstaging staging hmap
      exact hnumbered address leaf hheld
    low := by rwa [hleaves]
    size := by rwa [contents, hleaves] }

theorem sound_unstaged {size level fresh : Nat} {root : Trie V} (hlevel : level ≤ maxLevel)
    (hroot : root.WellFormed level) (hlow : (Trie.leaves level (some root)).Low level)
    (hsize : size = Contents.size (Trie.leaves level (some root)).find)
    (hnumbered : (Trie.leaves level (some root)).Numbered fresh) :
    (⟨size, level, some root, none, fresh⟩ : IntMap V).Sound := by
  have hleaf : ∀ leaf : Leaf V, none = some leaf →
      Trie.leaves level (some root) (0 : Address) = some leaf := nofun
  exact (sound_settled hlevel hroot hlow hsize hnumbered hleaf nofun).1

/-- The map after a write: sound, with another value, or none, at one address. -/
structure Updated (map : IntMap V) (address : Address) (value? : Option V) (after : IntMap V) :
    Prop where
  sound : after.Sound
  contents : after.contents = Function.update map.contents address value?

namespace Sound

/-- A trie with the change in it takes the place of the trie, and the changed leaf is staged. Its
number is the next one, so no other leaf has it. -/
theorem settle (hsound : map.Sound) {size level : Nat} {root : Trie V} {leaf? : Option (Leaf V)}
    {value? : Option V} (hlevel : level ≤ maxLevel) (hroot : root.WellFormed level)
    (hlow : (Trie.leaves level (some root)).Low level)
    (hleaves : Trie.leaves level (some root) = map.leaves.update address leaf?)
    (hserial : ∀ leaf, leaf? = some leaf → leaf.serial = map.fresh)
    (htable : Leaf.tableOf leaf? =
      (Leaf.tableOf (map.leaves address)).update (address.digit 0) value?)
    (hsize : size = Contents.size (Function.update map.contents address value?)) :
    map.Updated address value?
      ⟨size, level, some root, leaf?.map (.settled address), map.fresh + 1⟩ := by
  have hfind : (Trie.leaves level (some root)).find =
      Function.update map.contents address value? := by
    rw [hleaves]
    exact hsound.leaves_wellFormed.find_update htable
  have hself : ∀ leaf, leaf? = some leaf →
      Trie.leaves level (some root) address = some leaf := by
    intro leaf hleaf
    rw [hleaves, Leaves.update_of_block_eq rfl, hleaf]
  have hnumbered : (Trie.leaves level (some root)).Numbered (map.fresh + 1) := by
    rw [hleaves]
    refine (hsound.leaves_numbered.mono (Nat.le_succ _)).update _ fun leaf hleaf => ?_
    rw [hserial leaf hleaf]
    exact Nat.lt_succ_self _
  have honce : ∀ leaf, leaf? = some leaf → ∀ other held,
      Trie.leaves level (some root) other = some held → held.serial = leaf.serial →
        other.block = address.block := by
    intro leaf hleaf other held hheld hsame
    by_contra hblock
    rw [hleaves, Leaves.update_of_block_ne hblock] at hheld
    have hless := hsound.leaves_numbered other held hheld
    rw [hsame, hserial leaf hleaf] at hless
    exact absurd hless (lt_irrefl _)
  obtain ⟨hsettled, hcontents⟩ :=
    sound_settled hlevel hroot hlow (hfind ▸ hsize) hnumbered hself honce
  exact ⟨hsettled, (congrArg Leaves.find hcontents).trans hfind⟩

/-- A new leaf takes the place of the staged one, and the trie stays as it is. -/
theorem withStaged (hsound : map.Sound) (hstaged : map.stagingFor? address = some staging)
    {node : Node V} {size : Nat} {value? : Option V}
    (hnode : node.Stores (staging.leaf.node.find.update (address.digit 0) value?))
    (hsize : size = Contents.size (Function.update map.contents address value?)) :
    map.Updated address value? (map.withStaged size staging node) := by
  obtain ⟨hstaging, hblock⟩ := stagingFor?_eq_some hstaged
  have hleaves : (map.withStaged size staging node).leaves =
      map.leaves.update address (some ⟨map.fresh, node⟩) := by
    rw [leaves_of_staged hstaging, ← Leaves.update_block _ address, ← hblock, Leaves.update_update]
    rfl
  have hfind : (map.leaves.update address (some ⟨map.fresh, node⟩)).find =
      Function.update map.contents address value? := by
    apply hsound.leaves_wellFormed.find_update
    rw [hsound.leaves_of_stagingFor? hstaged]
    exact hnode.find_eq
  refine ⟨?_, (congrArg Leaves.find hleaves).trans hfind⟩
  have hroot : map.root ≠ none := by
    intro hnone
    rw [hsound.empty_of_root hnone] at hstaging
    cases hstaging
  exact {
    empty_of_root := fun hnone => absurd hnone hroot
    level_le := hsound.level_le
    root := hsound.root
    block := by
      rintro _ ⟨⟩
      exact hsound.block staging hstaging
    target := by
      rintro _ ⟨⟩
      exact hsound.target staging hstaging
    once := by
      rintro _ other held ⟨⟩ hheld hserial
      exact hsound.once staging other held hstaging hheld hserial
    node := by
      rintro _ ⟨⟩
      exact hnode.wellFormed
    settled := by
      rintro _ ⟨⟩ hsettled
      have hless := hsound.target_numbered hstaging
      rw [Staging.isDiverged, Bool.not_eq_false', Leaf.same_iff] at hsettled
      exact absurd hsettled hless.ne'
    numbered := hsound.numbered.mono (Nat.le_succ _)
    staged_numbered := by
      rintro _ ⟨⟩
      exact Nat.lt_succ_self _
    low := by
      rw [hleaves]
      exact hsound.low.update _ _
    size := by rwa [contents, hleaves, hfind] }

/-! ### Insertion -/

theorem size_inserted (hsound : map.Sound) (address : Address) (value : V) :
    map.size + (map.contents address).isNone.toNat =
      Contents.size (Function.update map.contents address (some value)) := by
  rw [Contents.size_update_some, hsound.size]

theorem insert_staged {key : Int32} (hsound : map.Sound)
    (hstaged : map.stagingFor? (ofKey key) = some staging) (value : V) :
    ∃ node, map.insert key value = .ok
        ⟨map.withStaged (map.size + (map.contents (ofKey key)).isNone.toNat) staging node, []⟩ ∧
      node.Stores (staging.leaf.node.find.update ((ofKey key).digit 0) (some value)) := by
  have hnode := hsound.node staging (stagingFor?_eq_some hstaged).1
  obtain ⟨node, hput, hstored⟩ := hnode.stores.put_ok ((ofKey key).digit 0) value
  refine ⟨node, ?_, hstored⟩
  rw [contents, Leaves.find_eq, hsound.leaves_of_stagingFor? hstaged]
  simp only [insert, hstaged, slotAt_zero, hput, Checked.ok_bind, Checked.pure_eq, Leaf.tableOf,
    Node.tableOf, Option.map_some]

/-- The first value of a block stands alone in a new leaf. -/
theorem settle_single (hsound : map.Sound) {level : Nat} {root : Trie V} {value : V}
    (hlevel : level ≤ maxLevel) (hroot : root.WellFormed level)
    (hlow : (Trie.leaves level (some root)).Low level) (hfree : map.leaves address = none)
    (hleaves : Trie.leaves level (some root) =
      map.leaves.update address (some ⟨map.fresh, .one (address.digit 0) value⟩)) :
    map.Updated address (some value) ⟨map.size + 1, level, some root,
      some (.settled address ⟨map.fresh, .one (address.digit 0) value⟩), map.fresh + 1⟩ := by
  have hserial : ∀ held, some (⟨map.fresh, .one (address.digit 0) value⟩ : Leaf V) = some held →
      held.serial = map.fresh := by
    rintro held ⟨⟩
    rfl
  have htable : Leaf.tableOf (some (⟨map.fresh, .one (address.digit 0) value⟩ : Leaf V)) =
      (Leaf.tableOf (map.leaves address)).update (address.digit 0) (some value) := by
    rw [hfree]
    exact (Node.stores_one _ value).find_eq
  have hsize : map.size + 1 =
      Contents.size (Function.update map.contents address (some value)) := by
    rw [← hsound.size_inserted, contents, Leaves.find_eq, hfree]
    rfl
  exact hsound.settle hlevel hroot hlow hleaves hserial htable hsize

theorem insertGrowing_ok (hsound : map.Sound) (hreach : map.rootLevel < address.minLevel)
    (value : V) :
    ∃ revision, map.insertGrowing address value address.minLevel = .ok revision ∧
      map.Updated address (some value) revision.map := by
  obtain ⟨root?, merges, hmerge, hroots, hleaves⟩ := hsound.mergedRoot_ok
  have hbottom : (⟨map.fresh, .one (address.digit 0) value⟩ : Leaf V).node.WellFormed := trivial
  obtain ⟨root, hgrow, hroot, hgrown⟩ := Trie.grow_ok hbottom hreach hroots
  rw [hleaves] at hgrown
  have hlow : (Trie.leaves address.minLevel (some root)).Low address.minLevel :=
    Or.inr ⟨address, _, rfl, by rw [hgrown, Leaves.update_of_block_eq rfl]⟩
  have hupdated := hsound.settle_single address.minLevel_le_maxLevel hroot hlow
    (hsound.leaves_of_not_reach hreach) hgrown
  refine ⟨⟨_, .grew map.rootLevel address.minLevel address :: merges⟩, ?_, hupdated⟩
  simp only [insertGrowing, slotAt_zero, hmerge, hgrow, Checked.ok_bind, Checked.pure_eq]

theorem insertWithin_empty_ok (hreach : address.minLevel ≤ 0) (value : V) :
    ∃ revision, (empty : IntMap V).insertWithin address value = .ok revision ∧
      empty.Updated address (some value) revision.map := by
  let leaf : Leaf V := ⟨0, .one (address.digit 0) value⟩
  have hbottom : (Trie.leaf leaf).WellFormed 0 := trivial
  have hleaves : Trie.leaves 0 (some (.leaf leaf)) =
      (empty : IntMap V).leaves.update address (some leaf) :=
    Trie.leaves_eq_update hreach fun other => rfl
  have hfree : (empty : IntMap V).leaves address = none := by rw [leaves_empty]
  have hupdated :=
    sound_empty.settle_single (Nat.zero_le _) hbottom (Or.inl rfl) hfree hleaves
  refine ⟨⟨_, []⟩, ?_, hupdated⟩
  simp only [leaf, insertWithin, empty, slotAt_zero, Checked.ok_bind, Checked.pure_eq]

theorem insertWithin_ok (hsound : map.Sound) (hstaged : map.stagingFor? address = none)
    (hreach : address.minLevel ≤ map.rootLevel) (value : V) :
    ∃ revision, map.insertWithin address value = .ok revision ∧
      map.Updated address (some value) revision.map := by
  cases hroot : map.root with
  | none =>
      obtain rfl := hsound.empty_of_root hroot
      exact insertWithin_empty_ok hreach value
  | some root =>
      obtain ⟨written, hwrite, hwf, hnumber, hleaf, hadded, hpaths⟩ :=
        Trie.write_ok map.fresh address value (hsound.root root hroot) hsound.level_le
      have hbefore : map.trieLeaves address = root.leafOn address map.rootLevel := by
        rw [trieLeaves, hroot, Trie.leaves_of_reach hreach]
        rfl
      have hchanged : Trie.leaves map.rootLevel (some written.trie) =
          map.trieLeaves.update address (some written.leaf) := by
        rw [trieLeaves, hroot]
        exact Trie.leaves_eq_update hreach hpaths
      obtain ⟨merged, merges, hmerge, hmerged, hleaves⟩ :=
        hsound.mergeBeside_ok hstaged hwf hreach hchanged
      rw [← hbefore, ← hsound.leaves_of_not_stagingFor? hstaged] at hleaf hadded
      have hlow : (Trie.leaves map.rootLevel (some merged)).Low map.rootLevel := by
        rw [hleaves]
        exact hsound.low.update address _
      have hsize : map.size + written.added.toNat =
          Contents.size (Function.update map.contents address (some value)) := by
        rw [← hsound.size_inserted, hadded, contents, Leaves.find_eq]
      have hserial : ∀ held, some written.leaf = some held → held.serial = map.fresh := by
        rintro held ⟨⟩
        exact hnumber
      have hupdated := hsound.settle hsound.level_le hmerged hlow hleaves hserial hleaf.find_eq hsize
      refine ⟨⟨_, merges⟩, ?_, hupdated⟩
      simp only [insertWithin, hroot, hwrite, hmerge, Checked.ok_bind, Checked.pure_eq,
        Option.map_some]

theorem insert_ok (hsound : map.Sound) (key : Int32) (value : V) :
    ∃ revision, map.insert key value = .ok revision ∧
      map.Updated (ofKey key) (some value) revision.map := by
  cases hstaged : map.stagingFor? (ofKey key) with
  | some staging =>
      obtain ⟨node, hinsert, hnode⟩ := hsound.insert_staged hstaged value
      exact ⟨_, hinsert, hsound.withStaged hstaged hnode (hsound.size_inserted (ofKey key) value)⟩
  | none =>
      by_cases hreach : map.rootLevel < (ofKey key).minLevel
      · rw [insert, hstaged]
        simp only [if_pos hreach]
        exact hsound.insertGrowing_ok hreach value
      · rw [insert, hstaged]
        simp only [if_neg hreach]
        exact hsound.insertWithin_ok hstaged (Nat.not_lt.mp hreach) value

/-! ### Removal -/

theorem unchanged (hsound : map.Sound) (hfree : map.contents address = none) :
    map.Updated address none map :=
  ⟨hsound, (Contents.update_none_eq_self hfree).symm⟩

theorem sizeLess_ok (hsound : map.Sound) {held : V} (hheld : map.contents address = some held) :
    map.sizeLess = .ok (map.size - 1) ∧
      map.size - 1 = Contents.size (Function.update map.contents address none) := by
  have hsize := Contents.size_update_none hheld
  rw [← hsound.size] at hsize
  constructor
  · rw [sizeLess, if_neg (by omega)]
  · omega

/-- What is left of the trie sinks as far as it can. -/
theorem settle_lowered (hsound : map.Sound) {root : Trie V} {leaf? : Option (Leaf V)} {held : V}
    (hheld : map.contents address = some held) (hroot : root.WellFormed map.rootLevel)
    (hleaves : Trie.leaves map.rootLevel (some root) = map.leaves.update address leaf?)
    (hserial : ∀ leaf, leaf? = some leaf → leaf.serial = map.fresh)
    (htable : Leaf.tableOf leaf? =
      (Leaf.tableOf (map.leaves address)).update (address.digit 0) none) :
    map.Updated address none ⟨map.size - 1, (root.lower map.rootLevel).1,
      some (root.lower map.rootLevel).2.1, leaf?.map (.settled address), map.fresh + 1⟩ := by
  have hle := root.collapse_le map.rootLevel
  obtain ⟨hwf, hsame, hlow⟩ := Trie.collapse_spec hroot hsound.level_le
  rw [← hsame] at hlow hleaves
  exact hsound.settle (hle.trans hsound.level_le) hwf hlow hleaves hserial htable
    (hsound.sizeLess_ok hheld).2

theorem updated_empty (hsound : map.Sound) {leaf? : Option (Leaf V)}
    (hleaves : Trie.leaves map.rootLevel none = map.leaves.update address leaf?)
    (htable : Leaf.tableOf leaf? =
      (Leaf.tableOf (map.leaves address)).update (address.digit 0) none) :
    map.Updated address none empty := by
  have hfind := hsound.leaves_wellFormed.find_update htable
  rw [← hleaves] at hfind
  refine ⟨sound_empty, Eq.trans ?_ hfind⟩
  rw [contents_empty]
  funext other
  simp [Trie.leaves, Leaves.find, Contents.empty]

/-- The last value of the staged block goes with the whole block. -/
theorem removeFromTrie_whole_ok (hsound : map.Sound) (hstaged : map.stagingFor? address = some staging)
    {held : V} (hheld : staging.leaf.node.find (address.digit 0) = some held)
    (hlast : staging.leaf.node.find.update (address.digit 0) none = Table.empty) :
    ∃ revision, map.removeFromTrie address true = .ok revision ∧
      map.Updated address none revision.map := by
  obtain ⟨hstaging, hblock⟩ := stagingFor?_eq_some hstaged
  have htarget := hsound.target staging hstaging
  rw [hblock, hsound.trieLeaves_wellFormed.congr _ _ address.block_block] at htarget
  obtain ⟨hreach, root, hroot, hleaf⟩ := trieLeaves_eq_some_iff.mp htarget
  obtain ⟨erased, herase, hrests, hserial, hremains, hpaths⟩ :=
    Trie.erase?_present map.fresh (hsound.root root hroot) hsound.level_le hleaf (Or.inl rfl)
  have hgone : erased.leaf? = none :=
    Option.map_eq_none_iff.mp (Node.eq_none_of_remains_empty hremains)
  have htable : Leaf.tableOf erased.leaf? =
      (Leaf.tableOf (map.leaves address)).update (address.digit 0) none := by
    rw [hgone, hsound.leaves_of_stagingFor? hstaged]
    exact hlast.symm
  have hleaves : Trie.leaves map.rootLevel erased.trie? = map.leaves.update address erased.leaf? := by
    rw [leaves_of_staged hstaging, hblock, Leaves.update_block, Leaves.update_update, trieLeaves, hroot]
    exact Trie.leaves_eq_update hreach hpaths
  have hvalue : map.contents address = some held := by
    rw [contents, Leaves.find_eq, hsound.leaves_of_stagingFor? hstaged]
    exact hheld
  cases hrest : erased.trie? with
  | none =>
      refine ⟨⟨empty, []⟩, ?_, hsound.updated_empty (hrest ▸ hleaves) htable⟩
      simp only [removeFromTrie, if_neg (Nat.not_lt.mpr hreach), hroot, herase, hrest,
        Checked.ok_bind, Checked.pure_eq]
  | some rest =>
      have hlowered :=
        hsound.settle_lowered hvalue (hrests rest hrest) (hrest ▸ hleaves) hserial htable
      refine ⟨⟨_, [] ++ (rest.lower map.rootLevel).2.2⟩, ?_, hlowered⟩
      simp only [removeFromTrie, if_neg (Nat.not_lt.mpr hreach), hroot, herase, hrest,
        (hsound.sizeLess_ok hvalue).1, Checked.ok_bind, Checked.pure_eq, if_true]

/-- Where erasing another block than the staged one leaves no trie, nothing was staged. -/
theorem leaves_of_emptied (hsound : map.Sound) (hstaged : map.stagingFor? address = none)
    {leaf? : Option (Leaf V)}
    (hchanged : Trie.leaves map.rootLevel none = map.trieLeaves.update address leaf?) :
    map.leaves = map.trieLeaves := by
  cases hstaging : map.staging with
  | none => exact leaves_of_unstaged hstaging
  | some staging =>
      have hne := block_ne_of_stagingFor? hstaged hstaging
      rw [← hsound.block staging hstaging] at hne
      have htarget := congrFun hchanged staging.block
      rw [Leaves.update_of_block_ne hne, hsound.target staging hstaging] at htarget
      simp [Trie.leaves] at htarget

theorem removeFromTrie_absent (hsound : map.Sound) (hstaged : map.stagingFor? address = none)
    (hfree : map.contents address = none) :
    map.removeFromTrie address false = .ok ⟨map, []⟩ := by
  by_cases hreach : map.rootLevel < address.minLevel
  · simp only [removeFromTrie, if_pos hreach, Checked.pure_eq]
  · cases hroot : map.root with
    | none => simp only [removeFromTrie, if_neg hreach, hroot, Checked.pure_eq]
    | some root =>
        have habsent : ∀ leaf, root.leafOn address map.rootLevel = some leaf →
            false = false ∧ leaf.node.find (address.digit 0) = none := by
          intro leaf hleaf
          have htrie := trieLeaves_eq_some_iff.mpr ⟨Nat.not_lt.mp hreach, root, hroot, hleaf⟩
          rw [contents, Leaves.find_eq, hsound.leaves_of_not_stagingFor? hstaged, htrie] at hfree
          exact ⟨rfl, hfree⟩
        simp only [removeFromTrie, if_neg hreach, hroot,
          Trie.erase?_absent map.fresh (hsound.root root hroot) hsound.level_le habsent,
          Checked.ok_bind, Checked.pure_eq]

theorem removeFromTrie_present_ok (hsound : map.Sound) (hstaged : map.stagingFor? address = none)
    {held : V} (hvalue : map.contents address = some held) :
    ∃ revision, map.removeFromTrie address false = .ok revision ∧
      map.Updated address none revision.map := by
  obtain ⟨leaf, hleaves, hheld⟩ := Option.bind_eq_some_iff.mp hvalue
  obtain ⟨hreach, root, hroot, hleaf⟩ :=
    trieLeaves_eq_some_iff.mp ((hsound.leaves_of_not_stagingFor? hstaged).symm.trans hleaves)
  obtain ⟨erased, herase, hrests, hserial, hremains, hpaths⟩ :=
    Trie.erase?_present map.fresh (hsound.root root hroot) hsound.level_le hleaf
      (show false = true ∨ _ from Or.inr ⟨held, hheld⟩)
  have htable : Leaf.tableOf erased.leaf? =
      (Leaf.tableOf (map.leaves address)).update (address.digit 0) none := by
    rw [hleaves]
    exact Node.tableOf_eq_of_remains hremains
  have hchanged : Trie.leaves map.rootLevel erased.trie? =
      map.trieLeaves.update address erased.leaf? := by
    rw [trieLeaves, hroot]
    exact Trie.leaves_eq_update hreach hpaths
  cases hrest : erased.trie? with
  | none =>
      rw [hrest] at hchanged
      have hunstaged := hsound.leaves_of_emptied hstaged hchanged
      refine ⟨⟨empty, []⟩, ?_, hsound.updated_empty (hunstaged ▸ hchanged) htable⟩
      simp only [removeFromTrie, if_neg (Nat.not_lt.mpr hreach), hroot, herase, hrest,
        Checked.ok_bind, Checked.pure_eq]
  | some rest =>
      obtain ⟨merged, merges, hmerge, hmerged, hgrafted⟩ :=
        hsound.mergeBeside_ok hstaged (hrests rest hrest) hreach (hrest ▸ hchanged)
      have hlowered := hsound.settle_lowered hvalue hmerged hgrafted hserial htable
      refine ⟨⟨_, merges ++ (merged.lower map.rootLevel).2.2⟩, ?_, hlowered⟩
      simp only [removeFromTrie, if_neg (Nat.not_lt.mpr hreach), hroot, herase, hrest, hmerge,
        (hsound.sizeLess_ok hvalue).1, Checked.ok_bind, Checked.pure_eq, Bool.false_eq_true, if_false]

theorem removeFromTrie_part_ok (hsound : map.Sound) (hstaged : map.stagingFor? address = none) :
    ∃ revision, map.removeFromTrie address false = .ok revision ∧
      map.Updated address none revision.map := by
  cases hvalue : map.contents address with
  | none =>
      exact ⟨⟨map, []⟩, hsound.removeFromTrie_absent hstaged hvalue, hsound.unchanged hvalue⟩
  | some held => exact hsound.removeFromTrie_present_ok hstaged hvalue

theorem remove_ok (hsound : map.Sound) (key : Int32) :
    ∃ revision, map.remove key = .ok revision ∧
      map.Updated (ofKey key) none revision.map := by
  cases hstaged : map.stagingFor? (ofKey key) with
  | none =>
      rw [remove, hstaged]
      exact hsound.removeFromTrie_part_ok hstaged
  | some staging =>
      have hstores := (hsound.node staging (stagingFor?_eq_some hstaged).1).stores
      have hvalue : map.contents (ofKey key) = staging.leaf.node.find ((ofKey key).digit 0) := by
        rw [contents, Leaves.find_eq, hsound.leaves_of_stagingFor? hstaged]
        rfl
      cases hheld : staging.leaf.node.find ((ofKey key).digit 0) with
      | none =>
          refine ⟨⟨map, []⟩, ?_, hsound.unchanged (hvalue.trans hheld)⟩
          simp only [remove, hstaged, slotAt_zero, hstores.get?_eq, hheld, Checked.ok_bind,
            Checked.pure_eq]
      | some held =>
          obtain ⟨rest?, hremove, hremains⟩ := hstores.remove_ok hheld
          cases rest? with
          | none =>
              obtain ⟨revision, hwhole, hupdated⟩ :=
                hsound.removeFromTrie_whole_ok hstaged hheld hremains
              refine ⟨revision, ?_, hupdated⟩
              simp only [remove, hstaged, slotAt_zero, hstores.get?_eq, hheld, hremove, hwhole,
                Checked.ok_bind]
          | some node =>
              obtain ⟨hless, hsize⟩ := hsound.sizeLess_ok (hvalue.trans hheld)
              refine ⟨⟨map.withStaged (map.size - 1) staging node, []⟩, ?_,
                hsound.withStaged hstaged hremains hsize⟩
              simp only [remove, hstaged, slotAt_zero, hstores.get?_eq, hheld, hremove, hless,
                Checked.ok_bind, Checked.pure_eq]

end Sound

end RadixMap.IntMap
