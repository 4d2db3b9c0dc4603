import Mathlib
import RadixMap.Map.Dump
import RadixMap.Proofs.History
import RadixMap.Proofs.Outcomes

/-!
# Deferred writes

Writes to the staged block go into the staged leaf and leave the trie as it is, however many there are.
None of them is lost: the next write elsewhere that has an effect brings the leaf into the trie with all
of them.
-/

namespace RadixMap

open Address

variable {V : Type}

/-- A write to one key. -/
inductive Write (V : Type)
  | insert (key : Int32) (value : V)
  | remove (key : Int32)

namespace Write

def key : Write V → Int32
  | insert key _ => key
  | remove key => key

def apply : Write V → IntMap V → Checked (Revision V)
  | insert key value, map => map.insert key value
  | remove key, map => map.remove key

def replay : Write V → FiniteMap V → FiniteMap V
  | insert key value, model => model.insert key value
  | remove key, model => model.erase key

/-- An insertion acts even where it puts the value that is there; a removal needs something to take. -/
def Acts (model : FiniteMap V) : Write V → Prop
  | insert _ _ => True
  | remove key => key ∈ model

end Write

namespace FiniteMap

def replayAll (model : FiniteMap V) : List (Write V) → FiniteMap V
  | [] => model
  | write :: rest => replayAll (write.replay model) rest

/-- At least one of the writes acts. -/
def SomeActs (model : FiniteMap V) : List (Write V) → Prop
  | [] => False
  | write :: rest => write.Acts model ∨ SomeActs (write.replay model) rest

def Meets (model : FiniteMap V) (block : Address) : Prop :=
  ∃ key ∈ model, (ofKey key).block = block

/-- After none of the writes the block is empty. -/
def KeepsBlock (block : Address) (model : FiniteMap V) : List (Write V) → Prop
  | [] => True
  | write :: rest => Meets (write.replay model) block ∧ KeepsBlock block (write.replay model) rest

end FiniteMap

/-- A leaf with this node holds the entries of the block and no others. -/
structure Node.HoldsBlock (leaf : Node V) (block : Address) (model : FiniteMap V) : Prop where
  wellFormed : leaf.WellFormed
  get? : ∀ key, (ofKey key).block = block →
    (do leaf.get? (← (ofKey key).slotAt 0)) = .ok (model.lookup key)

namespace IntMap

variable {map : IntMap V} {model : FiniteMap V} {staging : Staging V} {block : Address}
  {revision : Revision V}

def writeAll (map : IntMap V) (writes : List (Write V)) : Checked (Revision V) :=
  writes.foldlM (fun revision write => revision.andThen write.apply) ⟨map, []⟩

/-- The trie has a leaf for the block, with the entries of the block. -/
def Links (map : IntMap V) (block : Address) (model : FiniteMap V) : Prop :=
  block.minLevel ≤ map.rootLevel ∧ ∃ root leaf, map.root = some root ∧
    root.leafAt? block map.rootLevel = .ok (some leaf) ∧ leaf.node.HoldsBlock block model

/-- The revision differs from the map in the staged leaf only, and its trie lacks writes if that of the
map did or if some write acted. -/
structure Deferred (map : IntMap V) (staging : Staging V) (acted : Prop) (revision : Revision V) :
    Prop where
  root : revision.map.root = map.root
  rootLevel : revision.map.rootLevel = map.rootLevel
  journal : revision.journal = []
  staged : ∃ later, revision.map.staging = some later ∧ later.block = staging.block ∧
    later.target = staging.target ∧
    (later.isDiverged = true ↔ staging.isDiverged = true ∨ acted)

namespace Deferred

variable {acted next : Prop}

theorem unchanged (hstaging : map.staging = some staging) (hidle : ¬acted) :
    map.Deferred staging acted ⟨map, []⟩ where
  root := rfl
  rootLevel := rfl
  journal := rfl
  staged := ⟨staging, hstaging, rfl, rfl, by rw [or_iff_left hidle]⟩

/-- The leaf of a write to the staged block is another one than the target, whatever it holds. -/
theorem withStaged (hsound : map.Sound) (hstaging : map.staging = some staging) {size : Nat}
    {node : Node V} (hacted : acted) :
    map.Deferred staging acted ⟨map.withStaged size staging node, []⟩ where
  root := rfl
  rootLevel := rfl
  journal := rfl
  staged := by
    have hdiverged : Staging.isDiverged { staging with leaf := ⟨map.fresh, node⟩ } = true := by
      rw [Staging.isDiverged, Bool.not_eq_true', Leaf.same, beq_eq_false_iff_ne]
      exact (hsound.target_numbered hstaging).ne'
    exact ⟨_, rfl, rfl, rfl, iff_of_true hdiverged (Or.inr hacted)⟩

theorem andThen {later : Staging V} {taken : Revision V} (hfirst : map.Deferred staging acted revision)
    (hlater : revision.map.staging = some later) (hnext : revision.map.Deferred later next taken) :
    map.Deferred staging (acted ∨ next) ⟨taken.map, revision.journal ++ taken.journal⟩ := by
  obtain ⟨held, hheld, hblock, htarget, hdiverged⟩ := hfirst.staged
  obtain ⟨last, hlast, hlastBlock, hlastTarget, hlastDiverged⟩ := hnext.staged
  rw [hlater] at hheld
  cases hheld
  refine ⟨hnext.root.trans hfirst.root, hnext.rootLevel.trans hfirst.rootLevel, ?_, last, hlast,
    hlastBlock.trans hblock, hlastTarget.trans htarget, ?_⟩
  · rw [hfirst.journal, hnext.journal, List.append_nil]
  · rw [hlastDiverged, hdiverged, or_assoc]

theorem dumpTrie_eq (hstaging : map.staging = some staging)
    (hdeferred : map.Deferred staging acted revision) : revision.map.dumpTrie = map.dumpTrie := by
  obtain ⟨later, hlater, -, htarget, -⟩ := hdeferred.staged
  unfold dumpTrie
  rw [hdeferred.root, hdeferred.rootLevel, hlater, hstaging, Option.map_some, Option.map_some, htarget]

end Deferred

namespace Refines

variable (hrefines : map.Refines model)

include hrefines

theorem write_ok (write : Write V) :
    ∃ revision, write.apply map = .ok revision ∧ revision.map.Refines (write.replay model) := by
  cases write with
  | insert key value => exact hrefines.insert_ok key value
  | remove key => exact hrefines.remove_ok key

theorem not_refines_erase {key : Int32} (hkey : key ∈ model) : ¬map.Refines (model.erase key) := by
  intro herased
  have hgone := (herased.contents_isSome_iff key).mp ((hrefines.contents_isSome_iff key).mpr hkey)
  exact (Finmap.mem_erase.mp hgone).1 rfl

theorem holdsBlock {leaf : Leaf V} (hblock : block.block = block)
    (hleaf : map.leaves block = some leaf) : leaf.node.HoldsBlock block model := by
  have hleaves := hrefines.sound.leaves_wellFormed
  have hwf := hleaves.leaf block leaf hleaf
  refine ⟨hwf, fun key hkey => ?_⟩
  have hsame : map.leaves (ofKey key) = some leaf := by
    rw [hleaves.congr _ _ (hkey.trans hblock.symm), hleaf]
  rw [slotAt_zero, Checked.ok_bind, hwf.stores.get?_eq, ← hrefines.contents,
    IntMap.contents, Leaves.find_eq, hsame]
  rfl

theorem exists_leaf (hblock : block.block = block) (hmeets : model.Meets block) :
    ∃ leaf, map.leaves block = some leaf := by
  obtain ⟨key, hkey, hkeyBlock⟩ := hmeets
  obtain ⟨value, hvalue⟩ := Option.isSome_iff_exists.mp ((hrefines.contents_isSome_iff key).mpr hkey)
  obtain ⟨leaf, hleaf, -⟩ := Option.bind_eq_some_iff.mp hvalue
  rw [hrefines.sound.leaves_wellFormed.congr _ _ (hkeyBlock.trans hblock.symm)] at hleaf
  exact ⟨leaf, hleaf⟩

/-- Once the trie lacks no write, it has the leaves that lookups read. -/
theorem links (hsettled : ∀ staging, map.staging = some staging → staging.isDiverged = false)
    (hblock : block.block = block) (hmeets : model.Meets block) : map.Links block model := by
  have hsound := hrefines.sound
  obtain ⟨leaf, hleaf⟩ := hrefines.exists_leaf hblock hmeets
  have htrie := hleaf
  rw [hsound.leaves_of_settled (diverged?_of_settled hsettled)] at htrie
  obtain ⟨hreach, root, hroot, hon⟩ := trieLeaves_eq_some_iff.mp htrie
  refine ⟨hreach, root, leaf, hroot, ?_, hrefines.holdsBlock hblock hleaf⟩
  rw [Trie.leafAt?_eq _ (hsound.root root hroot) hsound.level_le, hon]

end Refines

/-! ### A write to the staged block -/

theorem Refines.find_staged {key : Int32} (hrefines : map.Refines model)
    (hstaged : map.stagingFor? (ofKey key) = some staging) :
    staging.leaf.node.find ((ofKey key).digit 0) = model.lookup key := by
  rw [← hrefines.contents, IntMap.contents, Leaves.find_eq,
    hrefines.sound.leaves_of_stagingFor? hstaged]
  rfl

/-- A removal does not take the whole block while another key of it is left. -/
theorem Refines.not_last {key : Int32} {slot : Slot} (hrefines : map.Refines model)
    (hstaged : map.stagingFor? (ofKey key) = some staging) (hkey : key ∈ model)
    (hslot : (ofKey key).slotAt 0 = .ok slot)
    (hmeets : FiniteMap.Meets (model.erase key) staging.block) :
    staging.leaf.node.remove slot ≠ .ok none := by
  intro hlast
  obtain ⟨hstaging, hblock⟩ := stagingFor?_eq_some hstaged
  rw [slotAt_zero] at hslot
  cases hslot
  obtain ⟨held, hheld⟩ := Finmap.mem_iff.mp hkey
  have hempty := (hrefines.sound.node staging hstaging).stores.update_eq_empty
    ((hrefines.find_staged hstaged).trans hheld) hlast
  obtain ⟨other, hother, hotherBlock⟩ := hmeets
  rw [Finmap.mem_erase] at hother
  obtain ⟨kept, hkept⟩ := Finmap.mem_iff.mp hother.2
  have hne : (ofKey other).digit 0 ≠ (ofKey key).digit 0 := by
    intro hdigit
    exact hother.1 (FiniteMap.ofKey_injective
      (eq_iff_block_digit.mpr ⟨hotherBlock.trans hblock, hdigit⟩))
  have hfree := congrFun hempty ((ofKey other).digit 0)
  rw [Table.update_of_ne hne,
    hrefines.find_staged (stagingFor?_of_block_eq hstaging hotherBlock), hkept] at hfree
  cases hfree

theorem Refines.deferred_insert (hrefines : map.Refines model) (hstaging : map.staging = some staging)
    {key : Int32} (value : V) (hblock : (ofKey key).block = staging.block) :
    ∃ revision, map.insert key value = .ok revision ∧
      revision.map.Refines (model.insert key value) ∧ map.Deferred staging True revision := by
  have hstaged := stagingFor?_of_block_eq hstaging hblock
  obtain ⟨revision, hinsert, hrefined⟩ := hrefines.insert_ok key value
  refine ⟨revision, hinsert, hrefined, ?_⟩
  cases inserted_of_insert hinsert with
  | staged hother =>
      rw [hstaged] at hother
      cases hother
      exact .withStaged hrefines.sound hstaging trivial
  | grown hnone => rw [hstaged] at hnone; cases hnone
  | placed hnone => rw [hstaged] at hnone; cases hnone
  | first hnone => rw [hstaged] at hnone; cases hnone

theorem Refines.deferred_remove (hrefines : map.Refines model) (hstaging : map.staging = some staging)
    {key : Int32} (hblock : (ofKey key).block = staging.block)
    (hmeets : FiniteMap.Meets (model.erase key) staging.block) :
    ∃ revision, map.remove key = .ok revision ∧
      revision.map.Refines (model.erase key) ∧ map.Deferred staging (key ∈ model) revision := by
  have hsound := hrefines.sound
  have hstaged := stagingFor?_of_block_eq hstaging hblock
  obtain ⟨revision, hremove, hupdated⟩ := hsound.remove_ok key
  have hrefined : revision.map.Refines (model.erase key) :=
    hrefines.of_updated hupdated (Finmap.lookup_erase key model) fun _ hne =>
      Finmap.lookup_erase_ne hne
  have hremoved := removed_of_remove hremove
  refine ⟨revision, hremove, hrefined, ?_⟩
  by_cases hkey : key ∈ model
  · cases hremoved with
    | absent => exact absurd hrefined (hrefines.not_refines_erase hkey)
    | staged hother =>
        rw [hstaged] at hother
        cases hother
        exact .withStaged hsound hstaging hkey
    | cleared =>
        obtain ⟨other, hother, -⟩ := hmeets
        have hheld := (hrefined.contents_isSome_iff other).mpr hother
        rw [contents_empty] at hheld
        cases hheld
    | dropped hother hslot hlast =>
        rw [hstaged] at hother
        cases hother
        exact absurd hlast (hrefines.not_last hstaged hkey hslot hmeets)
    | taken hnone =>
        rw [hstaged] at hnone
        cases hnone
  · have hfree : map.contents (ofKey key) = none := by
      rwa [hrefines.contents, Finmap.lookup_eq_none]
    rw [hsound.eq_of_removed_absent hfree hremoved hupdated]
    exact .unchanged hstaging hkey

theorem Refines.deferred_write (hrefines : map.Refines model) (hstaging : map.staging = some staging)
    (write : Write V) (hblock : (ofKey write.key).block = staging.block)
    (hmeets : FiniteMap.Meets (write.replay model) staging.block) :
    ∃ revision, write.apply map = .ok revision ∧
      revision.map.Refines (write.replay model) ∧
      map.Deferred staging (write.Acts model) revision := by
  cases write with
  | insert key value => exact hrefines.deferred_insert hstaging value hblock
  | remove key => exact hrefines.deferred_remove hstaging hblock hmeets

theorem deferred_run {acted : Prop} {writes : List (Write V)}
    (hdeferred : map.Deferred staging acted revision) (hrefines : revision.map.Refines model)
    (hblock : ∀ write ∈ writes, (ofKey write.key).block = staging.block)
    (hkept : FiniteMap.KeepsBlock staging.block model writes) :
    ∃ next, writes.foldlM (fun revision write => revision.andThen write.apply) revision = .ok next ∧
      next.map.Refines (model.replayAll writes) ∧
      map.Deferred staging (acted ∨ model.SomeActs writes) next := by
  -- The revision is general: the writes before it are the ones that `acted` is about.
  induction writes generalizing revision model acted with
  | nil => exact ⟨revision, rfl, hrefines, by rwa [FiniteMap.SomeActs, or_false]⟩
  | cons write rest ih =>
      obtain ⟨hmeets, hkept⟩ := hkept
      -- The block is staged still, whatever leaf it has by now.
      obtain ⟨later, hlater, hlaterBlock, -⟩ := hdeferred.staged
      have hwrite := hblock write List.mem_cons_self
      rw [← hlaterBlock] at hwrite hmeets
      obtain ⟨taken, happly, htaken, hstep⟩ := hrefines.deferred_write hlater write hwrite hmeets
      obtain ⟨next, hrun, hnext, hrest⟩ := ih (hdeferred.andThen hlater hstep) htaken
        (fun other hmem => hblock other (List.mem_cons_of_mem write hmem)) hkept
      refine ⟨next, ?_, hnext, ?_⟩
      · simp only [List.foldlM_cons, Revision.andThen, happly, Checked.ok_bind, Checked.pure_eq]
        exact hrun
      · rwa [FiniteMap.SomeActs, ← or_assoc]

/-! ### A write elsewhere -/

theorem settled_of_inserted {address : Address} (hstaged : map.stagingFor? address = none)
    (hinserted : map.Inserted address revision) :
    ∀ staging, revision.map.staging = some staging → staging.isDiverged = false := by
  intro staging hstaging
  cases hinserted with
  | staged hother => rw [hstaged] at hother; cases hother
  | grown => cases hstaging; exact Staging.isDiverged_settled _ _
  | placed => cases hstaging; exact Staging.isDiverged_settled _ _
  | first => cases hstaging; exact Staging.isDiverged_settled _ _

theorem settled_of_removed {address : Address} (hstaged : map.stagingFor? address = none)
    (hremoved : map.Removed address revision) :
    revision.map = map ∨
      ∀ staging, revision.map.staging = some staging → staging.isDiverged = false := by
  cases hremoved with
  | absent => exact Or.inl rfl
  | staged hother => rw [hstaged] at hother; cases hother
  | cleared => exact Or.inr fun staging hstaging => nomatch hstaging
  | dropped hother => rw [hstaged] at hother; cases hother
  | taken =>
      right
      intro staging hstaging
      obtain ⟨leaf, -, rfl⟩ := Option.map_eq_some_iff.mp hstaging
      exact Staging.isDiverged_settled _ _

theorem Refines.settled_of_write (hrefines : map.Refines model) {write : Write V}
    (hstaged : map.stagingFor? (ofKey write.key) = none) (hacts : write.Acts model)
    (happly : write.apply map = .ok revision) (hrefined : revision.map.Refines (write.replay model)) :
    ∀ staging, revision.map.staging = some staging → staging.isDiverged = false := by
  cases write with
  | insert key value => exact settled_of_inserted hstaged (inserted_of_insert happly)
  | remove key =>
      refine (settled_of_removed hstaged (removed_of_remove happly)).resolve_left fun hsame => ?_
      rw [hsame] at hrefined
      exact hrefines.not_refines_erase hacts hrefined

theorem lookup_replay_of_ne {write : Write V} {key : Int32} (hne : key ≠ write.key) :
    (write.replay model).lookup key = model.lookup key := by
  cases write with
  | insert other value => exact Finmap.lookup_insert_of_ne model hne
  | remove other => exact Finmap.lookup_erase_ne hne

theorem Links.congr {next : FiniteMap V} (hlinks : map.Links block next)
    (hsame : ∀ key, (ofKey key).block = block → next.lookup key = model.lookup key) :
    map.Links block model := by
  obtain ⟨hreach, root, leaf, hroot, hleaf, hholds⟩ := hlinks
  refine ⟨hreach, root, leaf, hroot, hleaf, hholds.wellFormed, fun key hkey => ?_⟩
  rw [hholds.get? key hkey, hsame key hkey]

/-- A write elsewhere brings the staged block into the trie. -/
structure HandsOver (map : IntMap V) (block : Address) (model : FiniteMap V) (after : IntMap V) :
    Prop where
  links : after.Links block model
  settled : ∀ staging, after.staging = some staging → staging.isDiverged = false
  get? : ∀ key, (ofKey key).block = block → after.get? key = map.get? key

theorem Refines.handsOver (hrefines : map.Refines model) (hstaging : map.staging = some staging)
    (write : Write V) (hblock : (ofKey write.key).block ≠ staging.block) (hacts : write.Acts model) :
    ∃ next, write.apply map = .ok next ∧ map.HandsOver staging.block model next.map := by
  have hsound := hrefines.sound
  obtain ⟨next, happly, hrefined⟩ := hrefines.write_ok write
  have hsettled := hrefines.settled_of_write (stagingFor?_of_block_ne hstaging hblock) hacts happly
    hrefined
  have hkept : ∀ key, (ofKey key).block = staging.block →
      (write.replay model).lookup key = model.lookup key := by
    intro key hkey
    apply lookup_replay_of_ne
    rintro rfl
    exact hblock hkey
  have hmeets : FiniteMap.Meets (write.replay model) staging.block := by
    -- A staged leaf is a node, so it has a value.
    obtain ⟨member, value, hmember, hvalue⟩ := hsound.exists_staged_value hstaging
    refine ⟨toKey member, ?_, hmember⟩
    rw [hrefines.contents_eq, ← hkept (toKey member) hmember] at hvalue
    exact Finmap.mem_of_lookup_eq_some hvalue
  refine ⟨next, happly, ?_, hsettled, fun key hkey => ?_⟩
  · exact (hrefined.links hsettled (hsound.block staging hstaging) hmeets).congr hkept
  · rw [hrefined.sound.get?_eq, hsound.get?_eq, hrefined.contents, hrefines.contents, hkept key hkey]

/-- What a run of writes to the staged block comes to: nothing but the staged leaf changes, which has
the entries that the writes give, and the next write elsewhere that acts hands all of them over. -/
structure Defers (map : IntMap V) (staging : Staging V) (model : FiniteMap V) (acted : Prop)
    (revision : Revision V) : Prop where
  deferred : map.Deferred staging acted revision
  dumpTrie : revision.map.dumpTrie = map.dumpTrie
  represents : revision.map.Represents model
  holds : ∀ later, revision.map.staging = some later →
    later.leaf.node.HoldsBlock staging.block model
  handsOver : ∀ write : Write V, (ofKey write.key).block ≠ staging.block → write.Acts model →
    ∃ next, write.apply revision.map = .ok next ∧
      revision.map.HandsOver staging.block model next.map

/-- **Deferred writes.** Writes to the staged block of a map that steps make stay in the staged leaf
until a write elsewhere brings them into the trie, and none is lost. -/
theorem reachable_defers {writes : List (Write V)} (hmap : map.Reachable)
    (hmodel : map.Represents model) (hstaging : map.staging = some staging)
    (hblock : ∀ write ∈ writes, (ofKey write.key).block = staging.block)
    (hkept : model.KeepsBlock staging.block writes) :
    ∃ revision, map.writeAll writes = .ok revision ∧
      map.Defers staging (model.replayAll writes) (model.SomeActs writes) revision := by
  have hrefines := hmodel.refines hmap.sound
  obtain ⟨revision, hrun, hrefined, hdeferred⟩ :=
    deferred_run (.unchanged hstaging not_false) hrefines hblock hkept
  rw [false_or] at hdeferred
  obtain ⟨later, hlater, hlaterBlock, -⟩ := hdeferred.staged
  refine ⟨revision, hrun, hdeferred, hdeferred.dumpTrie_eq hstaging, hrefined.represents, ?_, ?_⟩
  · intro other hother
    rw [hlater] at hother
    cases hother
    rw [← hlaterBlock]
    exact hrefined.holdsBlock (hrefined.sound.block later hlater) (leaves_staged hlater)
  · rw [← hlaterBlock]
    exact fun write => hrefined.handsOver hlater write

/-- An insertion, the removal of the key that was there before it, and the removal of a key that never
was there. -/
theorem defers_three_writes :
    let target : Leaf Nat := ⟨1, .one 6 1⟩
    let root : Trie Nat := .branch (.bitmap 5 [.leaf ⟨0, .one 3 0⟩, .leaf target])
    let staging : Staging Nat := ⟨95, target, target⟩
    let map : IntMap Nat := ⟨2, 1, some root, some staging, 2⟩
    let model : FiniteMap Nat := FiniteMap.insertAll ∅ [(3, 0), (70, 1)]
    let writes : List (Write Nat) := [.insert 71 2, .remove 70, .remove 64]
    map.Reachable ∧ map.Represents model ∧ map.staging = some staging ∧
      (∀ write ∈ writes, (ofKey write.key).block = staging.block) ∧
      model.KeepsBlock staging.block writes ∧
      ∃ revision, map.writeAll writes = .ok revision ∧
        map.Defers staging (model.replayAll writes) (model.SomeActs writes) revision := by
  intro target root staging map model writes
  have hstep : (Step.ofList [(3, 0), (70, 1)]).apply IntMap.empty = .ok map := rfl
  have hmap : map.Reachable := .step _ .empty hstep
  have hmodel : map.Represents model := (refines_empty.of_apply hstep).represents
  have hblock : ∀ write ∈ writes, (ofKey write.key).block = staging.block := by decide
  have hkept : model.KeepsBlock staging.block writes := by
    refine ⟨⟨71, ?_, by decide⟩, ⟨71, ?_, by decide⟩, ⟨71, ?_, by decide⟩, trivial⟩ <;> decide
  exact ⟨hmap, hmodel, rfl, hblock, hkept, reachable_defers hmap hmodel rfl hblock hkept⟩

end IntMap

end RadixMap
