import Mathlib
import RadixMap.Proofs.Invariant

/-!
# How a write ends

Each write to a map, read back from its result: which case was taken, what became of the trie and of
the staged leaf, and which events were recorded. Of a sound map, the values before the write tell some
of the cases apart.
-/

namespace RadixMap.IntMap

open Address

variable {V σ : Type} {map : IntMap V} {address : Address} {staging : Staging V}
  {revision : Revision V}

/-- The ways in which an insertion ends: into the staged leaf, into a trie with a higher root, into the
trie along a path of its own, and into a map without a root. -/
inductive Inserted (map : IntMap V) (address : Address) : Revision V → Prop
  | staged {staging : Staging V} {node : Node V} {size : Nat}
      (hstaged : map.stagingFor? address = some staging) :
      Inserted map address ⟨map.withStaged size staging node, []⟩
  | grown {root? : Option (Trie V)} {merges : List Event} {root : Trie V} {leaf : Leaf V} {size : Nat}
      (hstaged : map.stagingFor? address = none) (hreach : map.rootLevel < address.minLevel)
      (hmerge : map.mergedRoot = .ok (root?, merges)) :
      Inserted map address
        ⟨⟨size, address.minLevel, some root, some (.settled address leaf), map.fresh + 1⟩,
          .grew map.rootLevel address.minLevel address :: merges⟩
  | placed {root merged : Trie V} {merges : List Event} {leaf : Leaf V} {size : Nat}
      (hstaged : map.stagingFor? address = none) (hreach : address.minLevel ≤ map.rootLevel)
      (hmerge : map.mergeBeside address root = .ok (merged, merges)) :
      Inserted map address
        ⟨⟨size, map.rootLevel, some merged, some (.settled address leaf), map.fresh + 1⟩, merges⟩
  | first {leaf : Leaf V} (hstaged : map.stagingFor? address = none)
      (hreach : address.minLevel ≤ map.rootLevel) (hroot : map.root = none) :
      Inserted map address
        ⟨⟨1, 0, some (.leaf leaf), some (.settled address leaf), map.fresh + 1⟩, []⟩

/-- The ways in which a removal ends: nothing to take, out of a staged leaf that keeps other values,
with nothing left of the trie, with the whole staged block, and out of the trie along a path of its
own. -/
inductive Removed (map : IntMap V) (address : Address) : Revision V → Prop
  | absent : Removed map address ⟨map, []⟩
  | staged {staging : Staging V} {node : Node V} {size : Nat}
      (hstaged : map.stagingFor? address = some staging) (hsize : size + 1 = map.size) :
      Removed map address ⟨map.withStaged size staging node, []⟩
  | cleared : Removed map address ⟨empty, []⟩
  | dropped {staging : Staging V} {slot : Slot} {rest : Trie V} {leaf? : Option (Leaf V)} {size : Nat}
      (hstaged : map.stagingFor? address = some staging) (hslot : address.slotAt 0 = .ok slot)
      (hlast : staging.leaf.node.remove slot = .ok none) (hsize : size + 1 = map.size) :
      Removed map address
        ⟨⟨size, (rest.lower map.rootLevel).1, some (rest.lower map.rootLevel).2.1,
          leaf?.map (.settled address), map.fresh + 1⟩, (rest.lower map.rootLevel).2.2⟩
  | taken {rest merged : Trie V} {merges : List Event} {leaf? : Option (Leaf V)} {size : Nat}
      (hstaged : map.stagingFor? address = none)
      (hmerge : map.mergeBeside address rest = .ok (merged, merges)) (hsize : size + 1 = map.size) :
      Removed map address
        ⟨⟨size, (merged.lower map.rootLevel).1, some (merged.lower map.rootLevel).2.1,
          leaf?.map (.settled address), map.fresh + 1⟩, merges ++ (merged.lower map.rootLevel).2.2⟩

inductive Swept (map : IntMap V) : Revision V → Prop
  | rootless {merges : List Event} (hmerge : map.mergedRoot = .ok (none, merges)) :
      Swept map ⟨empty, []⟩
  | cleared {root : Trie V} {merges : List Event} (hmerge : map.mergedRoot = .ok (some root, merges)) :
      Swept map ⟨empty, merges ++ [.bulkDropped map.size]⟩
  | kept {root rest : Trie V} {merges : List Event} {size fresh : Nat}
      (hmerge : map.mergedRoot = .ok (some root, merges)) :
      Swept map
        ⟨⟨size, (rest.lower map.rootLevel).1, some (rest.lower map.rootLevel).2.1, none, fresh⟩,
          merges ++ (rest.lower map.rootLevel).2.2 ++ [.bulkKept size map.size]⟩

/-! ### Insertion -/

theorem inserted_of_insertGrowing {value : V} (hstaged : map.stagingFor? address = none)
    (hreach : map.rootLevel < address.minLevel)
    (hinsert : map.insertGrowing address value address.minLevel = .ok revision) :
    map.Inserted address revision := by
  obtain ⟨slot, -, hinsert⟩ := Checked.bind_eq_ok hinsert
  obtain ⟨⟨root?, merges⟩, hmerge, hinsert⟩ := Checked.bind_eq_ok hinsert
  obtain ⟨root, -, hinsert⟩ := Checked.bind_eq_ok hinsert
  cases hinsert
  exact .grown hstaged hreach hmerge

theorem inserted_of_insertWithin {value : V} (hstaged : map.stagingFor? address = none)
    (hreach : address.minLevel ≤ map.rootLevel)
    (hinsert : map.insertWithin address value = .ok revision) : map.Inserted address revision := by
  rw [insertWithin] at hinsert
  cases hroot : map.root with
  | none =>
      rw [hroot] at hinsert
      obtain ⟨slot, -, hinsert⟩ := Checked.bind_eq_ok hinsert
      cases hinsert
      exact .first hstaged hreach hroot
  | some root =>
      rw [hroot] at hinsert
      obtain ⟨written, -, hinsert⟩ := Checked.bind_eq_ok hinsert
      obtain ⟨⟨merged, merges⟩, hmerge, hinsert⟩ := Checked.bind_eq_ok hinsert
      cases hinsert
      exact .placed hstaged hreach hmerge

theorem inserted_of_insert {key : Int32} {value : V} (hinsert : map.insert key value = .ok revision) :
    map.Inserted (ofKey key) revision := by
  rw [insert] at hinsert
  cases hstaged : map.stagingFor? (ofKey key) with
  | some staging =>
      simp only [hstaged] at hinsert
      obtain ⟨slot, -, hinsert⟩ := Checked.bind_eq_ok hinsert
      obtain ⟨⟨node, added⟩, -, hinsert⟩ := Checked.bind_eq_ok hinsert
      cases hinsert
      exact .staged hstaged
  | none =>
      simp only [hstaged] at hinsert
      by_cases hreach : map.rootLevel < (ofKey key).minLevel
      · rw [if_pos hreach] at hinsert
        exact inserted_of_insertGrowing hstaged hreach hinsert
      · rw [if_neg hreach] at hinsert
        exact inserted_of_insertWithin hstaged (Nat.not_lt.mp hreach) hinsert

/-! ### Removal -/

theorem sizeLess_eq_ok {size : Nat} (hless : map.sizeLess = .ok size) : size + 1 = map.size := by
  rw [sizeLess] at hless
  split at hless
  · cases hless
  · cases hless
    omega

theorem removed_of_removeFromTrie {whole : Bool}
    (hwhole : whole = true → ∃ staging slot, map.stagingFor? address = some staging ∧
      address.slotAt 0 = .ok slot ∧ staging.leaf.node.remove slot = .ok none)
    (hpart : whole = false → map.stagingFor? address = none)
    (hremove : map.removeFromTrie address whole = .ok revision) : map.Removed address revision := by
  rw [removeFromTrie] at hremove
  by_cases hreach : map.rootLevel < address.minLevel
  · rw [if_pos hreach] at hremove
    cases hremove
    exact .absent
  · rw [if_neg hreach] at hremove
    cases hroot : map.root with
    | none =>
        rw [hroot] at hremove
        cases hremove
        exact .absent
    | some root =>
        rw [hroot] at hremove
        obtain ⟨erased?, -, hremove⟩ := Checked.bind_eq_ok hremove
        cases erased? with
        | none =>
            cases hremove
            exact .absent
        | some erased =>
            cases hrest : erased.trie? with
            | none =>
                simp only [hrest] at hremove
                cases hremove
                exact .cleared
            | some rest =>
                simp only [hrest] at hremove
                obtain ⟨⟨merged, merges⟩, hmerge, hremove⟩ := Checked.bind_eq_ok hremove
                obtain ⟨size, hless, hremove⟩ := Checked.bind_eq_ok hremove
                cases hremove
                cases whole with
                | true =>
                    obtain ⟨staging, slot, hstaged, hslot, hlast⟩ := hwhole rfl
                    cases hmerge
                    exact .dropped hstaged hslot hlast (sizeLess_eq_ok hless)
                | false => exact .taken (hpart rfl) hmerge (sizeLess_eq_ok hless)

theorem removed_of_remove {key : Int32} (hremove : map.remove key = .ok revision) :
    map.Removed (ofKey key) revision := by
  rw [remove] at hremove
  cases hstaged : map.stagingFor? (ofKey key) with
  | none =>
      simp only [hstaged] at hremove
      exact removed_of_removeFromTrie (fun hfalse => absurd hfalse Bool.false_ne_true)
        (fun _ => hstaged) hremove
  | some staging =>
      simp only [hstaged] at hremove
      obtain ⟨slot, hslot, hremove⟩ := Checked.bind_eq_ok hremove
      obtain ⟨held?, -, hremove⟩ := Checked.bind_eq_ok hremove
      cases held? with
      | none =>
          cases hremove
          exact .absent
      | some held =>
          obtain ⟨rest?, hrest, hremove⟩ := Checked.bind_eq_ok hremove
          cases rest? with
          | none =>
              have hwhole : map.removeFromTrie (ofKey key) true = .ok revision := hremove
              exact removed_of_removeFromTrie (fun _ => ⟨staging, slot, hstaged, hslot, hrest⟩)
                (fun htrue => absurd htrue.symm Bool.false_ne_true) hwhole
          | some node =>
              obtain ⟨size, hless, hremove⟩ := Checked.bind_eq_ok hremove
              cases hremove
              exact .staged hstaged (sizeLess_eq_ok hless)

/-! ### Bulk removal -/

theorem swept_of_removeAll {test : V → σ → Bool × σ} {state state' : σ}
    (hremove : map.removeAll test state = .ok (revision, state')) : map.Swept revision := by
  obtain ⟨⟨root?, merges⟩, hmerge, hremove⟩ := Checked.bind_eq_ok hremove
  cases root? with
  | none =>
      cases hremove
      exact .rootless hmerge
  | some root =>
      obtain ⟨⟨verdict, last, fresh⟩, -, hremove⟩ := Checked.bind_eq_ok hremove
      cases hrest : verdict.remains? root with
      | none =>
          simp only [hrest] at hremove
          cases hremove
          exact .cleared hmerge
      | some rest =>
          simp only [hrest] at hremove
          obtain ⟨size, -, hremove⟩ := Checked.bind_eq_ok hremove
          cases hremove
          exact .kept hmerge

/-! ### Cases that the values tell apart -/

namespace Sound

variable (hsound : map.Sound)

include hsound

theorem eq_of_removed_absent (hfree : map.contents address = none)
    (hremoved : map.Removed address revision) (hupdated : map.Updated address none revision.map) :
    revision = ⟨map, []⟩ := by
  have hcontents := hupdated.contents.trans (Contents.update_none_eq_self hfree)
  have hsize : revision.map.size = map.size := by
    rw [hupdated.sound.size, hcontents, hsound.size]
  -- A case that takes a value counts one less, although no value is gone.
  have hlesser : ∀ size, size + 1 = map.size → size ≠ map.size := by
    intro size hless
    omega
  cases hremoved with
  | absent => rfl
  | staged hstaged hless => exact absurd hsize (hlesser _ hless)
  | cleared =>
      have hroot : map.root = none := hsound.root_eq_none_iff.mpr hsize.symm
      rw [hsound.empty_of_root hroot]
  | dropped hstaged hslot hlast hless => exact absurd hsize (hlesser _ hless)
  | taken hstaged hmerge hless => exact absurd hsize (hlesser _ hless)

theorem exists_staged_value (hstaging : map.staging = some staging) :
    ∃ member value, member.block = staging.block ∧ map.contents member = some value := by
  obtain ⟨member, value, hblock, hvalue⟩ :=
    hsound.leaves_wellFormed.exists_value (leaves_staged hstaging)
  exact ⟨member, value, hblock.trans (hsound.block staging hstaging), hvalue⟩

end Sound

end RadixMap.IntMap
