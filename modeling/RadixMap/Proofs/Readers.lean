import Mathlib
import RadixMap.Map.Exchange
import RadixMap.Map.Listing
import RadixMap.Proofs.CursorWalk
import RadixMap.Proofs.TrieDump

/-!
# Readers of a map

A sound map is read without a fault in every way there is: entry by entry, against another map, by a
cursor, and as text.
-/

namespace RadixMap

open Address

variable {V : Type}

namespace IntMap.Sound

variable {map left right : IntMap V}

theorem contains_eq (hsound : map.Sound) (key : Int32) :
    map.contains key = .ok (map.contents (ofKey key)).isSome := by
  rw [contains, hsound.get?_eq, Checked.map_ok]

theorem sortedEntries_ok (hsound : map.Sound) : ∃ entries, map.sortedEntries = .ok entries := by
  rw [sortedEntries, hsound.entries_eq]
  exact ⟨_, rfl⟩

/-- If another map has all of as many keys, it has no others. -/
theorem isSome_eq_of_all (hleft : left.Sound) (hright : right.Sound) (hsize : left.size = right.size)
    (hall : ∀ address, (left.contents address).isSome → (right.contents address).isSome)
    (address : Address) : (left.contents address).isSome = (right.contents address).isSome := by
  have hkeys := Set.eq_of_subset_of_ncard_le
    (show {address | (left.contents address).isSome} ⊆
      {address | (right.contents address).isSome} from hall)
    (by rw [← Contents.size, ← Contents.size, ← hleft.size, ← hright.size, hsize])
  exact Bool.eq_iff_iff.mpr (Set.ext_iff.mp hkeys address)

theorem size_eq_of_isSome_eq (hleft : left.Sound) (hright : right.Sound)
    (hkeys : ∀ address, (left.contents address).isSome = (right.contents address).isSome) :
    left.size = right.size := by
  rw [hleft.size, hright.size, Contents.size, Contents.size]
  simp only [hkeys]

/-- Of two values that are equal as the type of the values has it, both are there or neither. -/
theorem isSome_eq_of_beq [BEq V] {held? other? : Option V} (hsame : (held? == other?) = true) :
    other?.isSome = held?.isSome := by
  cases held? <;> cases other? <;> first | rfl | exact absurd hsame Bool.false_ne_true

/-- If another map of as many keys has an equal value for each, the two are equal everywhere. -/
theorem beq_contents_of_all [BEq V] (hleft : left.Sound) (hright : right.Sound)
    (hsize : left.size = right.size)
    (hall : ∀ address value, left.contents address = some value →
      (right.contents address == some value) = true) (address : Address) :
    (right.contents address == left.contents address) = true := by
  have hkeys := isSome_eq_of_all hleft hright hsize fun other hheld => by
    obtain ⟨value, hvalue⟩ := Option.isSome_iff_exists.mp hheld
    exact (isSome_eq_of_beq (hall other value hvalue)).symm
  cases hvalue : left.contents address with
  | some value => exact hall address value hvalue
  | none =>
      have hfree := hkeys address
      rw [hvalue, Option.isSome_none, eq_comm, Option.isSome_eq_false_iff,
        Option.isNone_iff_eq_none] at hfree
      rw [hfree]
      rfl

theorem equals_eq [BEq V] (hleft : left.Sound) (hright : right.Sound) :
    ∃ same, left.equals right = .ok same ∧
      (same = true ↔ ∀ address, (right.contents address == left.contents address) = true) := by
  by_cases hsize : left.size = right.size
  · have hitems : ∀ entry ∈ left.keyed,
        (do return (← right.get? entry.1) == some entry.2) =
          (.ok (right.contents (ofKey entry.1) == some entry.2) : Checked Bool) := by
      intro entry _
      rw [hright.get?_eq, Checked.ok_bind, Checked.pure_eq]
    have hequals : left.equals right =
        .ok (left.keyed.all fun entry => right.contents (ofKey entry.1) == some entry.2) := by
      rw [equals, hleft.entries_eq]
      simp only [ne_eq, hsize, not_true_eq_false, if_false, Checked.ok_bind]
      exact Checked.allM_eq_ok hitems
    refine ⟨_, hequals, ?_⟩
    rw [keyed, List.all_map, List.all_eq_true]
    constructor
    · intro hall
      exact beq_contents_of_all hleft hright hsize fun address value hvalue =>
        hall _ (hleft.mem_addressed.mpr hvalue)
    · rintro hsame ⟨address, value⟩ hmem
      have hboth := hsame address
      rwa [hleft.mem_addressed.mp hmem] at hboth
  · refine ⟨false, ?_, ?_⟩
    · rw [equals, if_pos hsize]
      rfl
    · constructor
      · intro hfalse
        cases hfalse
      · intro hsame
        exact absurd (size_eq_of_isSome_eq hleft hright fun address => isSome_eq_of_beq (hsame address))
          hsize

theorem values_eq (hsound : map.Sound) : map.values = .ok (map.addressed.map (·.2)) := by
  obtain ⟨cursor, hcursor, hyields⟩ := hsound.cursor_ok
  rw [values, hcursor, Checked.ok_bind, Cursor.toList_ok hyields]

theorem tree_ok (hsound : map.Sound) (display : V → String) :
    ∃ text, map.tree display = .ok text := by
  rw [tree, hsound.dump_eq]
  exact ⟨_, rfl⟩

end IntMap.Sound

end RadixMap
