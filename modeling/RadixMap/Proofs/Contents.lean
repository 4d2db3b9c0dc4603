import Mathlib
import RadixMap.Proofs.Sieve
import RadixMap.Proofs.TrieLeaves

/-!
# Contents

The contents of a map are its values by address. Leaves that are well formed and the same for all
addresses of a block are known, but for their numbers, by the contents that they hold, and a change
of one value changes one leaf.
-/

namespace RadixMap

open Address

variable {V : Type}

abbrev Contents (V : Type) := Address → Option V

namespace Contents

def empty : Contents V := fun _ => none

theorem empty_eq_some_iff (address : Address) (value : V) :
    (empty : Contents V) address = some value ↔ (address, value) ∈ ([] : List (Address × V)) := by
  rw [empty]
  simp

noncomputable def size (contents : Contents V) : Nat :=
  Set.ncard {address | (contents address).isSome}

theorem size_empty : size (empty : Contents V) = 0 := by
  rw [size, Set.ncard_eq_zero]
  exact Set.eq_empty_of_forall_notMem fun _ hmem => absurd hmem Bool.false_ne_true

theorem size_eq_zero_iff {contents : Contents V} : contents.size = 0 ↔ contents = empty := by
  constructor
  · intro hsize
    rw [size, Set.ncard_eq_zero] at hsize
    funext address
    cases hvalue : contents address with
    | none => rfl
    | some value =>
        have hmem : address ∈ {address | (contents address).isSome} := by
          rw [Set.mem_ofPred_eq, hvalue]
          rfl
        rw [hsize] at hmem
        cases hmem
  · rintro rfl
    exact size_empty

theorem size_update_some (contents : Contents V) (address : Address) (value : V) :
    size (Function.update contents address (some value)) =
      contents.size + (contents address).isNone.toNat := by
  have hkeys : {other | (Function.update contents address (some value) other).isSome} =
      insert address {other | (contents other).isSome} := by
    ext other
    by_cases heq : other = address
    · simp [heq]
    · simp [heq]
  rw [size, hkeys]
  cases hheld : contents address with
  | none =>
      rw [Set.ncard_insert_of_notMem (by simp [hheld])]
      rfl
  | some held =>
      rw [Set.insert_eq_of_mem (by simp [hheld])]
      rfl

theorem size_update_none {contents : Contents V} {address : Address} {held : V}
    (hheld : contents address = some held) :
    size (Function.update contents address none) + 1 = contents.size := by
  have hkeys : {other | (Function.update contents address none other).isSome} =
      {other | (contents other).isSome} \ {address} := by
    ext other
    by_cases heq : other = address
    · simp [heq]
    · simp [heq]
  rw [size, hkeys]
  exact Set.ncard_sdiff_singleton_add_one (by simp [hheld])

theorem update_none_eq_self {contents : Contents V} {address : Address}
    (hfree : contents address = none) : Function.update contents address none = contents := by
  rw [← hfree, Function.update_eq_self]

theorem size_eq_length {contents : Contents V} {entries : List (Address × V)}
    (hsorted : entries.Pairwise fun left right => left.1.toNat < right.1.toNat)
    (hmem : ∀ address value, (address, value) ∈ entries ↔ contents address = some value) :
    contents.size = entries.length := by
  have hnodup := nodup_keys_of_ascending UInt32.toNat hsorted
  have hkeys : {address | (contents address).isSome} = ((entries.map (·.1)).toFinset : Set Address) := by
    ext address
    rw [Set.mem_ofPred_eq, Option.isSome_iff_exists, Finset.mem_coe, List.mem_toFinset, List.mem_map]
    constructor
    · rintro ⟨value, hvalue⟩
      exact ⟨(address, value), (hmem address value).mpr hvalue, rfl⟩
    · rintro ⟨entry, hentry, rfl⟩
      exact ⟨entry.2, (hmem entry.1 entry.2).mp hentry⟩
  rw [size, hkeys, Set.ncard_coe_finset, List.toFinset_card_of_nodup hnodup, List.length_map]

theorem size_le (contents : Contents V) : contents.size ≤ UInt32.size := by
  have hcard : Nat.card UInt32 = UInt32.size := by
    rw [Nat.card_eq_fintype_card, ← FinEnum.card_eq_fintypeCard]
    rfl
  rw [← hcard, ← Set.ncard_univ]
  exact Set.ncard_le_ncard (Set.subset_univ _)

end Contents

namespace Leaves

/-- Addresses of one block have the same leaf, and the leaves are well formed. -/
structure WellFormed (leaves : Leaves V) : Prop where
  congr : ∀ left right : Address, left.block = right.block → leaves left = leaves right
  leaf : ∀ address leaf, leaves address = some leaf → leaf.node.WellFormed

theorem Low.update {leaves : Leaves V} {level : Nat} (hlow : leaves.Low level) (address : Address)
    (leaf : Leaf V) : (leaves.update address (some leaf)).Low level := by
  rcases hlow with hzero | ⟨highest, held, hmin, hheld⟩
  · exact Or.inl hzero
  · by_cases hblock : highest.block = address.block
    · exact Or.inr ⟨highest, leaf, hmin, update_of_block_eq hblock _⟩
    · exact Or.inr ⟨highest, held, hmin, (update_of_block_ne hblock _).trans hheld⟩

theorem find_eq (leaves : Leaves V) (address : Address) :
    leaves.find address = Leaf.tableOf (leaves address) (address.digit 0) := by
  rw [find]
  cases leaves address with
  | none => rfl
  | some leaf => rfl

theorem WellFormed.update {leaves : Leaves V} (hwf : leaves.WellFormed) (address : Address)
    {leaf? : Option (Leaf V)} (hleaf : ∀ leaf, leaf? = some leaf → leaf.node.WellFormed) :
    (leaves.update address leaf?).WellFormed where
  congr left right hblock := by
    rw [Leaves.update, Leaves.update, hblock, hwf.congr left right hblock]
  leaf other leaf hother := by
    by_cases hblock : other.block = address.block
    · rw [update_of_block_eq hblock] at hother
      exact hleaf leaf hother
    · rw [update_of_block_ne hblock] at hother
      exact hwf.leaf other leaf hother

theorem WellFormed.update_self {leaves : Leaves V} (hwf : leaves.WellFormed) {address : Address}
    {leaf? : Option (Leaf V)} (hleaf : leaves address = leaf?) : leaves.update address leaf? = leaves := by
  funext other
  by_cases hblock : other.block = address.block
  · rw [update_of_block_eq hblock, ← hleaf, hwf.congr other address hblock]
  · rw [update_of_block_ne hblock]

/-- Another value in one leaf is another value at one address. -/
theorem WellFormed.find_update {leaves : Leaves V} (hwf : leaves.WellFormed) {address : Address}
    {leaf? : Option (Leaf V)} {value? : Option V}
    (htable : Leaf.tableOf leaf? =
      (Leaf.tableOf (leaves address)).update (address.digit 0) value?) :
    (leaves.update address leaf?).find = Function.update leaves.find address value? := by
  funext other
  rw [find_eq]
  by_cases hblock : other.block = address.block
  · rw [update_of_block_eq hblock, htable]
    by_cases hdigit : other.digit 0 = address.digit 0
    · rw [eq_iff_block_digit.mpr ⟨hblock, hdigit⟩, Table.update_self, Function.update_self]
    · have hne : other ≠ address := fun heq => hdigit (heq ▸ rfl)
      rw [Table.update_of_ne hdigit, Function.update_of_ne hne, find_eq, hwf.congr other address hblock]
  · have hne : other ≠ address := fun heq => hblock (heq ▸ rfl)
    rw [update_of_block_ne hblock, Function.update_of_ne hne, find_eq]

theorem WellFormed.exists_value {leaves : Leaves V} (hwf : leaves.WellFormed) {address : Address}
    {leaf : Leaf V} (hleaf : leaves address = some leaf) :
    ∃ member value, member.block = address.block ∧ leaves.find member = some value := by
  obtain ⟨slot, value, hslot⟩ := (hwf.leaf address leaf hleaf).stores.exists_slot
  obtain ⟨member, hblock, hdigit⟩ := exists_member address slot
  refine ⟨member, value, hblock, ?_⟩
  rw [find_eq, hwf.congr member address hblock, hleaf, hdigit]
  exact hslot

theorem WellFormed.tableOf_ext {leaves other : Leaves V} (hwf : leaves.WellFormed)
    (hother : other.WellFormed) (hfind : leaves.find = other.find) (address : Address) :
    Leaf.tableOf (leaves address) = Leaf.tableOf (other address) := by
  funext slot
  obtain ⟨member, hblock, hdigit⟩ := exists_member address slot
  have hsame := congrFun hfind member
  rwa [find_eq, find_eq, hdigit, hwf.congr member address hblock,
    hother.congr member address hblock] at hsame

/-- But for their numbers, well-formed leaves are known by the values that they hold. -/
theorem WellFormed.map_node_eq {leaves other : Leaves V} (hwf : leaves.WellFormed)
    (hother : other.WellFormed) (hfind : leaves.find = other.find) (address : Address) :
    (leaves address).map Leaf.node = (other address).map Leaf.node := by
  have htable := hwf.tableOf_ext hother hfind address
  cases hleaf : leaves address with
  | none =>
      cases hheld : other address with
      | none => rfl
      | some held =>
          rw [hleaf, hheld] at htable
          obtain ⟨slot, value, hslot⟩ := (hother.leaf address held hheld).stores.exists_slot
          rw [show held.node.find = Table.empty from htable.symm] at hslot
          cases hslot
  | some leaf =>
      cases hheld : other address with
      | none =>
          rw [hleaf, hheld] at htable
          obtain ⟨slot, value, hslot⟩ := (hwf.leaf address leaf hleaf).stores.exists_slot
          rw [show leaf.node.find = Table.empty from htable] at hslot
          cases hslot
      | some held =>
          rw [hleaf, hheld] at htable
          have hnode := (hwf.leaf address leaf hleaf).ext (hother.leaf address held hheld) htable
          rw [Option.map_some, Option.map_some, hnode]

/-- Every leaf has a number below the next one to give. -/
def Numbered (leaves : Leaves V) (fresh : Nat) : Prop :=
  ∀ address leaf, leaves address = some leaf → leaf.serial < fresh

theorem Numbered.mono {leaves : Leaves V} {fresh later : Nat} (hnumbered : leaves.Numbered fresh)
    (hle : fresh ≤ later) : leaves.Numbered later :=
  fun address leaf hleaf => (hnumbered address leaf hleaf).trans_le hle

theorem Numbered.update {leaves : Leaves V} {fresh : Nat} (hnumbered : leaves.Numbered fresh)
    (address : Address) {leaf? : Option (Leaf V)}
    (hleaf : ∀ leaf, leaf? = some leaf → leaf.serial < fresh) :
    (leaves.update address leaf?).Numbered fresh := by
  intro other leaf hother
  by_cases hblock : other.block = address.block
  · rw [update_of_block_eq hblock] at hother
    exact hleaf leaf hother
  · rw [update_of_block_ne hblock] at hother
    exact hnumbered other leaf hother

end Leaves

theorem Trie.WellFormed.leaves {level : Nat} {root? : Option (Trie V)}
    (hwf : ∀ root, root? = some root → root.WellFormed level) :
    (Trie.leaves level root?).WellFormed where
  congr left right hblock := leaves_congr hblock
  leaf address leaf hleaf := by
    by_cases hreach : address.minLevel ≤ level
    · rw [leaves_of_reach hreach] at hleaf
      obtain ⟨root, hroot, hon⟩ := Option.bind_eq_some_iff.mp hleaf
      exact (hwf root hroot).leafOn hon
    · rw [leaves_of_not_reach (Nat.not_le.mp hreach)] at hleaf
      cases hleaf

end RadixMap
